import CodePrinter.Dump.Value
import CodePrinter.Syntax.Stmt

/-! Trees laid open as data, for inspection. -/
namespace CodePrinter

/-- A node with its kind as the first field and its place as the last. -/
def Data.nodeAt (kind : String) (loc : Option Location) (fields : List (String × Data)) : Data :=
  .node kind (fields ++ [("loc", .ofOption (loc.map Location.toData))])

def Alias.dump (names : Alias) : Data :=
  .object [("name", .string names.name), ("asName", .ofText? names.asName)]

mutual

def Expr.dump : Expr → Data
  | .name id loc => .nodeAt "name" loc [("id", .string id)]
  | .constant value loc => .nodeAt "constant" loc [("value", value.dump)]
  | .call func args keywords loc =>
    .nodeAt "call" loc [("func", func.dump), ("args", .array (dumpExprs args)),
      ("keywords", .array (dumpKeywords keywords))]
  | .attr value member loc =>
    .nodeAt "attribute" loc [("value", value.dump), ("attr", .string member)]
  | .subscript value slice loc =>
    .nodeAt "subscript" loc [("value", value.dump), ("slice", slice.dump)]
  | .binary left op right loc =>
    .nodeAt "binOp" loc [("left", left.dump), ("op", .string op.name), ("right", right.dump)]
  | .unary op operand loc =>
    .nodeAt "unaryOp" loc [("op", .string op.name), ("operand", operand.dump)]
  | .boolean op values loc =>
    .nodeAt "boolOp" loc [("op", .string op.name), ("values", .array (dumpExprs values))]
  | .compare left ops comparators loc =>
    .nodeAt "compare" loc [("left", left.dump), ("ops", .array (ops.map fun op => .string op.name)),
      ("comparators", .array (dumpExprs comparators))]
  | .conditional test body orElse loc =>
    .nodeAt "ifExp" loc [("test", test.dump), ("body", body.dump), ("orElse", orElse.dump)]
  | .lambda params body loc => .nodeAt "lambda" loc [("args", params.dump), ("body", body.dump)]
  | .tuple elements loc => .nodeAt "tuple" loc [("elements", .array (dumpExprs elements))]
  | .list elements loc => .nodeAt "list" loc [("elements", .array (dumpExprs elements))]
  | .set elements loc => .nodeAt "set" loc [("elements", .array (dumpExprs elements))]
  | .dict keys values loc =>
    .nodeAt "dict" loc [("keys", .array (dumpExprs keys)), ("values", .array (dumpExprs values))]
  | .named target value loc =>
    .nodeAt "namedExpr" loc [("target", target.dump), ("value", value.dump)]
  | .starred value loc => .nodeAt "starred" loc [("value", value.dump)]
  | .emit template args loc =>
    .nodeAt "emit" loc [("value", .string template), ("args", .array (dumpExprs args))]
  | .typedLiteral type value loc =>
    .nodeAt "typedLiteral" loc [("type", type.dump), ("value", value.dump)]
  | .typeTest type value loc => .nodeAt "typeTest" loc [("type", type.dump), ("value", value.dump)]
  | .yield value loc => .nodeAt "yield" loc [("value", dumpOption value)]
  | .yieldFrom value loc => .nodeAt "yieldFrom" loc [("value", value.dump)]
  | .formattedValue value formatSpec loc =>
    .nodeAt "formattedValue" loc [("value", value.dump), ("formatSpec", dumpOption formatSpec)]
  | .unknown node _ => node

def Keyword.dump : Keyword → Data
  | .mk name value => .object [("arg", .string name), ("value", value.dump)]

def Param.dump : Param → Data
  | .mk name hint => .object [("arg", .string name), ("annotation", dumpOption hint)]

def Params.dump : Params → Data
  | .mk posOnly regular varArg defaults =>
    .object [("posOnlyArgs", .array (dumpParams posOnly)), ("args", .array (dumpParams regular)),
      ("varArg", dumpParam? varArg), ("defaults", .array (dumpExprs defaults))]

def dumpOption : Option Expr → Data
  | none => .missing
  | some e => e.dump

def dumpParam? : Option Param → Data
  | none => .missing
  | some p => p.dump

def dumpExprs : List Expr → List Data
  | [] => []
  | e :: es => e.dump :: dumpExprs es

def dumpKeywords : List Keyword → List Data
  | [] => []
  | k :: ks => k.dump :: dumpKeywords ks

def dumpParams : List Param → List Data
  | [] => []
  | p :: ps => p.dump :: dumpParams ps

end

mutual

def Stmt.dump : Stmt → Data
  | .functionDef name params body decorators returns loc =>
    .nodeAt "functionDef" loc [("name", .string name), ("args", params.dump),
      ("body", .array (dumpStmts body)), ("decoratorList", .array (dumpExprs decorators)),
      ("returns", dumpOption returns)]
  | .asyncFunctionDef name params body decorators returns loc =>
    .nodeAt "asyncFunctionDef" loc [("name", .string name), ("args", params.dump),
      ("body", .array (dumpStmts body)), ("decoratorList", .array (dumpExprs decorators)),
      ("returns", dumpOption returns)]
  | .classDef name bases body decorators loc =>
    .nodeAt "classDef" loc [("name", .string name), ("bases", .array (dumpExprs bases)),
      ("body", .array (dumpStmts body)), ("decoratorList", .array (dumpExprs decorators))]
  | .conditional test body orElse loc =>
    .nodeAt "if" loc [("test", test.dump), ("body", .array (dumpStmts body)),
      ("orElse", .array (dumpStmts orElse))]
  | .forLoop target iter body loc =>
    .nodeAt "for" loc [("target", target.dump), ("iter", iter.dump),
      ("body", .array (dumpStmts body))]
  | .asyncFor target iter body loc =>
    .nodeAt "asyncFor" loc [("target", target.dump), ("iter", iter.dump),
      ("body", .array (dumpStmts body))]
  | .whileLoop test body loc =>
    .nodeAt "while" loc [("test", test.dump), ("body", .array (dumpStmts body))]
  | .tryBlock body handlers orElse finalBody loc =>
    .nodeAt "try" loc [("body", .array (dumpStmts body)),
      ("handlers", .array (dumpHandlers handlers)), ("orElse", .array (dumpStmts orElse)),
      ("finalBody", .array (dumpStmts finalBody))]
  | .importNames names loc => .nodeAt "import" loc [("names", .array (names.map Alias.dump))]
  | .importFrom module names loc =>
    .nodeAt "importFrom" loc [("module", .ofText? module),
      ("names", .array (names.map Alias.dump))]
  | .assign targets value loc =>
    .nodeAt "assign" loc [("targets", .array (dumpExprs targets)), ("value", value.dump)]
  | .returnValue value loc => .nodeAt "return" loc [("value", dumpOption value)]
  | .raise exception loc => .nodeAt "raise" loc [("exception", exception.dump)]
  | .expr value loc => .nodeAt "expr" loc [("value", value.dump)]
  | .pass loc => .nodeAt "pass" loc []
  | .breakLoop loc => .nodeAt "break" loc []
  | .continueLoop loc => .nodeAt "continue" loc []
  | .globalNames names loc => .nodeAt "global" loc [("names", .array (names.map .string))]
  | .nonlocalNames names loc => .nodeAt "nonlocal" loc [("names", .array (names.map .string))]
  | .unknown _ node _ => node

def Handler.dump : Handler → Data
  | .mk body type name loc =>
    .object [("type", dumpOption type), ("name", .ofText? name), ("body", .array (dumpStmts body)),
      ("loc", .ofOption (loc.map Location.toData))]

def dumpStmts : List Stmt → List Data
  | [] => []
  | s :: ss => s.dump :: dumpStmts ss

def dumpHandlers : List Handler → List Data
  | [] => []
  | h :: hs => h.dump :: dumpHandlers hs

end

end CodePrinter
