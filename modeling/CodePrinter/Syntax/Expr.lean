import CodePrinter.Operator
import CodePrinter.SemanticType

/-! Python expressions. -/
namespace CodePrinter

mutual

/-- An expression, with its place in the program it was made from.

Two of them are not Python: a typed literal and a type test are lowered to plain expressions when
they are printed. -/
inductive Expr where
  | name (id : String) (loc : Option Location := none)
  | constant (value : Constant) (loc : Option Location := none)
  | call (func : Expr) (args : List Expr) (keywords : List Keyword)
      (loc : Option Location := none)
  | attr (value : Expr) (member : String) (loc : Option Location := none)
  | subscript (value slice : Expr) (loc : Option Location := none)
  | binary (left : Expr) (op : BinaryOp) (right : Expr) (loc : Option Location := none)
  | unary (op : UnaryOp) (operand : Expr) (loc : Option Location := none)
  | boolean (op : BoolOp) (values : List Expr) (loc : Option Location := none)
  | compare (left : Expr) (ops : List CompareOp) (comparators : List Expr)
      (loc : Option Location := none)
  | conditional (test body orElse : Expr) (loc : Option Location := none)
  | lambda (params : Params) (body : Expr) (loc : Option Location := none)
  | tuple (elements : List Expr) (loc : Option Location := none)
  | list (elements : List Expr) (loc : Option Location := none)
  | set (elements : List Expr) (loc : Option Location := none)
  | dict (keys values : List Expr) (loc : Option Location := none)
  | named (target value : Expr) (loc : Option Location := none)
  | starred (value : Expr) (loc : Option Location := none)
  /-- A raw snippet with `$0`, `$1`, ... for the arguments. -/
  | emit (template : String) (args : List Expr) (loc : Option Location := none)
  | typedLiteral (type : SemanticType) (value : LiteralValue) (loc : Option Location := none)
  | typeTest (type : SemanticType) (value : Expr) (loc : Option Location := none)
  | yield (value : Option Expr) (loc : Option Location := none)
  | yieldFrom (value : Expr) (loc : Option Location := none)
  | formattedValue (value : Expr) (formatSpec : Option Expr)
      (loc : Option Location := none)
  /-- A node of no known kind, kept as data. -/
  | unknown (node : Data) (loc : Option Location := none)

/-- A keyword argument `name=value`. -/
inductive Keyword where
  | mk (name : String) (value : Expr)

/-- A parameter with an optional type hint. -/
inductive Param where
  | mk (name : String) (hint : Option Expr)

/-- The parameters of a function. The defaults belong to the last of the regular ones. -/
inductive Params where
  | mk (posOnly regular : List Param) (varArg : Option Param) (defaults : List Expr)

end

namespace Expr

def string (value : String) (loc : Option Location := none) : Expr := .constant (.string value) loc

def bool (value : Bool) (loc : Option Location := none) : Expr := .constant (.bool value) loc

def number (value : Double) (kind : NumberKind := .float64) (loc : Option Location := none) :
    Expr :=
  .constant (.number value kind) loc

def int (value : Double) (loc : Option Location := none) : Expr := number value .int32 loc

def noneValue (loc : Option Location := none) : Expr := .constant .none loc

/-- A call without keyword arguments. -/
def apply (func : Expr) (args : List Expr) (loc : Option Location := none) : Expr :=
  .call func args [] loc

/-- A name, or a member of what the name stands for. -/
def reference (module : String) : (member : Option String) → Expr
  | none => .name module
  | some member => .attr (.name module) member

/-- A comparison of two expressions. -/
def comparison (left right : Expr) (op : CompareOp := .eq) (loc : Option Location := none) :
    Expr :=
  .compare left [op] [right] loc

def isConstant : Expr → Bool
  | .constant _ _ => true
  | _ => false

/-- Whether there is an argument at an index and it is a constant as it stands. -/
def isConstantAt (args : List Expr) (index : Nat) : Bool := (args[index]?).any isConstant

end Expr

end CodePrinter
