import CodePrinter.Print.Expr
import CodePrinter.Syntax.Stmt

/-! Printing of statements. -/
namespace CodePrinter

/-- The statements of a suite; an empty one holds `pass`. -/
def orPass (is : List Instr) (empty : Bool) : List Instr :=
  if empty then [.text "pass", .endLine] else is

/-- An indented suite on the lines after a header. -/
def suite (is : List Instr) : List Instr := [.newline, .indent] ++ is ++ [.dedent]

/-- A suite that ends with an empty line. -/
def block (is : List Instr) : List Instr := .text "" :: suite is ++ [.newline]

def decorator (f : Fragment) : List Instr := .text "@" :: f.bare ++ [.newline]

/-- An imported name; an alias equal to it is not printed. -/
def Alias.print (a : Alias) : List Instr :=
  match a.asName with
  | some asName => if asName = a.name then [.text a.name] else
    [.text a.name, .text " as ", .text asName]
  | none => [.text a.name]

/-- Imported names, in parentheses if there are several. -/
def aliases (names : List Alias) : List Instr :=
  let items := commaSeparated (names.map Alias.print)
  if 1 < names.length then parenthesized items else items

def assignTarget (f : Fragment) : List Instr := f.bare ++ [.text " = "]

def nameList (keyword : String) (names : List String) : List Instr :=
  if names.isEmpty then [] else [.text keyword, .text (", ".intercalate names)]

mutual

/-- The instructions that print a statement. -/
def Stmt.instrs (set : Settings) : Stmt → List Instr
  | .functionDef name params body decorators returns loc =>
    markAt loc ++ (fragments set.names decorators).flatMap decorator ++
      [.text "def ", .text name, .text "("] ++ (params.fragment set.names).print true ++
      [.text ")"] ++ (match optionFragment set.names returns with
        | some f => .text " -> " :: f.bare
        | none => []) ++
      .text ":" :: block (orPass (stmtsInstrs set body) body.isEmpty)
  | .asyncFunctionDef _ _ _ _ _ loc =>
    markAt loc ++ [.problem (.unimplemented "Async function definition") loc, .text "pass"]
  | .classDef name bases body decorators loc =>
    markAt loc ++ (fragments set.names decorators).flatMap decorator ++
      [.text "class ", .text name] ++
      (if bases.isEmpty then []
        else parenthesized (commaSeparated ((fragments set.names bases).map (·.bare)))) ++
      .text ":" :: suite (orPass (stmtsInstrs set body) body.isEmpty)
  | .conditional test body orElse loc =>
    markAt loc ++ .text "if " :: (test.fragment set.names).bare ++
      .text ":" :: block (orPass (stmtsInstrs set body) body.isEmpty) ++ elseInstrs set orElse
  | .forLoop target iter body loc =>
    markAt loc ++ .text "for " :: (target.fragment set.names).bare ++
      .text " in " :: (iter.fragment set.names).bare ++
      .text ":" :: suite (orPass (stmtsInstrs set body) body.isEmpty)
  | .asyncFor _ _ _ loc =>
    markAt loc ++ [.problem (.unimplemented "Async for") loc, .text "pass"]
  | .whileLoop test body loc =>
    markAt loc ++ .text "while " :: (test.fragment set.names).bare ++
      .text ":" :: suite (orPass (stmtsInstrs set body) body.isEmpty)
  | .tryBlock body handlers orElse finalBody loc =>
    markAt loc ++ .text "try:" :: block (orPass (stmtsInstrs set body) body.isEmpty) ++
      handlersInstrs set handlers ++
      (if orElse.isEmpty then [] else .text "else:" :: block (stmtsInstrs set orElse)) ++
      (if finalBody.isEmpty then [] else .text "finally:" :: block (stmtsInstrs set finalBody))
  | .importNames names loc =>
    markAt loc ++ if names.isEmpty then [] else .text "import " :: aliases names
  | .importFrom module names loc =>
    markAt loc ++ if names.isEmpty then []
      else .text "from " :: textOr id (set.resolve (module.getD ".")) ++
        .text " import " :: aliases names
  | .assign targets value loc =>
    markAt loc ++ (fragments set.names targets).flatMap assignTarget ++
      (value.fragment set.names).bare
  | .returnValue value loc =>
    markAt loc ++ .text "return" :: (match optionFragment set.names value with
      | some f => .text " " :: f.bare
      | none => [])
  | .raise exception loc => markAt loc ++ .text "raise " :: (exception.fragment set.names).bare
  | .expr value loc => markAt loc ++ (value.fragment set.names).bare
  | .pass loc => markAt loc ++ [.text "pass"]
  | .breakLoop loc => markAt loc ++ [.text "break"]
  | .continueLoop loc => markAt loc ++ [.text "continue"]
  | .globalNames names loc => markAt loc ++ nameList "global " names
  | .nonlocalNames names loc => markAt loc ++ nameList "nonlocal " names
  | .unknown _ node loc => markAt loc ++ [.fail (.fault (.ofNode .unknownStatement node))]

/-- Statements, each on lines of its own. -/
def stmtsInstrs (set : Settings) : List Stmt → List Instr
  | [] => []
  | s :: ss => s.instrs set ++ .endLine :: stmtsInstrs set ss

/-- The `else` part of a conditional. One that only passes is left out, and one that holds a single
conditional becomes `elif`. -/
def elseInstrs (set : Settings) : List Stmt → List Instr
  | [] => []
  | [.pass _] => []
  | [.conditional test body orElse loc] =>
    markAt loc ++ .text "elif " :: (test.fragment set.names).bare ++
      .text ":" :: block (orPass (stmtsInstrs set body) body.isEmpty) ++ elseInstrs set orElse
  | s :: ss => .text "else:" :: block (s.instrs set ++ .endLine :: stmtsInstrs set ss)

def Handler.instrs (set : Settings) : Handler → List Instr
  | .mk body type name loc =>
    markAt loc ++ .text "except" :: (match optionFragment set.names type with
        | some f => .text " " :: f.bare
        | none => []) ++
      (match name with
        | some name => [.text " as ", .text name]
        | none => []) ++
      .text ":" :: block (orPass (stmtsInstrs set body) body.isEmpty)

def handlersInstrs (set : Settings) : List Handler → List Instr
  | [] => []
  | h :: hs => h.instrs set ++ handlersInstrs set hs

end

/-- Prints statements, each on lines of its own. -/
def renderStmts (set : Settings) (ss : List Stmt) (pass : Pass := {}) : Outcome :=
  perform set (stmtsInstrs set ss) pass

theorem stmtsInstrs_append (set : Settings) (ss ts : List Stmt) :
    stmtsInstrs set (ss ++ ts) = stmtsInstrs set ss ++ stmtsInstrs set ts := by
  induction ss with
  | nil => simp [stmtsInstrs]
  | cons s ss ih => simp [stmtsInstrs, ih]

end CodePrinter
