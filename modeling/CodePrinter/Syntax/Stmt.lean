import CodePrinter.Syntax.Expr

/-! Python statements. -/
namespace CodePrinter

/-- An imported name, with the name it gets here. -/
structure Alias where
  name : String
  asName : Option String := none
  deriving DecidableEq

mutual

/-- A statement, with its place in the program it was made from. -/
inductive Stmt where
  | functionDef (name : String) (params : Params) (body : List Stmt)
      (decorators : List Expr) (returns : Option Expr)
      (loc : Option Location := none)
  | asyncFunctionDef (name : String) (params : Params) (body : List Stmt)
      (decorators : List Expr) (returns : Option Expr)
      (loc : Option Location := none)
  | classDef (name : String) (bases : List Expr) (body : List Stmt)
      (decorators : List Expr) (loc : Option Location := none)
  /-- The `else` part holds a single conditional for `elif`. -/
  | conditional (test : Expr) (body : List Stmt) (orElse : List Stmt)
      (loc : Option Location := none)
  | forLoop (target iter : Expr) (body : List Stmt) (loc : Option Location := none)
  | asyncFor (target iter : Expr) (body : List Stmt) (loc : Option Location := none)
  | whileLoop (test : Expr) (body : List Stmt) (loc : Option Location := none)
  | tryBlock (body : List Stmt) (handlers : List Handler) (orElse : List Stmt)
      (finalBody : List Stmt) (loc : Option Location := none)
  | importNames (names : List Alias) (loc : Option Location := none)
  /-- Names from a module; without one, from the package at hand. -/
  | importFrom (module : Option String) (names : List Alias) (loc : Option Location := none)
  | assign (targets : List Expr) (value : Expr) (loc : Option Location := none)
  | returnValue (value : Option Expr) (loc : Option Location := none)
  | raise (exception : Expr) (loc : Option Location := none)
  | expr (value : Expr) (loc : Option Location := none)
  | pass (loc : Option Location := none)
  | breakLoop (loc : Option Location := none)
  | continueLoop (loc : Option Location := none)
  | globalNames (names : List String) (loc : Option Location := none)
  | nonlocalNames (names : List String) (loc : Option Location := none)
  /-- A node of no known kind, kept as data. -/
  | unknown (kind : String) (node : Data) (loc : Option Location := none)

/-- An `except` part of a `try`. -/
inductive Handler where
  | mk (body : List Stmt) (type : Option Expr) (name : Option String)
      (loc : Option Location := none)

end

namespace Stmt

def loc : Stmt → Option Location
  | .functionDef _ _ _ _ _ loc => loc
  | .asyncFunctionDef _ _ _ _ _ loc => loc
  | .classDef _ _ _ _ loc => loc
  | .conditional _ _ _ loc => loc
  | .forLoop _ _ _ loc => loc
  | .asyncFor _ _ _ loc => loc
  | .whileLoop _ _ loc => loc
  | .tryBlock _ _ _ _ loc => loc
  | .importNames _ loc => loc
  | .importFrom _ _ loc => loc
  | .assign _ _ loc => loc
  | .returnValue _ loc => loc
  | .raise _ loc => loc
  | .expr _ loc => loc
  | .pass loc => loc
  | .breakLoop loc => loc
  | .continueLoop loc => loc
  | .globalNames _ loc => loc
  | .nonlocalNames _ loc => loc
  | .unknown _ _ loc => loc

/-- What a statement is called in notes. -/
def describe : Stmt → String
  | .functionDef name _ _ _ _ _ => "function " ++ name
  | .asyncFunctionDef name _ _ _ _ _ => "function " ++ name
  | .classDef name _ _ _ _ => "class " ++ name
  | .conditional _ _ _ _ => "if statement"
  | .forLoop _ _ _ _ => "for statement"
  | .asyncFor _ _ _ _ => "asyncFor statement"
  | .whileLoop _ _ _ => "while statement"
  | .tryBlock _ _ _ _ _ => "try statement"
  | .importNames _ _ => "import statement"
  | .importFrom _ _ _ => "importFrom statement"
  | .assign _ _ _ => "assign statement"
  | .returnValue _ _ => "return statement"
  | .raise _ _ => "raise statement"
  | .expr _ _ => "expr statement"
  | .pass _ => "pass statement"
  | .breakLoop _ => "break statement"
  | .continueLoop _ => "continue statement"
  | .globalNames _ _ => "global statement"
  | .nonlocalNames _ _ => "nonlocal statement"
  | .unknown kind _ _ => kind ++ " statement"

def isImport : Stmt → Bool
  | .importNames _ _ => true
  | .importFrom _ _ _ => true
  | _ => false

end Stmt

end CodePrinter
