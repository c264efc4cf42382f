import CodePrinter.Layout.Instr
import CodePrinter.Operator

/-! Printed expressions, ready to be put in any position of a larger one. -/
namespace CodePrinter

/-- What the parentheses around an expression depend on. -/
inductive Shape where
  | name
  | number (negative : Bool)
  /-- A constant other than a number. -/
  | constant
  /-- What can be called, indexed or dotted into as it stands. -/
  | primary
  /-- What would swallow a conditional that it stands in the body of. -/
  | greedy
  | other
  deriving DecidableEq

namespace Shape

/-- An operand that needs no parentheses. -/
def isAtomic : Shape → Bool
  | .name => true
  | .number negative => !negative
  | .constant => true
  | _ => false

/-- A callee, or the object of an attribute or a subscript, that needs no parentheses. -/
def isPrimary : Shape → Bool
  | .name => true
  | .constant => true
  | .primary => true
  | _ => false

def isConstant : Shape → Bool
  | .number _ => true
  | .constant => true
  | _ => false

def ofConstant (c : Constant) : Shape :=
  if c.isNumber then .number c.isNegativeNumber else .constant

end Shape

/-- A printed expression. What lowering finds wrong with it is reported before anything of it is
printed, parentheses included. -/
structure Fragment where
  issues : List Instr := []
  shape : Shape
  body : List Instr

def markAt : Option Location → List Instr
  | none => []
  | some loc => [.mark loc]

/-- A text, or the failure that is raised in place of it. -/
def textOr {ε : Type} (raise : ε → Failure) : Except ε String → List Instr
  | .ok value => [.text value]
  | .error what => [.fail (raise what)]

def parenthesized (is : List Instr) : List Instr := .text "(" :: is ++ [.text ")"]

/-- Puts a separator between lists of instructions. -/
def separated (separator : List Instr) : List (List Instr) → List Instr
  | [] => []
  | [is] => is
  | is :: rest => is ++ separator ++ separated separator rest

def commaSeparated (items : List (List Instr)) : List Instr := separated [.text ", "] items

namespace Fragment

/-- The expression where nothing around it can bind to its parts. -/
def bare (f : Fragment) : List Instr := f.issues ++ f.body

def grouped (f : Fragment) : List Instr := f.issues ++ parenthesized f.body

/-- The expression once what is wrong with it was reported. -/
def operandBody (f : Fragment) : List Instr :=
  if f.shape.isAtomic then f.body else parenthesized f.body

/-- The expression as an operand of an operator or in a template. -/
def operand (f : Fragment) : List Instr := f.issues ++ f.operandBody

/-- The expression as a callee, or as the object of an attribute or a subscript. -/
def primary (f : Fragment) : List Instr := if f.shape.isPrimary then f.bare else f.grouped

/-- The expression as the body of a conditional. -/
def branch (f : Fragment) : List Instr := if f.shape = .greedy then f.grouped else f.bare

/-! The kinds of expressions. -/

def name (id : String) (loc : Option Location) : Fragment :=
  { shape := .name, body := markAt loc ++ [.text id] }

def constant (value : Constant) (loc : Option Location) : Fragment :=
  { shape := .ofConstant value, body := markAt loc ++ textOr .fault value.text }

def keyword (name : String) (value : Fragment) : List Instr :=
  [.text name, .text "="] ++ value.bare

def call (func : Fragment) (args : List Fragment) (keywords : List (String × Fragment))
    (loc : Option Location) : Fragment :=
  { shape := .primary
    body := markAt loc ++ func.primary ++ [.text "("] ++ commaSeparated (args.map bare) ++
      (if args.isEmpty || keywords.isEmpty then [] else [.text ", "]) ++
      commaSeparated (keywords.map fun k => keyword k.1 k.2) ++ [.text ")"] }

def attr (value : Fragment) (name : String) (loc : Option Location) : Fragment :=
  { shape := .primary, body := markAt loc ++ value.primary ++ [.text ".", .text name] }

def subscript (value slice : Fragment) (loc : Option Location) : Fragment :=
  { shape := .primary
    body := markAt loc ++ value.primary ++ [.text "["] ++ slice.bare ++ [.text "]"] }

def binary (left : Fragment) (op : BinaryOp) (right : Fragment) (loc : Option Location) :
    Fragment :=
  { shape := .other, body := markAt loc ++ left.operand ++ textOr .fault op.text ++ right.operand }

def unary (op : UnaryOp) (operand : Fragment) (loc : Option Location) : Fragment :=
  { shape := .other, body := markAt loc ++ textOr .fault op.text ++ operand.operand }

def boolean (op : BoolOp) (values : List Fragment) (loc : Option Location) : Fragment :=
  { shape := .other, body := markAt loc ++ separated (textOr .fault op.text) (values.map operand) }

/-- The operators and operands after the first; what has no counterpart is left out. -/
def comparisons : List CompareOp → List Fragment → List Instr
  | op :: ops, f :: fs => textOr .fault op.text ++ f.operand ++ comparisons ops fs
  | _, _ => []

def compare (left : Fragment) (ops : List CompareOp) (comparators : List Fragment)
    (loc : Option Location) : Fragment :=
  { shape := .other, body := markAt loc ++ left.operand ++ comparisons ops comparators }

def conditional (test body orElse : Fragment) (loc : Option Location) : Fragment :=
  { shape := .greedy
    body := markAt loc ++ body.branch ++ [.text " if "] ++ test.grouped ++ [.text " else "] ++
      orElse.grouped }

def tuple (elements : List Fragment) (loc : Option Location) : Fragment :=
  { shape := .primary
    body := markAt loc ++ [.text "("] ++ commaSeparated (elements.map bare) ++
      (if elements.length = 1 then [.text ","] else []) ++ [.text ")"] }

def list (elements : List Fragment) (loc : Option Location) : Fragment :=
  { shape := .primary
    body := markAt loc ++ [.text "["] ++ commaSeparated (elements.map bare) ++ [.text "]"] }

/-- The empty set has no literal. -/
def set (elements : List Fragment) (loc : Option Location) : Fragment :=
  { shape := .primary
    body := markAt loc ++
      if elements.isEmpty then [.text "set()"]
      else [.text "\x7b"] ++ commaSeparated (elements.map bare) ++ [.text "\x7d"] }

/-- The entries of a dictionary; a key or a value without its counterpart is left out. -/
def entries : List Fragment → List Fragment → List (List Instr)
  | key :: keys, value :: values => (key.bare ++ [.text ": "] ++ value.bare) :: entries keys values
  | _, _ => []

/-- A dictionary has each entry on a line of its own. -/
def dict (keys values : List Fragment) (loc : Option Location) : Fragment :=
  { shape := .primary
    body := markAt loc ++
      if (entries keys values).isEmpty then [.text "\x7b\x7d"]
      else [.text "\x7b", .newline, .indent] ++
        separated [.text ",", .newline] (entries keys values) ++
        [.newline, .dedent, .text "\x7d"] }

def named (target value : Fragment) (loc : Option Location) : Fragment :=
  { shape := .other
    body := markAt loc ++ parenthesized (target.bare ++ [.text " := "] ++ value.bare) }

def starred (value : Fragment) (loc : Option Location) : Fragment :=
  { shape := .other, body := markAt loc ++ [.text "*"] ++ value.primary }

/-- A placeholder for what cannot be printed. -/
def unimplemented (construct : String) (loc : Option Location) : Fragment :=
  { shape := .other
    body := markAt loc ++ [.problem (.unimplemented construct) loc, .text "None"] }

def unknown (node : Data) (loc : Option Location) : Fragment :=
  { shape := .other, body := markAt loc ++ [.fail (.fault (.ofNode .unknownExpression node))] }

end Fragment

end CodePrinter
