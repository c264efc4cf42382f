import CodePrinter.Print.Fragment

/-! Printed snippets: raw text with arguments filled in.

An argument is printed as an operand wherever it is referred to. What is wrong with it is reported
once, where it is first used. -/
namespace CodePrinter.Fragment

/-- A text of a snippet, line by line. -/
def snippetLines : List (List Char) → List Instr
  | [] => []
  | [line] => [.snippetLine (String.ofList line) false]
  | line :: lines => .snippetLine (String.ofList line) true :: snippetLines lines

/-- What is wrong with an argument is reported where it is first used. -/
def firstUse (args : List Fragment) (used : List Nat) (index : Nat) : List Instr :=
  if index ∈ used then []
  else match args[index]? with
    | some f => f.issues
    | none => []

/-- Uses arguments to decide the choices of a template. -/
def useAll (args : List Fragment) : (used indices : List Nat) → List Instr
  | _, [] => []
  | used, index :: indices => firstUse args used index ++ useAll args (index :: used) indices

/-- The parts of a template; an argument that does not exist is `None`. -/
def fill (args : List Fragment) : (used : List Nat) → List Template.Part → List Instr
  | _, [] => []
  | used, .text value :: parts =>
    snippetLines (Text.splitLines value.toList) ++ fill args used parts
  | used, .arg index :: parts =>
    (match args[index]? with
      | some f => firstUse args used index ++ f.operandBody
      | none => [.text "None"]) ++ fill args (index :: used) parts

def isConstantAt (args : List Fragment) (index : Nat) : Bool :=
  (args[index]?).any (·.shape.isConstant)

/-- A snippet with its arguments filled in. -/
def snippet (template : String) (args : List Fragment) : List Instr :=
  let tested := Template.choiceIndices (Template.expandSpreads args.length template.toList)
  useAll args [] tested ++
    [.template (Template.expand args.length (isConstantAt args) template) (fill args tested)]

def emit (template : String) (args : List Fragment) (loc : Option Location) : Fragment :=
  { shape := .other, body := markAt loc ++ snippet template args }

end CodePrinter.Fragment
