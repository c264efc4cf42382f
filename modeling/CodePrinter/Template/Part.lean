import CodePrinter.Template.Macro

/-! The parts of a template: literal text and references to arguments. -/
namespace CodePrinter.Template

inductive Part where
  | text (value : String)
  | arg (index : Nat)
  deriving DecidableEq

/-- Puts a character before the parts of what follows it. -/
def consChar (c : Char) : List Part → List Part
  | .text value :: parts => .text (String.singleton c ++ value) :: parts
  | parts => .text (String.singleton c) :: parts

/-- Joins the characters between references to texts. -/
def joinChars : List (Token Nat) → List Part
  | [] => []
  | .char c :: ts => consChar c (joinChars ts)
  | .hit index :: ts => .arg index :: joinChars ts

/-- The parts of a text. -/
def split (text : String) : List Part := joinChars (scan reference? text.toList)

/-- The arguments that parts refer to, in order. -/
def argIndices : List Part → List Nat
  | [] => []
  | .text _ :: parts => argIndices parts
  | .arg index :: parts => index :: argIndices parts

end CodePrinter.Template
