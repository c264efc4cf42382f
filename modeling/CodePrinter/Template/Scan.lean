/-! Reading a text from left to right for the places where a pattern stands. -/
namespace CodePrinter.Template

variable {α : Type}

/-- A piece of a text that was read for a pattern. -/
inductive Token (α : Type) where
  | char (c : Char)
  | hit (value : α)

/-- Reads a text from left to right, past the `skip` characters that belong to the last hit. -/
def scanFrom (read : List Char → Option (α × List Char)) : (skip : Nat) → List Char → List (Token α)
  | _, [] => []
  | skip + 1, _ :: cs => scanFrom read skip cs
  | 0, c :: cs =>
    match read (c :: cs) with
    | some (value, rest) => .hit value :: scanFrom read (cs.length - rest.length) cs
    | none => .char c :: scanFrom read 0 cs

/-- The hits of a pattern in a text and the characters between them. A pattern is a function that
reads an occurrence at the start of a text and returns what follows it. -/
def scan (read : List Char → Option (α × List Char)) (cs : List Char) : List (Token α) :=
  scanFrom read 0 cs

/-- The values of the hits. -/
def hits : List (Token α) → List α
  | [] => []
  | .char _ :: ts => hits ts
  | .hit value :: ts => value :: hits ts

/-- The text with every hit replaced. -/
def replace (f : α → List Char) : List (Token α) → List Char
  | [] => []
  | .char c :: ts => c :: replace f ts
  | .hit value :: ts => f value ++ replace f ts

theorem scanFrom_append (read : List Char → Option (α × List Char)) (cs rest : List Char) :
    scanFrom read cs.length (cs ++ rest) = scan read rest := by
  induction cs with
  | nil => rfl
  | cons c cs ih => exact ih

theorem scan_nil (read : List Char → Option (α × List Char)) : scan read [] = [] := rfl

theorem scan_hit (read : List Char → Option (α × List Char)) {c : Char} {cs rest : List Char}
    {value : α} (h : read (c :: (cs ++ rest)) = some (value, rest)) :
    scan read (c :: (cs ++ rest)) = .hit value :: scan read rest := by
  simp only [scan, scanFrom, h, List.length_append, Nat.add_sub_cancel]
  rw [scanFrom_append, scan]

theorem scan_char (read : List Char → Option (α × List Char)) {c : Char} {cs : List Char}
    (h : read (c :: cs) = none) : scan read (c :: cs) = .char c :: scan read cs := by
  simp [scan, scanFrom, h]

end CodePrinter.Template
