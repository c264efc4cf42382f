/-! UTF-16 code units, in which columns and sizes of text are counted. -/
namespace CodePrinter.Text

/-- A character beyond the basic plane takes a surrogate pair. -/
def codeUnits (c : Char) : List Nat :=
  if c.toNat < 0x10000 then [c.toNat]
  else [0xD800 + (c.toNat - 0x10000) / 0x400, 0xDC00 + (c.toNat - 0x10000) % 0x400]

/-- The code units of a text, in order. -/
def units (s : String) : List Nat := s.toList.flatMap codeUnits

/-- The number of code units of a text. -/
def width (s : String) : Nat := (units s).length

@[simp] theorem units_empty : units "" = [] := by simp [units]

@[simp] theorem units_append (s t : String) : units (s ++ t) = units s ++ units t := by
  simp [units]

@[simp] theorem width_empty : width "" = 0 := by simp [width]

@[simp] theorem width_append (s t : String) : width (s ++ t) = width s + width t := by
  simp [width]

theorem codeUnits_ne_nil (c : Char) : codeUnits c ≠ [] := by
  unfold codeUnits
  split <;> simp

theorem width_eq_zero {s : String} : width s = 0 ↔ s = "" := by
  constructor
  · intro h
    have hs : s.toList = [] := by
      cases hl : s.toList with
      | nil => rfl
      | cons c cs => simp [width, units, hl, codeUnits_ne_nil] at h
    exact String.toList_inj.1 (by simp [hs])
  · rintro rfl
    simp

/-- Lexicographic order of two lists of code units; a proper beginning comes first. -/
def compareLists : List Nat → List Nat → Ordering
  | [], [] => .eq
  | [], _ :: _ => .lt
  | _ :: _, [] => .gt
  | a :: as, b :: bs => (compare a b).then (compareLists as bs)

/-- The order of texts by code units. -/
def compareUnits (s t : String) : Ordering := compareLists (units s) (units t)

end CodePrinter.Text
