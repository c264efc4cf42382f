import CodePrinter.Text.Units

/-! The order of file names in a listing: letter by letter without regard to case, and lower case
before upper case where nothing else differs. -/
namespace CodePrinter.Text

/-- Punctuation in its order of collation, before digits and letters. -/
def punctuationOrder : List Char := "_-,;:!?.'\"()[]\x7b\x7d@*/\\&#%\x60^+<=>|~$".toList

/-- The place of a character in the order of collation, the same for both cases of a letter. -/
def collationRank (c : Char) : Nat :=
  match punctuationOrder.findIdx? (· = c) with
  | some i => i
  | none => punctuationOrder.length + c.toLower.toNat

/-- Lower case comes first. -/
def caseRank (c : Char) : Nat := if c.isUpper then 1 else 0

/-- The order of two file names. -/
def collate (s t : String) : Ordering :=
  (compareLists (s.toList.map collationRank) (t.toList.map collationRank)).then
    (compareLists (s.toList.map caseRank) (t.toList.map caseRank))

end CodePrinter.Text
