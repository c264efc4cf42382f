import CodePrinter.SourceMap.Version3

/-! A reader of version 3 maps.

The text of a map has a line for each generated line, with semicolons between them, and on it
segments with commas between. A segment is a run of numbers, each relative to the last one in its
place: the generated column, the index of the source, the line and the column of origin, and the
index of the name. A segment may stop after the column, or before the name. The column starts again
at 0 on every line, and the other numbers never do.

Main statements: numbers are read from their digits (`numbers?_of_spells`), and a segment from its
numbers, whatever comes after it (`rest?_segment`). -/
namespace CodePrinter

namespace Vlq

/-- The value of a Base64 digit. -/
def digit? (c : Char) : Option Nat := alphabet.idxOf? c

/-- The number of a word: its lowest bit is the sign. -/
def signed (w : Nat) : Int := if w % 2 = 0 then (w / 2 : Nat) else -(w / 2 : Nat)

/-- The numbers of a text, after the lower digits of the first of them were read. The next digit has
weight `weight`, which is 1 between two numbers. -/
def numbersFrom (lower weight : Nat) : List Char → Option (List Int)
  | [] => if weight = 1 then some [] else none
  | c :: cs => do
    let digit ← digit? c
    if digit < 32 then
      return signed (lower + weight * digit) :: (← numbersFrom 0 1 cs)
    else numbersFrom (lower + weight * (digit - 32)) (weight * 32) cs

/-- The numbers of a text, which ends with the last of them. -/
def numbers? (cs : List Char) : Option (List Int) := numbersFrom 0 1 cs

end Vlq

/-- The place that a generated position comes from. -/
structure Origin where
  source : String
  position : Position
  name : Option String
  deriving DecidableEq

/-- What a segment of a map says. -/
structure Segment where
  generated : Position
  origin : Option Origin
  deriving DecidableEq

/-- The mapping as a segment of a map of a source. -/
def Mapping.toSegment (source : String) (m : Mapping) : Segment :=
  { generated := m.generated
    origin := some { source, position := m.origin, name := m.name } }

/-- The last number in each place of a segment. Lines of origin count from 0 here. -/
structure Totals where
  column : Int := 0
  source : Int := 0
  originLine : Int := 0
  originColumn : Int := 0
  name : Int := 0
  deriving DecidableEq

/-- The text at an index. -/
def textAt? (texts : List String) (index : Int) : Option String :=
  if 0 ≤ index then texts[index.toNat]? else none

namespace Totals

/-- The totals after numbers relative to them. -/
def plus (t : Totals) (column source originLine originColumn name : Int) : Totals :=
  { column := t.column + column
    source := t.source + source
    originLine := t.originLine + originLine
    originColumn := t.originColumn + originColumn
    name := t.name + name }

def generated (line : Int) (t : Totals) : Position := { line, column := t.column }

def origin (source : String) (name : Option String) (t : Totals) : Origin :=
  { source, position := { line := t.originLine + 1, column := t.originColumn }, name }

/-- The segment with some numbers, and the totals after it. -/
def segment? (sources names : List String) (line : Int) (t : Totals) :
    List Int → Option (Segment × Totals)
  | [column] =>
    let t := t.plus column 0 0 0 0
    some ({ generated := t.generated line, origin := none }, t)
  | [column, source, originLine, originColumn] => do
    let t := t.plus column source originLine originColumn 0
    let source ← textAt? sources t.source
    return ({ generated := t.generated line, origin := some (t.origin source none) }, t)
  | [column, source, originLine, originColumn, name] => do
    let t := t.plus column source originLine originColumn name
    let source ← textAt? sources t.source
    let name ← textAt? names t.name
    return ({ generated := t.generated line, origin := some (t.origin source (some name)) }, t)
  | _ => none

/-- The segments of a line, and the totals after them. An empty segment says nothing. -/
def segments? (sources names : List String) (line : Int) (t : Totals) :
    List (List Char) → Option (List Segment × Totals)
  | [] => some ([], t)
  | [] :: texts => segments? sources names line t texts
  | text :: texts => do
    let (segment, t) ← t.segment? sources names line (← Vlq.numbers? text)
    let (segments, t) ← t.segments? sources names line texts
    return (segment :: segments, t)

/-- The segments of the lines from a line on. -/
def lines? (sources names : List String) (line : Int) (t : Totals) :
    List (List Char) → Option (List Segment)
  | [] => some []
  | text :: texts => do
    let t := { t with column := 0 }
    let (segments, t) ← t.segments? sources names line (text.splitOn ',')
    return segments ++ (← t.lines? sources names (line + 1) texts)

end Totals

namespace Json

def field? (key : String) : Json → Option Json
  | .object fields => fields.lookup key
  | _ => none

def text? : Json → Option String
  | .string value => some value
  | _ => none

def texts? : Json → Option (List String)
  | .array items => items.mapM text?
  | _ => none

end Json

/-- The segments of a version 3 map. -/
def Version3.read? (map : Json) : Option (List Segment) := do
  let sources ← (← map.field? "sources").texts?
  let names ← (← map.field? "names").texts?
  let mappings ← (← map.field? "mappings").text?
  Totals.lines? sources names 1 {} (mappings.toList.splitOn ';')

namespace Vlq

/-- A number in base 32, the lowest digit first, as Base64 digits. All but the last are marked by
the sixth bit. -/
inductive Digits : Nat → List Char → Prop
  | last {d : Nat} {c : Char} (hd : d < 32) (hc : alphabet[d]? = some c) : Digits d [c]
  | more {d w : Nat} {c : Char} {text : List Char} (hd : d < 32)
      (hc : alphabet[d + 32]? = some c) (h : Digits w text) : Digits (d + 32 * w) (c :: text)

/-- Numbers one after the other, each with its sign in the lowest bit. -/
inductive Spells : List Int → List Char → Prop
  | nil : Spells [] []
  | cons {n : Int} {ns : List Int} {word text : List Char}
      (hn : Digits (2 * n.natAbs + if n < 0 then 1 else 0) word) (h : Spells ns text) :
      Spells (n :: ns) (word ++ text)

variable {w : Nat} {text : List Char} {ns : List Int}

theorem digit?_of_getElem? {d : Nat} {c : Char} (h : alphabet[d]? = some c) :
    digit? c = some d := by
  have hall : ∀ d < alphabet.length, digit? (alphabet.getD d 'A') = some d := by decide
  have hd := hall d (List.getElem?_eq_some_iff.mp h).1
  rwa [List.getD_eq_getElem?_getD, h, Option.getD_some] at hd

theorem ne_of_getElem? {d : Nat} {c : Char} (h : alphabet[d]? = some c) :
    ',' ≠ c ∧ ';' ≠ c := by
  have hcomma : ',' ∉ alphabet := by decide
  have hsemicolon : ';' ∉ alphabet := by decide
  have hmem := List.mem_of_getElem? h
  constructor
  · rintro rfl
    exact hcomma hmem
  · rintro rfl
    exact hsemicolon hmem

/-- The digits of a number are not mistaken for what stands between segments and lines. -/
theorem Digits.notMem (h : Digits w text) : text ≠ [] ∧ ',' ∉ text ∧ ';' ∉ text := by
  induction h with
  | last hd hc => simp [ne_of_getElem? hc]
  | more hd hc h ih => simp [ne_of_getElem? hc, ih.2.1, ih.2.2]

theorem Spells.notMem (h : Spells ns text) : ',' ∉ text ∧ ';' ∉ text := by
  induction h with
  | nil => simp
  | cons hn h ih =>
    obtain ⟨-, hcomma, hsemicolon⟩ := hn.notMem
    simp [hcomma, hsemicolon, ih.1, ih.2]

theorem Spells.ne_nil {n : Int} (h : Spells (n :: ns) text) : text ≠ [] := by
  cases h with
  | cons hn h => simp [hn.notMem.1]

/-- Digits are read back as one number, whatever follows them. -/
theorem numbersFrom_digits (h : Digits w text) (lower weight : Nat) (cs : List Char) :
    numbersFrom lower weight (text ++ cs) =
      (numbersFrom 0 1 cs).map (signed (lower + weight * w) :: ·) := by
  induction h generalizing lower weight with
  | last hd hc =>
    simp only [List.cons_append, List.nil_append, numbersFrom, digit?_of_getElem? hc,
      Option.bind_eq_bind, Option.bind_some, hd, if_true]
    cases numbersFrom 0 1 cs <;> rfl
  | @more d w c text hd hc h ih =>
    have hdigit : ¬ d + 32 < 32 := by omega
    have hvalue : lower + weight * d + weight * 32 * w = lower + weight * (d + 32 * w) := by
      rw [Nat.add_assoc, Nat.mul_assoc, ← Nat.mul_add]
    simp only [List.cons_append, numbersFrom, digit?_of_getElem? hc, Option.bind_eq_bind,
      Option.bind_some, hdigit, if_false, Nat.add_sub_cancel, ih, hvalue]

theorem signed_eq (n : Int) : signed (2 * n.natAbs + if n < 0 then 1 else 0) = n := by
  unfold signed
  split <;> split <;> omega

theorem numbers?_of_spells (h : Spells ns text) : numbers? text = some ns := by
  unfold numbers?
  induction h with
  | nil => rfl
  | cons hn h ih =>
    rw [numbersFrom_digits hn, ih, Nat.zero_add, Nat.one_mul, signed_eq]
    rfl

end Vlq

theorem splitOn_append {a : Char} {ys first : List Char} {rest : List (List Char)} (xs : List Char)
    (h : a ∉ xs) (hs : ys.splitOn a = first :: rest) :
    (xs ++ ys).splitOn a = (xs ++ first) :: rest := by
  induction xs with
  | nil => exact hs
  | cons x xs ih =>
    have hx : (x == a) = false := beq_eq_false_iff_ne.mpr fun he => h (by simp [he])
    rw [List.cons_append, List.splitOn_cons_eq_if_modifyHead, hx,
      ih fun hm => h (List.mem_cons_of_mem x hm)]
    rfl

/-- A text that does not go on with a segment. -/
def SegmentEnds (text : List Char) : Prop := ∀ c ∈ text.head?, c = ',' ∨ c = ';'

theorem SegmentEnds.splitOn {text : List Char} (h : SegmentEnds text) :
    ∃ first lines segments, text.splitOn ';' = first :: lines ∧
      first.splitOn ',' = [] :: segments := by
  cases text with
  | nil => exact ⟨[], [], [], rfl, rfl⟩
  | cons c text =>
    rcases h c rfl with rfl | rfl
    · obtain ⟨first, lines, hs⟩ := List.exists_cons_of_ne_nil (List.splitOn_ne_nil ';' text)
      exact ⟨',' :: first, lines, first.splitOn ',', splitOn_append [','] (by decide) hs,
        List.splitOn_append_cons_self_of_not_mem List.not_mem_nil first⟩
    · exact ⟨[], text.splitOn ';', [],
        List.splitOn_append_cons_self_of_not_mem List.not_mem_nil text, rfl⟩

namespace Totals

variable {sources names : List String} {line : Int} {t t' : Totals} {text : List Char}

/-- The segments of a text that begins in the middle of a line. -/
def rest? (sources names : List String) (line : Int) (t : Totals) (text : List Char) :
    Option (List Segment) :=
  match text.splitOn ';' with
  | [] => none
  | first :: texts => do
    let (segments, t) ← t.segments? sources names line (first.splitOn ',')
    return segments ++ (← t.lines? sources names (line + 1) texts)

theorem lines?_splitOn (line : Int) (t : Totals) (text : List Char) :
    t.lines? sources names line (text.splitOn ';') =
      ({ t with column := 0 } : Totals).rest? sources names line text := by
  obtain ⟨first, texts, hs⟩ := List.exists_cons_of_ne_nil (List.splitOn_ne_nil ';' text)
  simp only [rest?, hs, lines?]

theorem rest?_semicolon (line : Int) (t : Totals) (text : List Char) :
    t.rest? sources names line (';' :: text) =
      ({ t with column := 0 } : Totals).rest? sources names (line + 1) text := by
  have hs : (';' :: text).splitOn ';' = [] :: text.splitOn ';' :=
    List.splitOn_append_cons_self_of_not_mem List.not_mem_nil text
  rw [← lines?_splitOn, rest?, hs]
  simp [segments?]

theorem rest?_comma (line : Int) (t : Totals) (text : List Char) :
    t.rest? sources names line (',' :: text) = t.rest? sources names line text := by
  obtain ⟨first, texts, hs⟩ := List.exists_cons_of_ne_nil (List.splitOn_ne_nil ';' text)
  have hlines : (',' :: text).splitOn ';' = (',' :: first) :: texts :=
    splitOn_append [','] (by decide) hs
  have hsegments : (',' :: first).splitOn ',' = [] :: first.splitOn ',' :=
    List.splitOn_append_cons_self_of_not_mem List.not_mem_nil first
  simp only [rest?, hs, hlines, hsegments, segments?]

theorem rest?_segment {word : List Char} {numbers : List Int} {segment : Segment}
    (hword : word ≠ []) (hcomma : ',' ∉ word) (hsemicolon : ';' ∉ word) (htext : SegmentEnds text)
    (hnumbers : Vlq.numbers? word = some numbers)
    (hsegment : t.segment? sources names line numbers = some (segment, t')) :
    t.rest? sources names line (word ++ text) =
      (t'.rest? sources names line text).map (segment :: ·) := by
  obtain ⟨first, lines, segments, hlines, hsegments⟩ := htext.splitOn
  have hword' : t.segments? sources names line (word :: segments) =
      (t'.segments? sources names line segments).map fun (rest, t) => (segment :: rest, t) := by
    obtain ⟨c, cs, rfl⟩ := List.exists_cons_of_ne_nil hword
    simp only [segments?, hnumbers, hsegment, Option.bind_eq_bind, Option.bind_some]
    cases t'.segments? sources names line segments <;> rfl
  have hempty : t'.segments? sources names line ([] :: segments) =
      t'.segments? sources names line segments := rfl
  simp only [rest?, hlines, splitOn_append word hsemicolon hlines, hsegments,
    splitOn_append word hcomma hsegments, List.append_nil, hword', hempty]
  cases t'.segments? sources names line segments with
  | none => rfl
  | some result =>
    simp only [Option.map_some, Option.bind_eq_bind, Option.bind_some]
    cases lines? sources names (line + 1) result.2 lines <;> rfl

end Totals

end CodePrinter
