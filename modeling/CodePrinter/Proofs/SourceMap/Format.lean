import CodePrinter.Proofs.SourceMap.Reader
import Mathlib.Data.List.Chain
import Mathlib.Data.List.Destutter

/-! What a package that writes version 3 maps is documented to do.

Main statement: the segments that are read from a written map are the mappings that it lists, one
that is equal to the one before it left out (`Written.read?_eq`). -/
namespace CodePrinter

/-- One number comes before another, or what decides between equal ones holds. -/
def Earlier (a b : Int) (next : Prop) : Prop := a < b ∨ a = b ∧ next

theorem Earlier.le {a b : Int} {next : Prop} (h : Earlier a b next) : a ≤ b := by
  rcases h with h | ⟨h, -⟩ <;> omega

/-- Names by their code units. Nothing is said of a name and none. -/
inductive NamesInOrder : Option String → Option String → Prop
  | none : NamesInOrder none none
  | same {a b : String} (h : Text.units a = Text.units b) : NamesInOrder (some a) (some b)
  | lt {a b : String} (h : List.Lex (· < ·) (Text.units a) (Text.units b)) :
    NamesInOrder (some a) (some b)

namespace Mapping

/-- Both positions of a mapping are in range, and its source has a name. -/
def Acceptable (source : String) (m : Mapping) : Prop :=
  0 < m.generated.line ∧ 0 ≤ m.generated.column ∧ 0 < m.origin.line ∧ 0 ≤ m.origin.column ∧
    source ≠ ""

instance (source : String) : DecidablePred (Acceptable source) := fun _ =>
  inferInstanceAs (Decidable (_ ∧ _))

/-- The integers of the mapping are within 30 bits. -/
def Small (m : Mapping) : Prop :=
  m.generated.line.natAbs < 0x40000000 ∧ m.generated.column.natAbs < 0x40000000 ∧
    m.origin.line.natAbs < 0x40000000 ∧ m.origin.column.natAbs < 0x40000000

/-- The generated position of a mapping is not after that of another. -/
def InPlace (a b : Mapping) : Prop :=
  Earlier a.generated.line b.generated.line (a.generated.column ≤ b.generated.column)

/-- The order of mappings: by the generated line and column, the line and column of origin, and the
name. All of them have the same source. -/
def Precedes (a b : Mapping) : Prop :=
  Earlier a.generated.line b.generated.line <| Earlier a.generated.column b.generated.column <|
    Earlier a.origin.line b.origin.line <| Earlier a.origin.column b.origin.column <|
      NamesInOrder a.name b.name

/-- No mapping has the positions of another and differs from it in that it has a name. -/
def Untied (ms : List Mapping) : Prop :=
  ∀ a ∈ ms, ∀ b ∈ ms, a.generated = b.generated → a.origin = b.origin →
    a.name.isSome = b.name.isSome

/-- The order in which a map lists its mappings: that in which they were added if the generated
positions never went back, else they are sorted. -/
structure Listed (added listed : List Mapping) : Prop where
  kept : added.IsChain InPlace → listed = added
  perm : listed.Perm added
  sorted : ¬ added.IsChain InPlace → Untied added → listed.Pairwise Precedes

end Mapping

namespace Cursor

/-- The numbers of a segment: each relative to the last one in its place. The second is the index of
the source, which never changes. -/
def numbers (names : List String) (c : Cursor) (m : Mapping) : List Int :=
  [m.generated.column - c.column, 0, m.origin.line - 1 - c.originLine,
    m.origin.column - c.originColumn] ++ (nameIndex? names m).toList.map (· - c.name)

end Cursor

/-- A text lists mappings from a cursor on: a semicolon for each step to a later line, a comma
between two segments on a line. A mapping equal to the one before it has no segment. -/
inductive Encodes (names : List String) :
    (previous : Option Mapping) → Cursor → List Mapping → List Char → Prop
  | nil {previous : Option Mapping} {c : Cursor} : Encodes names previous c [] []
  | newLine {previous : Option Mapping} {c : Cursor} {m : Mapping} {ms : List Mapping} {steps : Nat}
      {word text : List Char} (hline : m.generated.line = c.line + (steps + 1 : Nat))
      (hword : Vlq.Spells ((c.toLine m.generated.line).numbers names m) word)
      (h : Encodes names (some m) (c.advance names m) ms text) :
      Encodes names previous c (m :: ms) (List.replicate (steps + 1) ';' ++ word ++ text)
  | repeated {c : Cursor} {m : Mapping} {ms : List Mapping} {text : List Char}
      (hline : m.generated.line = c.line) (h : Encodes names (some m) c ms text) :
      Encodes names (some m) c (m :: ms) text
  | first {c : Cursor} {m : Mapping} {ms : List Mapping} {word text : List Char}
      (hline : m.generated.line = c.line) (hword : Vlq.Spells (c.numbers names m) word)
      (h : Encodes names (some m) (c.advance names m) ms text) :
      Encodes names none c (m :: ms) (word ++ text)
  | next {previous : Mapping} {c : Cursor} {m : Mapping} {ms : List Mapping}
      {word text : List Char} (hline : m.generated.line = c.line) (hne : previous ≠ m)
      (hword : Vlq.Spells (c.numbers names m) word)
      (h : Encodes names (some m) (c.advance names m) ms text) :
      Encodes names (some previous) c (m :: ms) (',' :: word ++ text)

/-- A map of the mappings that were added to it. Its names are in order of their first use. -/
structure Written (source : String) (added : List Mapping) (map : Json) : Prop where
  sources : (map.field? "sources").bind Json.texts? = some (if added = [] then [] else [source])
  names : (map.field? "names").bind Json.texts? = some (added.filterMap (·.name)).eraseDups
  mappings : ∃ listed text, Mapping.Listed added listed ∧
    Encodes (added.filterMap (·.name)).eraseDups none {} listed text ∧
    (map.field? "mappings").bind Json.text? = some (String.ofList text)

namespace MapPackage

variable {σ : Type}

/-- What the package knows after mappings of a source were added, one after the other. -/
def after (package : MapPackage σ) (file source : String) (calls : List Mapping) : σ :=
  calls.foldl (fun state m => (package.add source m state).1) (package.create file)

/-- A package that writes version 3 maps, as its documentation has it. Numbers are written in 32
bits with a sign, so nothing is said of maps with larger ones. -/
structure Documented (package : MapPackage σ) : Prop where
  accepts : ∀ source m state, m.Acceptable source → (package.add source m state).2 = none
  refuses : ∀ source m state, ¬ m.Acceptable source →
    package.add source m state = (state, some (.fault (.invalidMapping source m)))
  writes : ∀ (file source : String) (calls : List Mapping), (∀ m ∈ calls, m.Small) →
    let added := calls.filter (Mapping.Acceptable source ·)
    (added.filterMap (·.name)).eraseDups.length ≤ 0x80000000 →
    Written source added (package.json (package.after file source calls))

end MapPackage

variable {source : String} {names : List String} {c : Cursor} {m : Mapping} {ms : List Mapping}
  {text word : List Char}

/-- What a reader has summed up when the writer has come to a cursor. -/
def Cursor.totals (c : Cursor) : Totals :=
  { column := c.column
    originLine := c.originLine
    originColumn := c.originColumn
    name := c.name }

theorem textAt?_idxOf {name : String} (h : name ∈ names) :
    textAt? names (names.idxOf name : Int) = some name := by
  have hlt := List.idxOf_lt_length_of_mem h
  simp [textAt?, List.getElem?_eq_getElem hlt]

/-- The numbers of a segment say what the mapping says. -/
theorem Totals.segment?_numbers (c : Cursor) (hm : ∀ name ∈ m.name, name ∈ names) :
    c.totals.segment? [source] names m.generated.line (c.numbers names m) =
      some (m.toSegment source, (c.advance names m).totals) := by
  have hsource : textAt? [source] 0 = some source := rfl
  have hsum (a b : Int) : a + (b - a) = b := by omega
  cases hname : m.name with
  | none =>
    simp [Cursor.numbers, Cursor.nameIndex?, Cursor.totals, Cursor.advance, segment?, plus,
      generated, origin, hname, hsource, hsum, Mapping.toSegment]
  | some name =>
    have hindex := textAt?_idxOf (hm name hname)
    simp [Cursor.numbers, Cursor.nameIndex?, Cursor.totals, Cursor.advance, segment?, plus,
      generated, origin, hname, hsource, hsum, hindex, Mapping.toSegment]

/-- A segment is read back, and leaves the reader where the writer is. -/
theorem Totals.rest?_mapping (source : String) (hm : ∀ name ∈ m.name, name ∈ names)
    (hword : Vlq.Spells (c.numbers names m) word) (htext : SegmentEnds text) :
    c.totals.rest? [source] names m.generated.line (word ++ text) =
      ((c.advance names m).totals.rest? [source] names m.generated.line text).map
        (m.toSegment source :: ·) := by
  obtain ⟨hcomma, hsemicolon⟩ := hword.notMem
  exact rest?_segment hword.ne_nil hcomma hsemicolon htext (Vlq.numbers?_of_spells hword)
    (segment?_numbers c hm)

theorem Totals.rest?_replicate (k : Nat) (line : Int) (t : Totals) (text : List Char) :
    t.rest? [source] names line (List.replicate (k + 1) ';' ++ text) =
      ({ t with column := 0 } : Totals).rest? [source] names (line + (k + 1 : Nat)) text := by
  induction k generalizing line t with
  | zero => exact rest?_semicolon line t text
  | succ k ih =>
    rw [List.replicate_succ, List.cons_append, rest?_semicolon, ih]
    congr 1
    omega

/-- A mapping equal to the one before it is left out. -/
def dropRepeats : (previous : Option Mapping) → List Mapping → List Mapping
  | _, [] => []
  | previous, m :: ms =>
    if previous = some m then dropRepeats (some m) ms else m :: dropRepeats (some m) ms

theorem cons_dropRepeats (m : Mapping) (ms : List Mapping) :
    m :: dropRepeats (some m) ms = ms.destutter' (· ≠ ·) m := by
  induction ms generalizing m with
  | nil => rfl
  | cons n ms ih =>
    rw [dropRepeats, List.destutter'_cons]
    by_cases h : m = n
    · simp [h, ih]
    · simp [h, ih]

theorem dropRepeats_none (ms : List Mapping) : dropRepeats none ms = ms.destutter (· ≠ ·) := by
  cases ms with
  | nil => rfl
  | cons m ms => exact cons_dropRepeats m ms

namespace Encodes

variable {previous : Option Mapping}

/-- After a mapping no segment begins without a comma or a semicolon before it. -/
theorem segmentEnds {p : Mapping} (h : Encodes names (some p) c ms text) : SegmentEnds text := by
  generalize hp : some p = previous at h
  induction h generalizing p with
  | nil => simp [SegmentEnds]
  | newLine => simp [List.replicate_succ, SegmentEnds]
  | repeated _ _ ih => exact ih rfl
  | first => cases hp
  | next => simp [SegmentEnds]

/-- The mappings of a text are read back, from any of them on. -/
theorem rest?_eq (h : Encodes names previous c ms text)
    (hprevious : ∀ p ∈ previous, p.generated.line = c.line)
    (hms : ∀ m ∈ ms, ∀ name ∈ m.name, name ∈ names) :
    c.totals.rest? [source] names c.line text =
      some ((dropRepeats previous ms).map (Mapping.toSegment source)) := by
  induction h with
  | nil => rfl
  | @newLine previous c m ms steps word text hline hword h ih =>
    rw [List.forall_mem_cons] at hms
    have hnew : previous ≠ some m := by
      intro he
      have := hprevious m he
      omega
    have hmapping := Totals.rest?_mapping source hms.1 hword h.segmentEnds
    have hnext := ih (by simp [Cursor.advance]) hms.2
    rw [List.append_assoc, Totals.rest?_replicate, ← hline, dropRepeats, if_neg hnew]
    exact hmapping.trans (congrArg (Option.map _) hnext)
  | repeated hline h ih =>
    rw [List.forall_mem_cons] at hms
    rw [dropRepeats, if_pos rfl]
    exact ih (by simp [hline]) hms.2
  | first hline hword h ih =>
    rw [List.forall_mem_cons] at hms
    have hmapping := Totals.rest?_mapping source hms.1 hword h.segmentEnds
    have hnext := ih (by simp [Cursor.advance]) hms.2
    rw [← hline, dropRepeats, if_neg nofun]
    exact hmapping.trans (congrArg (Option.map _) hnext)
  | next hline hne hword h ih =>
    rw [List.forall_mem_cons] at hms
    have hmapping := Totals.rest?_mapping source hms.1 hword h.segmentEnds
    have hnext := ih (by simp [Cursor.advance]) hms.2
    rw [List.cons_append, Totals.rest?_comma, ← hline, dropRepeats,
      if_neg fun he => hne (Option.some.inj he)]
    exact hmapping.trans (congrArg (Option.map _) hnext)

end Encodes

theorem Version3.read?_eq {map : Json} {sources : List String} {mappings : String}
    (hs : (map.field? "sources").bind Json.texts? = some sources)
    (hn : (map.field? "names").bind Json.texts? = some names)
    (hm : (map.field? "mappings").bind Json.text? = some mappings) :
    read? map = ({} : Totals).rest? sources names 1 mappings.toList := by
  have hlines : ({} : Totals).lines? sources names 1 (mappings.toList.splitOn ';') =
      ({} : Totals).rest? sources names 1 mappings.toList :=
    Totals.lines?_splitOn 1 {} mappings.toList
  simp only [read?, Option.bind_eq_bind, ← Option.bind_assoc, hs, hn, hm, Option.bind_some, hlines]

/-- A written map is read back. -/
theorem Written.read?_eq {added : List Mapping} {map : Json} (h : Written source added map) :
    ∃ listed, Mapping.Listed added listed ∧
      Version3.read? map = some ((listed.destutter (· ≠ ·)).map (Mapping.toSegment source)) := by
  obtain ⟨listed, text, hlisted, hencodes, htext⟩ := h.mappings
  refine ⟨listed, hlisted, ?_⟩
  rw [Version3.read?_eq h.sources h.names htext, String.toList_ofList, ← dropRepeats_none]
  by_cases hempty : added = []
  · subst hempty
    obtain rfl := List.perm_nil.mp hlisted.perm
    cases hencodes
    rfl
  · have hnames : ∀ m ∈ listed, ∀ name ∈ m.name,
        name ∈ (added.filterMap (·.name)).eraseDups := by
      intro m hm name hname
      rw [List.mem_eraseDups]
      exact List.mem_filterMap.mpr ⟨m, hlisted.perm.mem_iff.mp hm, hname⟩
    rw [if_neg hempty]
    exact hencodes.rest?_eq (by simp) hnames

end CodePrinter
