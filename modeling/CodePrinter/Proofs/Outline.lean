import CodePrinter.Proofs.Locations

/-! Outlines: lines with suites of lines below them.

Main statement: below every header of the lines of an outline there is a line of text one unit
deeper, exactly if every suite of the outline has one (`Outline.suited_render`). -/
namespace CodePrinter

open Text

namespace Text

def indentOf (line : List Char) : List Char := line.takeWhile isIndent

/-- A header ends with a colon. -/
def isHeader (line : List Char) : Bool := line.getLast? = some ':'

/-- After a header, and before any line that is not deeper than it, comes a line that is not blank
and one unit deeper. -/
def Opened (unit : String) (header : List Char) (after : List (List Char)) : Prop :=
  ∃ skipped line rest, after = skipped ++ line :: rest ∧
    (∀ l ∈ skipped, (indentOf header).length < (indentOf l).length) ∧
    line.all isIndent = false ∧ indentOf line = indentOf header ++ unit.toList

/-- No header is without a line of text below it. -/
def Suited (unit : String) (lines : List (List Char)) : Prop :=
  ∀ before header after, lines = before ++ header :: after → isHeader header = true →
    Opened unit header after

/-- Lines of which the first one, if there is one, is indented by a number of characters at most. -/
def Shallow (width : Nat) (lines : List (List Char)) : Prop :=
  ∀ l ∈ lines.head?, (indentOf l).length ≤ width

variable {unit : String} {header line : List Char} {lines : List (List Char)} {width : Nat}

theorem suited_nil : Suited unit [] := by
  intro before header after h
  simp at h

theorem suited_cons : Suited unit (line :: lines) ↔
    (isHeader line = true → Opened unit line lines) ∧ Suited unit lines := by
  constructor
  · intro h
    refine ⟨h [] line lines rfl, ?_⟩
    intro before header after hl
    exact h (line :: before) header after (by rw [hl, List.cons_append])
  · rintro ⟨hfirst, hrest⟩ before header after hl
    rcases before with _ | ⟨first, before⟩
    · obtain ⟨rfl, rfl⟩ := List.cons.inj hl
      exact hfirst
    · obtain ⟨-, rfl⟩ := List.cons.inj hl
      exact hrest before header after rfl

theorem suited_cons_of_not_header (h : isHeader line = false) :
    Suited unit (line :: lines) ↔ Suited unit lines := by
  simp [suited_cons, h]

/-- Below a header comes a line of its suite, or a deeper line that does not count. -/
theorem opened_cons : Opened unit header (line :: lines) ↔
    (line.all isIndent = false ∧ indentOf line = indentOf header ++ unit.toList) ∨
    ((indentOf header).length < (indentOf line).length ∧ Opened unit header lines) := by
  constructor
  · rintro ⟨skipped, text, rest, hl, hskipped, htext, hindent⟩
    rcases skipped with _ | ⟨first, skipped⟩
    · obtain ⟨rfl, rfl⟩ := List.cons.inj hl
      exact .inl ⟨htext, hindent⟩
    · obtain ⟨rfl, rfl⟩ := List.cons.inj hl
      refine .inr ⟨hskipped line List.mem_cons_self, skipped, text, rest, rfl, ?_, htext, hindent⟩
      exact fun l hm => hskipped l (List.mem_cons_of_mem line hm)
  · rintro (⟨htext, hindent⟩ | ⟨hdeep, skipped, text, rest, rfl, hskipped, htext, hindent⟩)
    · exact ⟨[], line, lines, rfl, by simp, htext, hindent⟩
    · refine ⟨line :: skipped, text, rest, rfl, ?_, htext, hindent⟩
      intro l hm
      rcases List.mem_cons.mp hm with rfl | hm
      · exact hdeep
      · exact hskipped l hm

/-- A header is not opened by what comes after its suite. -/
theorem not_opened_of_shallow (hu : unit ≠ "") (hs : Shallow (indentOf header).length lines) :
    ¬ Opened unit header lines := by
  have hpos : 0 < unit.toList.length := by
    simpa [List.length_pos_iff, String.toList_eq_nil_iff] using hu
  cases lines with
  | nil =>
    rintro ⟨skipped, text, rest, hl, -⟩
    simp at hl
  | cons line lines =>
    have hle := hs line (by simp)
    rw [opened_cons]
    rintro (⟨-, hindent⟩ | ⟨hdeep, -⟩)
    · rw [hindent, List.length_append] at hle
      omega
    · omega

theorem Shallow.mono {more : Nat} (h : Shallow width lines) (hw : width ≤ more) :
    Shallow more lines :=
  fun l hl => Nat.le_trans (h l hl) hw

theorem shallow_empty (width : Nat) (lines : List (List Char)) : Shallow width ([] :: lines) := by
  intro l hl
  obtain rfl : [] = l := by simpa using hl
  simp [indentOf]

end Text

/-- Texts on lines, and headers with suites of lines one unit deeper. -/
inductive Outline where
  | done
  /-- A line with nothing on it but its indentation, if that is something. -/
  | gap (rest : Outline)
  | row (text : List Char) (rest : Outline)
  /-- A header and its suite, with an empty line at the end of it if it is closed. -/
  | suite (header : List Char) (body : Outline) (closed : Bool) (rest : Outline)

namespace Outline

/-- The indentation at a depth. -/
def margin (unit : String) (depth : Nat) : List Char := (Page.indentation unit depth).toList

def lines (unit : String) : Outline → Nat → List (List Char)
  | .done, _ => []
  | .gap rest, depth => (if depth = 0 then [] else [margin unit depth]) ++ rest.lines unit depth
  | .row text rest, depth => (margin unit depth ++ text) :: rest.lines unit depth
  | .suite header body closed rest, depth =>
    (margin unit depth ++ header) :: (body.lines unit (depth + 1) ++
      ((if closed then [[]] else []) ++ rest.lines unit depth))

/-- There is a line that is not a gap. -/
def opens : Outline → Bool
  | .done => false
  | .gap rest => rest.opens
  | .row _ _ => true
  | .suite _ _ _ _ => true

/-- Every suite has a line that is not a gap. -/
def isFilled : Outline → Bool
  | .done => true
  | .gap rest => rest.isFilled
  | .row _ rest => rest.isFilled
  | .suite _ body _ rest => body.opens && body.isFilled && rest.isFilled

/-- What stands on one line, from its first character on. -/
structure IsText (text : List Char) : Prop where
  oneLine : '\n' ∉ text
  begins : ∃ c cs, text = c :: cs ∧ isIndent c = false

/-- Headers, and nothing else, end with a colon. -/
def WellFormed : Outline → Prop
  | .done => True
  | .gap rest => rest.WellFormed
  | .row text rest => IsText text ∧ isHeader text = false ∧ rest.WellFormed
  | .suite header body _ rest =>
    IsText header ∧ isHeader header = true ∧ body.WellFormed ∧ rest.WellFormed

variable {unit : String} {depth : Nat} {text : List Char} {o : Outline} {tail : List (List Char)}

theorem margin_zero (unit : String) : margin unit 0 = [] := by simp [margin, Page.indentation]

theorem margin_succ (unit : String) (depth : Nat) :
    margin unit (depth + 1) = margin unit depth ++ unit.toList := by
  simp [margin, Page.indentation, String.toList_join, List.replicate_succ']

theorem indentation_ne_empty (hne : unit ≠ "") (hd : depth ≠ 0) :
    Page.indentation unit depth ≠ "" := by
  obtain ⟨depth, rfl⟩ := Nat.exists_eq_succ_of_ne_zero hd
  intro h
  have hmargin := margin_succ unit depth
  rw [margin, h] at hmargin
  simp_all

theorem isIndent_margin (hu : Page.BlankUnit unit) (depth : Nat) :
    ∀ c ∈ margin unit depth, isIndent c = true := by
  induction depth with
  | zero => simp [margin_zero]
  | succ depth ih =>
    intro c hc
    rw [margin_succ] at hc
    rcases List.mem_append.mp hc with hc | hc
    · exact ih c hc
    · exact hu c hc

theorem indentOf_margin (hu : Page.BlankUnit unit) (depth : Nat) :
    indentOf (margin unit depth) = margin unit depth :=
  List.takeWhile_eq_self_iff.mpr (isIndent_margin hu depth)

theorem indentOf_text (hu : Page.BlankUnit unit) (ht : IsText text) (depth : Nat) :
    indentOf (margin unit depth ++ text) = margin unit depth := by
  obtain ⟨c, cs, rfl, hc⟩ := ht.begins
  rw [indentOf, List.takeWhile_append_of_pos (isIndent_margin hu depth),
    List.takeWhile_cons_of_neg (by simp [hc]), List.append_nil]

theorem isHeader_text (ht : IsText text) (unit : String) (depth : Nat) :
    isHeader (margin unit depth ++ text) = isHeader text := by
  obtain ⟨c, cs, rfl, -⟩ := ht.begins
  simp [isHeader]

theorem isHeader_margin (hu : Page.BlankUnit unit) (depth : Nat) :
    isHeader (margin unit depth) = false := by
  rw [isHeader, decide_eq_false_iff_not]
  intro h
  have := isIndent_margin hu depth _ (List.mem_of_getLast? h)
  contradiction

/-- Lines at a depth come after lines that are deeper. -/
theorem shallow_lines (hu : Page.BlankUnit unit) (ho : o.WellFormed)
    (hs : Shallow (margin unit depth).length tail) :
    Shallow (margin unit depth).length (o.lines unit depth ++ tail) := by
  induction o with
  | done => exact hs
  | gap rest ih =>
    rw [lines]
    split
    · exact ih ho
    · intro l hl
      obtain rfl : margin unit depth = l := by simpa using hl
      rw [indentOf_margin hu]
  | row text rest ih =>
    intro l hl
    obtain rfl : margin unit depth ++ text = l := by simpa [lines] using hl
    rw [indentOf_text hu ho.1]
  | suite header body closed rest ihb ihr =>
    intro l hl
    obtain rfl : margin unit depth ++ header = l := by simpa [lines] using hl
    rw [indentOf_text hu ho.1]

/-- A header is opened by a text one unit deeper. -/
theorem opened_text (hu : Page.BlankUnit unit) {header : List Char} (hh : IsText header)
    (ht : IsText text) (depth : Nat) (after : List (List Char)) :
    Opened unit (margin unit depth ++ header) ((margin unit (depth + 1) ++ text) :: after) := by
  rw [opened_cons]
  refine .inl ⟨?_, ?_⟩
  · obtain ⟨c, cs, rfl, hc⟩ := ht.begins
    simp [hc]
  · rw [indentOf_text hu ht, indentOf_text hu hh, margin_succ]

/-- A header is not opened by a gap. -/
theorem opened_margin (hu : Page.BlankUnit unit) (hne : unit ≠ "") {header : List Char}
    (hh : IsText header) (depth : Nat) (after : List (List Char)) :
    Opened unit (margin unit depth ++ header) (margin unit (depth + 1) :: after) ↔
      Opened unit (margin unit depth ++ header) after := by
  have hpos : 0 < unit.toList.length := by
    simpa [List.length_pos_iff, String.toList_eq_nil_iff] using hne
  have hblank : (margin unit (depth + 1)).all isIndent = true :=
    List.all_eq_true.mpr (isIndent_margin hu (depth + 1))
  rw [opened_cons, indentOf_margin hu, indentOf_text hu hh, hblank, margin_succ, List.length_append]
  constructor
  · rintro (⟨h, -⟩ | ⟨-, h⟩)
    · cases h
    · exact h
  · intro h
    exact .inr ⟨by omega, h⟩

/-- A header is opened by its suite, unless there is nothing in it but gaps. -/
theorem opened_lines (hu : Page.BlankUnit unit) (hne : unit ≠ "") {header : List Char}
    (hh : IsText header) (ho : o.WellFormed) (hs : Shallow (margin unit depth).length tail) :
    Opened unit (margin unit depth ++ header) (o.lines unit (depth + 1) ++ tail) ↔
      o.opens = true := by
  induction o with
  | done =>
    have hnot : ¬ Opened unit (margin unit depth ++ header) tail :=
      not_opened_of_shallow hne (by rwa [indentOf_text hu hh])
    simpa [lines, opens] using hnot
  | gap rest ih =>
    rw [lines, if_neg (by omega), List.singleton_append, List.cons_append, opened_margin hu hne hh]
    exact ih ho
  | row text rest ih =>
    simp only [lines, opens, List.cons_append, iff_true]
    exact opened_text hu hh ho.1 depth _
  | suite text body closed rest ihb ihr =>
    simp only [lines, opens, List.cons_append, iff_true]
    exact opened_text hu hh ho.1 depth _

/-- The lines of an outline, before lines that are not deeper. -/
theorem suited_lines (hu : Page.BlankUnit unit) (hne : unit ≠ "") (ho : o.WellFormed)
    (hs : Shallow (margin unit depth).length tail) :
    Suited unit (o.lines unit depth ++ tail) ↔ o.isFilled = true ∧ Suited unit tail := by
  induction o generalizing depth tail with
  | done => simp [lines, isFilled]
  | gap rest ih =>
    rw [lines, isFilled, List.append_assoc, ← ih ho hs]
    split
    · rfl
    · exact suited_cons_of_not_header (isHeader_margin hu depth)
  | row text rest ih =>
    obtain ⟨htext, hheader, hrest⟩ := ho
    rw [lines, isFilled, ← ih hrest hs]
    exact suited_cons_of_not_header (by rw [isHeader_text htext, hheader])
  | suite header body closed rest ihb ihr =>
    obtain ⟨htext, hheader, hbody, hrest⟩ := ho
    -- What comes after the suite is an empty line, or no deeper than the header.
    let after := (if closed then [[]] else []) ++ (rest.lines unit depth ++ tail)
    have hafter : Shallow (margin unit depth).length after := by
      cases closed with
      | true => exact shallow_empty _ _
      | false => exact shallow_lines hu hrest hs
    have hdeeper : Shallow (margin unit (depth + 1)).length after :=
      hafter.mono (by simp [margin_succ])
    have hclosed : Suited unit after ↔ Suited unit (rest.lines unit depth ++ tail) := by
      cases closed with
      | true => exact suited_cons_of_not_header rfl
      | false => rfl
    have hlines : (suite header body closed rest).lines unit depth ++ tail =
        (margin unit depth ++ header) :: (body.lines unit (depth + 1) ++ after) := by
      simp [lines, after]
    rw [hlines, suited_cons, isHeader_text htext, hheader, opened_lines hu hne htext hbody hafter,
      ihb hbody hdeeper, hclosed, ihr hrest hs, isFilled]
    simp [and_assoc]

/-! Outlines one after the other, and their texts. -/

def append : Outline → Outline → Outline
  | .done, o => o
  | .gap rest, o => .gap (rest.append o)
  | .row text rest, o => .row text (rest.append o)
  | .suite header body closed rest, o => .suite header body closed (rest.append o)

theorem lines_append (a b : Outline) (unit : String) (depth : Nat) :
    (a.append b).lines unit depth = a.lines unit depth ++ b.lines unit depth := by
  induction a with
  | done => rfl
  | gap rest ih => simp [append, lines, ih]
  | row text rest ih => simp [append, lines, ih]
  | suite header body closed rest _ ih => simp [append, lines, ih]

theorem opens_append (a b : Outline) : (a.append b).opens = (a.opens || b.opens) := by
  induction a with
  | done => simp [append, opens]
  | gap rest ih => simp [append, opens, ih]
  | row text rest ih => simp [append, opens]
  | suite header body closed rest _ ih => simp [append, opens]

theorem isFilled_append (a b : Outline) :
    (a.append b).isFilled = (a.isFilled && b.isFilled) := by
  induction a with
  | done => simp [append, isFilled]
  | gap rest ih => simp [append, isFilled, ih]
  | row text rest ih => simp [append, isFilled, ih]
  | suite header body closed rest _ ih => simp [append, isFilled, ih, Bool.and_assoc]

theorem WellFormed.append {a b : Outline} (ha : a.WellFormed) (hb : b.WellFormed) :
    (a.append b).WellFormed := by
  induction a with
  | done => exact hb
  | gap rest ih => exact ih ha
  | row text rest ih => exact ⟨ha.1, ha.2.1, ih ha.2.2⟩
  | suite header body closed rest _ ih => exact ⟨ha.1, ha.2.1, ha.2.2.1, ih ha.2.2.2⟩

/-- The text of lines that all end. -/
def render (unit : String) (o : Outline) (depth : Nat) : String :=
  String.ofList ((o.lines unit depth).flatMap (· ++ ['\n']))

theorem render_append (a b : Outline) (unit : String) (depth : Nat) :
    (a.append b).render unit depth = a.render unit depth ++ b.render unit depth := by
  simp [render, lines_append]

theorem oneLine_lines (hu : Page.BlankUnit unit) (ho : o.WellFormed) :
    ∀ line ∈ o.lines unit depth, '\n' ∉ line := by
  have hmargin (depth : Nat) : '\n' ∉ margin unit depth := by
    intro h
    have := isIndent_margin hu depth _ h
    contradiction
  have htext {text : List Char} (ht : IsText text) (depth : Nat) :
      '\n' ∉ margin unit depth ++ text := by
    rw [List.mem_append, not_or]
    exact ⟨hmargin depth, ht.oneLine⟩
  induction o generalizing depth with
  | done => simp [lines]
  | gap rest ih =>
    intro line hl
    rw [lines, List.mem_append] at hl
    rcases hl with hl | hl
    · split at hl
      · cases hl
      · rw [List.mem_singleton.mp hl]
        exact hmargin depth
    · exact ih ho line hl
  | row text rest ih =>
    intro line hl
    rcases List.mem_cons.mp hl with rfl | hl
    · exact htext ho.1 depth
    · exact ih ho.2.2 line hl
  | suite header body closed rest ihb ihr =>
    intro line hl
    simp only [lines, List.mem_cons, List.mem_append] at hl
    rcases hl with rfl | hl | hl | hl
    · exact htext ho.1 depth
    · exact ihb ho.2.2.1 line hl
    · cases closed <;> simp_all
    · exact ihr ho.2.2.2 line hl

theorem splitOn_lines {lines : List (List Char)} (h : ∀ line ∈ lines, '\n' ∉ line) :
    (lines.flatMap (· ++ ['\n'])).splitOn '\n' = lines ++ [[]] := by
  induction lines with
  | nil => simp
  | cons line lines ih =>
    have hline := h line List.mem_cons_self
    have hlines := ih fun l hl => h l (List.mem_cons_of_mem line hl)
    rw [List.flatMap_cons, List.append_assoc, List.singleton_append, List.splitOn_append_cons_self,
      List.splitOn_eq_singleton hline, hlines, List.singleton_append, List.cons_append]

/-- The lines of the text of an outline. -/
theorem suited_render (hu : Page.BlankUnit unit) (hne : unit ≠ "") (ho : o.WellFormed) :
    Suited unit ((o.render unit depth).toList.splitOn '\n') ↔ o.isFilled = true := by
  have hlast : Suited unit [[]] := (suited_cons_of_not_header rfl).mpr suited_nil
  rw [render, String.toList_ofList, splitOn_lines (oneLine_lines hu ho),
    suited_lines hu hne ho (shallow_empty _ _)]
  exact and_iff_left hlast

end Outline

end CodePrinter
