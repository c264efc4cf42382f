import CodePrinter.Proofs.RecordedNodes
import Mathlib.Data.List.DropRight
import Mathlib.Data.List.TakeDrop

/-! Lines, columns and mappings at every point of a pass.

What is on the page is a list of strokes, and the bookkeeping of a page is a fact about its strokes.
Main statement: line, column and mappings are those of the printed text (`positions_faithful`). -/
namespace CodePrinter

open Text

namespace Text

/-- The text after the last line feed. -/
def lastLine (s : String) : String := String.ofList (s.toList.rtakeWhile (· ≠ '\n'))

/-- The place of the next character after a text. -/
def endPosition (s : String) : Position :=
  { line := ↑(1 + s.toList.count '\n'), column := ↑(width (lastLine s)) }

theorem rtakeWhile_append_of_forall {α : Type} {p : α → Bool} {xs ys : List α}
    (h : ∀ y ∈ ys, p y = true) : (xs ++ ys).rtakeWhile p = xs.rtakeWhile p ++ ys := by
  induction ys using List.reverseRecOn with
  | nil => simp
  | append_singleton ys y ih =>
    rw [← List.append_assoc, List.rtakeWhile_concat_pos _ _ _ (h y (by simp)),
      ih fun x hx => h x (List.mem_append_left _ hx), List.append_assoc]

theorem lastLine_append {s t : String} (h : OneLine t) : lastLine (s ++ t) = lastLine s ++ t := by
  have ht : ∀ c ∈ t.toList, decide (c ≠ '\n') = true := by
    intro c hc
    simp only [decide_eq_true_eq]
    rintro rfl
    exact h hc
  rw [lastLine, String.toList_append, rtakeWhile_append_of_forall ht, lastLine]
  simp

theorem lastLine_lineFeed (s : String) : lastLine (s ++ "\n") = "" := by
  simp [lastLine, String.toList_append, List.rtakeWhile_concat_neg]

end Text

namespace Stroke

variable {s : Stroke} {strokes : List Stroke}

/-- The strokes on the current line. -/
def currentLine (strokes : List Stroke) : List Stroke := strokes.rtakeWhile (· ≠ .newline)

/-- Nothing but indentation stands on the current line. -/
def OnlyIndentation (strokes : List Stroke) : Prop :=
  ∀ s ∈ currentLine strokes, s.isIndentation = true ∨ s.value = ""

/-- There is a line feed in no stroke but those that end a line. -/
def AllOneLine (strokes : List Stroke) : Prop := ∀ s ∈ strokes, s ≠ .newline → OneLine s.value

/-- The first stroke that leaves anything on the page. -/
def first (strokes : List Stroke) : Option Stroke := strokes.find? (·.value ≠ "")

/-- What is put on the page does not begin with indentation. -/
def BeginWithText (strokes : List Stroke) : Prop := ∀ s ∈ first strokes, s.isIndentation = false

theorem first_append (us vs : List Stroke) : first (us ++ vs) = (first us).or (first vs) :=
  List.find?_append

theorem currentLine_newline : currentLine (strokes ++ [.newline]) = [] := by
  simp [currentLine, List.rtakeWhile_concat_neg]

theorem currentLine_concat (h : s ≠ .newline) :
    currentLine (strokes ++ [s]) = currentLine strokes ++ [s] := by
  simp [currentLine, List.rtakeWhile_concat_pos, h]

theorem AllOneLine.append {us vs : List Stroke} :
    AllOneLine (us ++ vs) ↔ AllOneLine us ∧ AllOneLine vs := by
  simp only [AllOneLine, List.mem_append]
  grind

theorem count_join (h : AllOneLine strokes) :
    (join strokes).toList.count '\n' = strokes.count .newline := by
  induction strokes with
  | nil => simp
  | cons s strokes ih =>
    have hs := ih fun t ht => h t (List.mem_cons_of_mem s ht)
    have hfirst : s.value.toList.count '\n' = [s].count .newline := by
      by_cases hn : s = .newline
      · subst hn
        decide
      · have ho : s.value.toList.count '\n' = 0 := List.count_eq_zero.mpr (h s (by simp) hn)
        simp [ho, hn]
    have hj : join (s :: strokes) = s.value ++ join strokes := by
      simpa using join_append [s] strokes
    rw [hj, String.toList_append, List.count_append, hs, hfirst,
      ← List.count_append, List.singleton_append]

theorem lastLine_join (h : AllOneLine strokes) :
    lastLine (join strokes) = join (currentLine strokes) := by
  induction strokes using List.reverseRecOn with
  | nil => simp [lastLine, currentLine]
  | append_singleton strokes s ih =>
    have hs := ih (AllOneLine.append.mp h).1
    by_cases hn : s = .newline
    · subst hn
      rw [currentLine_newline, join_append, join_singleton, Stroke.value, lastLine_lineFeed,
        join_nil]
    · rw [currentLine_concat hn, join_append, join_singleton,
        lastLine_append (h s (by simp) hn), hs, join_append, join_singleton]

end Stroke

namespace Page

variable {p : Page} {strokes : List Stroke}

/-- The bookkeeping of a page is right if some strokes were put on it. -/
structure Shows (strokes : List Stroke) (p : Page) : Prop where
  line : p.line = 1 + strokes.count .newline
  column : p.column = width (Stroke.join (Stroke.currentLine strokes))
  hasText : p.hasText = false ↔ Stroke.OnlyIndentation strokes

theorem Shows.startLine (unit : String) (h : Shows strokes p) :
    Shows (strokes ++ p.lineStart unit) (p.startLine unit) := by
  unfold Page.lineStart Page.startLine
  split
  · rename_i hc
    have hn : Stroke.indentation (indentation unit p.depth) ≠ .newline := by simp
    have hzero : width (Stroke.join (Stroke.currentLine strokes)) = 0 := by rw [← h.column, hc]
    constructor
    · simp [h.line]
    · simp [Stroke.currentLine_concat hn, hzero, Stroke.value]
    · rw [h.hasText, Stroke.OnlyIndentation, Stroke.OnlyIndentation, Stroke.currentLine_concat hn]
      simp [Stroke.isIndentation, or_imp, forall_and]
  · simpa using h

theorem Shows.text (h : Shows strokes p) (value : String) :
    Shows (strokes ++ [.text value])
      { p with
        pending := p.pending ++ value
        column := p.column + width value
        hasText := p.hasText || value ≠ "" } := by
  have hn : Stroke.text value ≠ .newline := by simp
  constructor
  · simp [h.line]
  · simp [Stroke.currentLine_concat hn, h.column, Stroke.value]
  · have ht := h.hasText
    rw [Stroke.OnlyIndentation] at ht
    rw [Stroke.OnlyIndentation, Stroke.currentLine_concat hn]
    simp [ht, Stroke.isIndentation, Stroke.value, or_imp, forall_and]

theorem Shows.print (unit : String) (h : Shows strokes p) (value : String) :
    Shows (strokes ++ (p.lineStart unit ++ [.text value])) (p.print unit value) := by
  rw [← List.append_assoc]
  exact (h.startLine unit).text value

theorem Shows.newline (h : Shows strokes p) : Shows (strokes ++ [.newline]) p.newline := by
  constructor
  · simp [Page.newline, h.line, Nat.add_assoc]
  · simp [Page.newline, Stroke.currentLine_newline]
  · simp [Page.newline, Stroke.OnlyIndentation, Stroke.currentLine_newline]

end Page

/-- The order of places in a text. -/
def Position.Le (a b : Position) : Prop := a.line < b.line ∨ a.line = b.line ∧ a.column ≤ b.column

theorem Position.Le.trans {a b c : Position} (h : a.Le b) (h' : b.Le c) : a.Le c := by
  unfold Position.Le at *
  omega

/-- The place of the next character. -/
def Page.position (p : Page) : Position := { line := p.line, column := p.column }

namespace Page

theorem le_startLine (unit : String) (p : Page) : p.position.Le (p.startLine unit).position := by
  unfold Page.startLine
  split
  · rename_i hc
    exact Or.inr ⟨rfl, by simp [position, hc]⟩
  · exact Or.inr ⟨rfl, Int.le_refl _⟩

theorem le_print (unit value : String) (p : Page) : p.position.Le (p.print unit value).position :=
  (le_startLine unit p).trans (Or.inr ⟨rfl, by simp only [position, Page.print]; omega⟩)

theorem le_newline (p : Page) : p.position.Le p.newline.position :=
  Or.inl (by simp only [position, Page.newline]; omega)

end Page

namespace Point

variable {set : Settings} {start x y z : Point}

/-- What is left to print is composed, but that a line break may still be followed by its
indentation. -/
def Ready (x : Point) : Prop :=
  Composed x.todo ∨ ∃ rest, x.todo = .indent :: rest ∧ Composed rest

/-- Nothing is put on the page, and the bookkeeping stays as it is. -/
structure Quiet (x y : Point) : Prop where
  strokes : y.strokes = x.strokes
  text : y.text = x.text
  mappings : y.pass.mappings = x.pass.mappings
  line : y.pass.page.line = x.pass.page.line
  column : y.pass.page.column = x.pass.page.column
  hasText : y.pass.page.hasText = x.pass.page.hasText
  depth : y.pass.page.depth ≤ x.pass.page.depth
  composed : Composed x.todo → Composed y.todo
  ready : Ready x → Ready y

/-- What a move can do. -/
inductive Effect (set : Settings) (x : Point) : Point → Prop
  | print {value : String} {todo : List Instr} (hx : x.todo = .text value :: todo) :
      Effect set x (x.next set todo (.text value))
  | mark {loc : Location} {todo : List Instr} (hx : x.todo = .mark loc :: todo) :
      Effect set x (x.next set todo (.mark loc))
  | newline {todo : List Instr} (hx : x.todo = .newline :: todo) :
      Effect set x (x.next set todo .newline)
  | indent {todo : List Instr} (hx : x.todo = .indent :: todo) :
      Effect set x (x.next set todo .indent)
  | quiet {y : Point} (h : Quiet x y) : Effect set x y

theorem Ready.composed_of_cons {i : Instr} {todo : List Instr} (h : Ready x)
    (hx : x.todo = i :: todo) (hi : i ≠ .indent) : Composed x.todo := by
  rcases h with h | ⟨rest, hr, _⟩
  · exact h
  · rw [hx] at hr
    exact absurd (List.cons.inj hr).1 hi

/-- A move that leaves the page alone is quiet if it keeps what is left composed. -/
theorem Quiet.of_cons {i : Instr} {todo : List Instr} (hx : x.todo = i :: todo)
    (hi : i ≠ .indent) (hs : y.strokes = x.strokes) (hf : y.flushed = x.flushed)
    (hm : y.pass.mappings = x.pass.mappings)
    (hp : ∃ depth ≤ x.pass.page.depth, y.pass.page = { x.pass.page with depth })
    (hc : Composed x.todo → Composed y.todo) : Quiet x y := by
  obtain ⟨depth, hd, hp⟩ := hp
  refine ⟨hs, ?_, hm, ?_, ?_, ?_, ?_, hc, fun hr => Or.inl (hc (hr.composed_of_cons hx hi))⟩
  · simp [Point.text, hf, hp]
  all_goals simp [hp, hd]

theorem snippetInstrs_composed {value : String} (hasText more : Bool) (h : OneLine value) :
    Composed (snippetInstrs hasText value more) := by
  have htext : OneLine (if hasText then value else String.ofList (trimStart value.toList)) := by
    split
    · exact h
    · exact oneLine_trimStart h
  unfold snippetInstrs
  generalize (if hasText then value else String.ofList (trimStart value.toList)) = text at htext ⊢
  dsimp only
  split
  · exact .nil
  · refine .cons_text htext ?_
    split
    · exact .newline
    · exact .nil

theorem problem_pass (set : Settings) (what : Problem) (loc : Option Location) (p : Pass) :
    (p.problem set what loc).pass.page = p.page ∧
      (p.problem set what loc).pass.mappings = p.mappings := by
  unfold Pass.problem
  split <;> simp

theorem goOn_composed {todo : List Instr} (h : Composed todo) (o : Outcome)
    (strokes : List Stroke) : Composed (x.goOn todo o strokes).todo := by
  unfold goOn
  dsimp only
  split
  · exact h
  · exact .nil

/-- A move has one of a few effects. -/
theorem Move.effect (h : Move set x y) : Effect set x y := by
  cases h with
  | flush => exact .quiet ⟨rfl, by simp [Point.flush, Point.text, Pass.flush, Page.flush], rfl, rfl,
      rfl, rfl, Nat.le_refl _, id, id⟩
  | step h =>
    unfold Point.step at h
    split at h
    · cases h
    · rename_i i todo hx
      obtain rfl := Option.some.inj h
      have hsame : ∃ depth ≤ x.pass.page.depth,
          x.pass.page = { x.pass.page with depth } := ⟨_, Nat.le_refl _, rfl⟩
      cases i with
      | text value => exact .print hx
      | mark loc => exact .mark hx
      | newline => exact .newline hx
      | indent => exact .indent hx
      | endLine =>
        refine .quiet (.of_cons hx (by simp) rfl rfl rfl hsame fun hc => ?_)
        rw [hx] at hc
        have hf := hc.follows
        simp only [Point.next]
        split
        · exact hf
        · exact .append .newline hf
      | dedent =>
        refine .quiet (.of_cons hx (by simp) (by simp [Point.next, goOn]) rfl rfl
          ⟨_, Nat.sub_le _ 1, rfl⟩ fun hc => ?_)
        rw [hx] at hc
        exact hc.follows
      | snippetLine value more =>
        refine .quiet (.of_cons hx (by simp) rfl rfl rfl hsame fun hc => ?_)
        rw [hx] at hc
        exact (snippetInstrs_composed _ _ hc.follows.1).append hc.follows.2
      | template source fill =>
        refine .quiet (.of_cons hx (by simp) rfl rfl rfl hsame fun hc => ?_)
        rw [hx] at hc
        exact (hc.follows.1 _).append hc.follows.2
      | problem what loc =>
        obtain ⟨hp, hm⟩ := problem_pass set what loc x.pass
        refine .quiet (.of_cons hx (by simp) (by simp [Point.next, goOn]) rfl hm
          ⟨_, Nat.le_refl _, hp⟩ fun hc => ?_)
        rw [hx] at hc
        exact goOn_composed hc.follows _ _
      | fail what =>
        exact .quiet (.of_cons hx (by simp) (by simp [Point.next, goOn]) rfl rfl hsame
          fun _ => .nil)

/-- The bookkeeping of a point is right. -/
structure Faithful (x : Point) : Prop where
  ready : Ready x
  shows : x.pass.page.Shows x.strokes
  join : Stroke.join x.strokes = x.text
  oneLine : Stroke.AllOneLine x.strokes
  ordered : x.pass.mappings.Pairwise fun a b => a.generated.Le b.generated
  reached : ∀ m ∈ x.pass.mappings, m.generated.Le x.pass.page.position

theorem allOneLine_lineStart {unit : String} (h : OneLine unit) (p : Page) :
    Stroke.AllOneLine (p.lineStart unit) := by
  unfold Page.lineStart
  split
  · intro s hs _
    obtain rfl := List.mem_singleton.mp hs
    exact oneLine_indentation h p.depth
  · intro s hs
    cases hs

theorem pending_startLine (unit : String) (p : Page) :
    (p.startLine unit).pending = p.pending ++ Stroke.join (p.lineStart unit) := by
  unfold Page.startLine Page.lineStart
  split <;> simp [Stroke.value]

/-- A mark begins the line if nothing stands on it, and records at most the place that it marks. -/
theorem mark_cases (set : Settings) (loc : Location) (p : Pass) :
    (p.mark set loc).pass.page = p.page.startLine set.indent ∧
      ((p.mark set loc).pass.mappings = p.mappings ∨
        (p.mark set loc).pass.mappings =
          p.mappings ++ [Pass.mappingAt (p.page.startLine set.indent) loc]) := by
  unfold Pass.mark
  dsimp only
  split
  · exact ⟨rfl, Or.inl rfl⟩
  · exact ⟨rfl, Or.inr rfl⟩
  · split
    · exact ⟨rfl, Or.inr rfl⟩
    · exact ⟨rfl, Or.inl rfl⟩

namespace Faithful

theorem print (hi : OneLine set.indent) (h : Faithful x) {value : String} {todo : List Instr}
    (hx : x.todo = .text value :: todo) : Faithful (x.next set todo (.text value)) := by
  have hc := h.ready.composed_of_cons hx (by simp)
  rw [hx] at hc
  obtain ⟨hv, htodo⟩ := hc.follows
  refine ⟨Or.inl (goOn_composed htodo _ _), h.shows.print set.indent value, ?_, ?_, h.ordered, ?_⟩
  · simp [Point.next, goOn, Point.text, Pass.onPage, Page.print, pending_startLine, h.join,
      Stroke.value, String.append_assoc]
  · refine Stroke.AllOneLine.append.mpr ⟨h.oneLine, Stroke.AllOneLine.append.mpr
      ⟨allOneLine_lineStart hi x.pass.page, ?_⟩⟩
    intro s hs _
    obtain rfl := List.mem_singleton.mp hs
    exact hv
  · exact fun m hm => (h.reached m hm).trans (Page.le_print set.indent value x.pass.page)

theorem mark (hi : OneLine set.indent) (h : Faithful x) {loc : Location} {todo : List Instr}
    (hx : x.todo = .mark loc :: todo) : Faithful (x.next set todo (.mark loc)) := by
  have hc := h.ready.composed_of_cons hx (by simp)
  rw [hx] at hc
  obtain ⟨hp, hm⟩ := mark_cases set loc x.pass
  have hle := fun m hm => (h.reached m hm).trans (Page.le_startLine set.indent x.pass.page)
  refine ⟨Or.inl (goOn_composed hc.follows _ _), ?_, ?_, ?_, ?_, ?_⟩
  · simp only [Point.next, goOn, hp]
    exact h.shows.startLine set.indent
  · simp [Point.next, goOn, Point.text, hp, pending_startLine, h.join, String.append_assoc]
  · exact Stroke.AllOneLine.append.mpr ⟨h.oneLine, allOneLine_lineStart hi x.pass.page⟩
  · rcases hm with hm | hm
    · simpa [Point.next, goOn, hm] using h.ordered
    · simp only [Point.next, goOn, hm, List.pairwise_append, List.pairwise_singleton, true_and]
      refine ⟨h.ordered, fun m hm m' hm' => ?_⟩
      obtain rfl := List.mem_singleton.mp hm'
      exact hle m hm
  · simp only [Point.next, goOn, hp]
    rcases hm with hm | hm
    · simpa [hm] using hle
    · rw [hm]
      intro m hmem
      rcases List.mem_append.mp hmem with hmem | hmem
      · exact hle m hmem
      · obtain rfl := List.mem_singleton.mp hmem
        exact Or.inr ⟨rfl, Int.le_refl _⟩

theorem newline (h : Faithful x) {todo : List Instr} (hx : x.todo = .newline :: todo) :
    Faithful (x.next set todo .newline) := by
  have hc := h.ready.composed_of_cons hx (by simp)
  rw [hx] at hc
  refine ⟨hc.follows, h.shows.newline, ?_, ?_, h.ordered, ?_⟩
  · simp [Point.next, goOn, Point.text, Pass.onPage, Page.newline, h.join, Stroke.value,
      String.append_assoc]
  · refine Stroke.AllOneLine.append.mpr ⟨h.oneLine, fun s hs hn => ?_⟩
    exact absurd (List.mem_singleton.mp hs) hn
  · exact fun m hm => (h.reached m hm).trans (Page.le_newline x.pass.page)

theorem indent (h : Faithful x) {todo : List Instr} (hx : x.todo = .indent :: todo) :
    Faithful (x.next set todo .indent) := by
  have hready : Ready (x.next set todo .indent) := by
    rcases h.ready with hc | ⟨rest, hr, hc⟩
    · rw [hx] at hc
      exact hc.follows.elim
    · rw [hx] at hr
      obtain rfl := (List.cons.inj hr).2
      exact Or.inl hc
  have hs : x.strokes = (x.next set todo .indent).strokes := by simp [Point.next, goOn]
  refine ⟨hready, ?_, ?_, ?_, h.ordered, h.reached⟩
  · rw [← hs]
    exact ⟨h.shows.line, h.shows.column, h.shows.hasText⟩
  · rw [← hs, h.join]
    rfl
  · rw [← hs]
    exact h.oneLine

theorem quiet (h : Faithful x) (hq : Quiet x y) : Faithful y := by
  obtain ⟨hs, ht, hm, hl, hc, hh, -, -, hready⟩ := hq
  refine ⟨hready h.ready, ?_, by rw [hs, ht, h.join], by rw [hs]; exact h.oneLine,
    by rw [hm]; exact h.ordered, ?_⟩
  · rw [hs]
    exact ⟨by rw [hl, h.shows.line], by rw [hc, h.shows.column], by rw [hh, h.shows.hasText]⟩
  · rw [hm, Page.position, hl, hc]
    exact h.reached

/-- A move keeps the bookkeeping right. -/
theorem move (hi : OneLine set.indent) (h : Faithful x) (hm : Move set x y) :
    Faithful y := by
  cases hm.effect with
  | print hx => exact h.print hi hx
  | mark hx => exact h.mark hi hx
  | newline hx => exact h.newline hx
  | indent hx => exact h.indent hx
  | quiet hq => exact h.quiet hq

theorem reaches (hi : OneLine set.indent) (h : Faithful x) (hr : Reaches set x y) :
    Faithful y := by
  induction hr with
  | refl => exact h
  | tail _ hm ih => exact ih.move hi hm

theorem line_eq (h : Faithful x) :
    x.pass.page.line = 1 + x.text.toList.count '\n' := by
  rw [h.shows.line, ← h.join, Stroke.count_join h.oneLine]

theorem column_eq (h : Faithful x) : x.pass.page.column = width (lastLine x.text) := by
  rw [h.shows.column, ← h.join, Stroke.lastLine_join h.oneLine]

theorem position_eq (h : Faithful x) : x.pass.page.position = endPosition x.text := by
  rw [Page.position, h.line_eq, h.column_eq, endPosition]

end Faithful

/-- The line at hand is begun, or begins without indentation. -/
def Steady (set : Settings) (x : Point) : Prop :=
  x.pass.page.column = 0 → Page.indentation set.indent x.pass.page.depth = ""

theorem indentation_eq_empty {unit : String} {depth : Nat} :
    Page.indentation unit depth = "" ↔ depth = 0 ∨ unit = "" := by
  unfold Page.indentation
  rw [← String.toList_inj, String.toList_join]
  cases depth <;> simp +contextual [List.replicate_succ]

theorem Steady.mono (h : Steady set x) (hc : y.pass.page.column = 0 → x.pass.page.column = 0)
    (hd : y.pass.page.depth ≤ x.pass.page.depth) : Steady set y := by
  intro hy
  rcases indentation_eq_empty.mp (h (hc hy)) with hx | hx
  · exact indentation_eq_empty.mpr (Or.inl (by omega))
  · exact indentation_eq_empty.mpr (Or.inr hx)

theorem Steady.first_lineStart (h : Steady set x) :
    Stroke.first (x.pass.page.lineStart set.indent) = none := by
  unfold Page.lineStart
  split
  · rename_i hc
    simp [Stroke.first, Stroke.value, h hc]
  · rfl

theorem steady_startLine (h : y.pass.page = x.pass.page.startLine set.indent) : Steady set y := by
  intro hy
  rw [h] at hy ⊢
  unfold Page.startLine at hy ⊢
  split
  · rename_i hc
    rw [if_pos hc] at hy
    exact width_eq_zero.mp hy
  · rename_i hc
    rw [if_neg hc] at hy
    exact absurd hy hc

/-- Since some point `z`, what was put on the page does not begin with indentation. As long as
nothing was put there, this cannot happen in the next step. -/
structure Begun (set : Settings) (z x : Point) (more : List Stroke) : Prop where
  strokes : x.strokes = z.strokes ++ more
  text : Stroke.BeginWithText more
  waiting : Stroke.first more = none → Composed x.todo ∧ Steady set x

namespace Begun

variable {more new : List Stroke} {todo : List Instr}

theorem append (h : Begun set z x more) (hs : y.strokes = x.strokes ++ new)
    (hn : Stroke.first more = none → Stroke.BeginWithText new ∧
      (Stroke.first new = none → Composed y.todo ∧ Steady set y)) :
    Begun set z y (more ++ new) := by
  refine ⟨by rw [hs, h.strokes, List.append_assoc], ?_, ?_⟩
  · intro s hm
    rw [Stroke.first_append] at hm
    cases hf : Stroke.first more with
    | none =>
      rw [hf] at hm
      exact (hn hf).1 s hm
    | some t =>
      rw [hf] at hm
      exact h.text s (by rw [hf]; exact hm)
  · intro hm
    rw [Stroke.first_append, Option.or_eq_none_iff] at hm
    exact (hn hm.1).2 hm.2

theorem print (h : Begun set z x more) {value : String} (hx : x.todo = .text value :: todo) :
    Begun set z (x.next set todo (.text value))
      (more ++ (x.pass.page.lineStart set.indent ++ [.text value])) := by
  refine h.append rfl fun hf => ?_
  obtain ⟨hc, hs⟩ := h.waiting hf
  rw [hx] at hc
  have hfirst : Stroke.first (x.pass.page.lineStart set.indent ++ [.text value]) =
      Stroke.first [.text value] := by
    rw [Stroke.first_append, hs.first_lineStart, Option.none_or]
  refine ⟨?_, fun _ => ⟨goOn_composed hc.follows.2 _ _, hs.mono ?_ ?_⟩⟩
  · intro s hm
    rw [hfirst] at hm
    obtain rfl := List.mem_singleton.mp (List.mem_of_find?_eq_some hm)
    rfl
  · intro hcol
    by_contra hne
    simp [Point.next, goOn, Pass.onPage, Page.print, Page.startLine, hne] at hcol
  · simp only [Point.next, goOn, Pass.onPage, Page.print, Page.startLine]
    split <;> exact Nat.le_refl _

theorem mark (h : Begun set z x more) {loc : Location} (hx : x.todo = .mark loc :: todo) :
    Begun set z (x.next set todo (.mark loc)) (more ++ x.pass.page.lineStart set.indent) := by
  refine h.append rfl fun hf => ?_
  obtain ⟨hc, hs⟩ := h.waiting hf
  rw [hx] at hc
  refine ⟨?_, fun _ => ⟨goOn_composed hc.follows _ _,
    steady_startLine (mark_cases set loc x.pass).1⟩⟩
  intro s hm
  rw [hs.first_lineStart] at hm
  cases hm

theorem newline (h : Begun set z x more) :
    Begun set z (x.next set todo .newline) (more ++ [.newline]) := by
  refine h.append rfl fun _ => ⟨?_, fun hn => ?_⟩
  · intro s hm
    obtain rfl := List.mem_singleton.mp (List.mem_of_find?_eq_some hm)
    rfl
  · simp [Stroke.first, Stroke.value] at hn

/-- Indentation gets deeper only after a line break, so not while nothing was put on the page. -/
theorem indent (h : Begun set z x more) (hx : x.todo = .indent :: todo) :
    Begun set z (x.next set todo .indent) more := by
  refine ⟨?_, h.text, fun hf => ?_⟩
  · rw [← h.strokes]
    exact List.append_nil _
  · have hc := (h.waiting hf).1
    rw [hx] at hc
    exact hc.follows.elim

theorem quiet (h : Begun set z x more) (hq : Quiet x y) : Begun set z y more := by
  refine ⟨by rw [hq.strokes, h.strokes], h.text, fun hf => ?_⟩
  obtain ⟨hc, hs⟩ := h.waiting hf
  exact ⟨hq.composed hc, hs.mono (fun hy => by rw [← hq.column]; exact hy) hq.depth⟩

theorem reaches (h : Begun set z x more) (hr : Reaches set x y) :
    ∃ more, Begun set z y more := by
  induction hr with
  | refl => exact ⟨more, h⟩
  | tail _ hm ih =>
    obtain ⟨more, h⟩ := ih
    cases hm.effect with
    | print hx => exact ⟨_, h.print hx⟩
    | mark hx => exact ⟨_, h.mark hx⟩
    | newline => exact ⟨_, h.newline⟩
    | indent hx => exact ⟨_, h.indent hx⟩
    | quiet hq => exact ⟨_, h.quiet hq⟩

/-- A node begins where its mark was. -/
theorem of_mark {loc : Location} (hc : Composed x.todo) (hx : x.todo = .mark loc :: todo) :
    Begun set (x.next set todo (.mark loc)) (x.next set todo (.mark loc)) [] := by
  rw [hx] at hc
  refine ⟨(List.append_nil _).symm, ?_, fun _ => ⟨goOn_composed hc.follows _ _,
    steady_startLine (mark_cases set loc x.pass).1⟩⟩
  intro s hm
  cases hm

end Begun

/-- A mapping was recorded on the way to a point when a node with a place was about to be printed.
It has the place in the text at which that node begins, after any indentation. -/
def MappedAt (set : Settings) (start x : Point) (n : Node) (m : Mapping) : Prop :=
  ∃ (loc : Location) (own rest : List Instr) (y z : Point) (more : List Stroke),
    n.loc = some loc ∧ n.instrs set = .mark loc :: own ∧ y.todo = n.instrs set ++ rest ∧
    Reaches set start y ∧ y.step set = some z ∧ Reaches set z x ∧
    m = { generated := endPosition z.text, origin := loc.start, name := loc.identifier } ∧
    x.strokes = z.strokes ++ more ∧ x.text = z.text ++ Stroke.join more ∧
    Stroke.BeginWithText more

theorem RecordedAt.mappedAt {n : Node} {m : Mapping} (hi : OneLine set.indent)
    (hs : Faithful start) (h : RecordedAt set start x n m) : MappedAt set start x n m := by
  obtain ⟨y, loc, own, rest, hl, hn, ht, hy, hx, rfl⟩ := h
  have hfy := hs.reaches hi hy
  have hc := hfy.ready.composed_of_cons ht (by simp)
  have hfz := hfy.mark hi ht
  have hfx := hfz.reaches hi hx
  obtain ⟨more, hb⟩ := (Begun.of_mark hc ht).reaches hx
  refine ⟨loc, own, rest, y, _, more, hl, hn, by rw [ht, hn]; rfl, hy, by simp [step, ht], hx,
    ?_, hb.strokes, ?_, hb.text⟩
  · rw [← hfz.position_eq]
    rfl
  · rw [← hfx.join, hb.strokes, Stroke.join_append, hfz.join]

end Point

theorem Node.instrs_eq_mark (set : Settings) {n : Node} {loc : Location} (h : n.loc = some loc) :
    ∃ own, n.instrs set = .mark loc :: own := by
  obtain ⟨own, hn⟩ := n.instrs_eq set
  exact ⟨own, by rw [hn, h]; rfl⟩

namespace Point

variable {set : Settings}

/-- A pass over composed instructions begins with right bookkeeping. -/
theorem Faithful.start {is : List Instr} {p : Pass} (hc : Composed is) (hp : p.page = {})
    (hm : p.mappings = []) : Faithful { todo := is, pass := p } := by
  refine ⟨Or.inl hc, ⟨?_, ?_, ?_⟩, ?_, ?_, ?_, ?_⟩
  · simp [hp]
  · simp [hp, Stroke.currentLine]
  · simp [hp, Stroke.OnlyIndentation, Stroke.currentLine]
  · simp [hp, Point.text]
  · simp [Stroke.AllOneLine]
  · simp [hm]
  · simp [hm]

/-- A mapping is recorded for every node with a place, if mappings are kept. -/
theorem Faithful.records {x : Point} {n : Node} {loc : Location} {rest : List Instr}
    (hi : OneLine set.indent) (h : Faithful x) (hk : set.maps = .keep)
    (hx : x.todo = n.instrs set ++ rest) (hl : n.loc = some loc) :
    ∃ z, x.step set = some z ∧ z.pass.mappings = x.pass.mappings ++
      [{ generated := endPosition z.text, origin := loc.start, name := loc.identifier }] := by
  obtain ⟨own, hn⟩ := n.instrs_eq_mark set hl
  have hmark : x.todo = .mark loc :: (own ++ rest) := by
    rw [hx, hn]
    rfl
  refine ⟨x.next set (own ++ rest) (.mark loc), by simp [step, hmark], ?_⟩
  rw [← (h.mark hi hmark).position_eq]
  simp [Point.next, goOn, Pass.mark, hk, Pass.mappingAt, Page.position]

/-- At every point of a pass over statements, or over a module, the line and the column are those
of the end of the printed text, and it is known whether more than indentation stands on the line.
Mappings are recorded for the located nodes in the order in which they are printed, for all of them
in the end, and each has the place at which its node begins. -/
theorem positions_faithful (set : Settings) (ss : List Stmt) (diagnostics : List Diagnostic)
    (cache : Template.Cache) (hc : cache.Sound) (hi : OneLine set.indent)
    (hr : set.names.All OneLine) (hn : stmtsAllNames set OneLine ss) :
    let p : Pass := { diagnostics, cache }
    let statements : Point := { todo := stmtsInstrs set ss, pass := p }
    let module : Point := { todo := (moduleInstrs set ss).flatten, pass := p }
    (∃ x, Reaches set statements x ∧ x.todo = [] ∧ x.failure = (renderStmts set ss p).failure ∧
      x.pass = (renderStmts set ss p).pass ∧
      x.text = (renderStmts set ss p).pass.page.pending) ∧
    (∀ d : Disturbance, ∃ x, Reaches set module x ∧
      x.pass = (ModulePass.run set d.sink d.cancelled ss p {}).pass ∧
      ∀ summary, (ModulePass.run set d.sink d.cancelled ss p {}).outcome = .ok summary →
        x.text = (ModulePass.run set d.sink d.cancelled ss p {}).sink.text ∧
        x.failure = none ∧ (summary.cancelled = false → x.todo = [])) ∧
    ∀ start ∈ [statements, module], ∀ x, Reaches set start x →
      x.pass.page.line = 1 + x.text.toList.count '\n' ∧
      x.pass.page.column = width (lastLine x.text) ∧
      Stroke.join x.strokes = x.text ∧
      (x.pass.page.hasText = false ↔ Stroke.OnlyIndentation x.strokes) ∧
      (∃ begun, begun <+: stmtsLocated set.names ss ∧
        (set.maps ≠ .discard → List.Forall₂ (MappedAt set start x) begun x.pass.mappings) ∧
        (set.maps = .discard → x.pass.mappings = []) ∧
        (x.todo = [] → x.failure = none → begun = stmtsLocated set.names ss)) ∧
      (x.pass.mappings.Pairwise fun a b => a.generated.Le b.generated) ∧
      ∀ (n : Node) (loc : Location) (rest : List Instr), x.todo = n.instrs set ++ rest →
        n.loc = some loc → set.maps = .keep →
        ∃ z, x.step set = some z ∧ z.pass.mappings = x.pass.mappings ++
          [{ generated := endPosition z.text, origin := loc.start, name := loc.identifier }] := by
  intro p statements module
  have hbegin : ∀ start ∈ [statements, module],
      Faithful start ∧ Underway set (stmtsLocated set.names ss) start start := by
    intro start hs
    have hstmts := stmts_pieced hr ss hn
    have hmodule := module_pieced hr hn
    simp only [List.mem_cons, List.not_mem_nil, or_false] at hs
    rcases hs with rfl | rfl
    · exact ⟨.start hstmts.composed rfl rfl, .initial hstmts.prints hc rfl⟩
    · exact ⟨.start hmodule.composed rfl rfl, .initial hmodule.prints hc rfl⟩
  refine ⟨renderStmts_reaches set ss p, fun d => run_reaches set d.appends d.cancelled ss rfl rfl,
    fun start hs x hx => ?_⟩
  obtain ⟨hstart, hunderway⟩ := hbegin start hs
  have hfx := hstart.reaches hi hx
  obtain ⟨-, begun, left, hnodes, hleft, hkept, hnone⟩ := hunderway.reaches hx
  refine ⟨hfx.line_eq, hfx.column_eq, hfx.join, hfx.shows.hasText, ?_, hfx.ordered,
    fun n loc rest htodo hl hk => hfx.records hi hk htodo hl⟩
  refine ⟨begun, ⟨left, hnodes.symm⟩, fun hd => ?_, hnone, fun htodo hf => ?_⟩
  · exact (hkept hd).imp fun n m hrecorded => hrecorded.mappedAt hi hstart
  · rw [hnodes, hleft.eq_nil hf htodo, List.append_nil]

/-- The place of an `elif` is that of its keyword, and the place of a key in a dictionary comes
after the indentation of its entry. -/
theorem positions_faithful_elif :
    let set : Settings := { maps := .keep }
    let ss : List Stmt :=
      [.conditional (.name "a") [.expr (.dict [.name "k" (some (.span 1 4))] [.name "v"])]
        [.conditional (.name "b") [] [] (some (.span 2 0))]]
    let start : Point := { todo := stmtsInstrs set ss, pass := {} }
    OneLine set.indent ∧ set.names.All OneLine ∧ stmtsAllNames set OneLine ss ∧
    (renderStmts set ss).pass.mappings.map (·.generated) =
      [{ line := 3, column := 8 }, { line := 6, column := 0 }] ∧
    ∃ x, Reaches set start x ∧ x.text = (renderStmts set ss).pass.page.pending ∧
      x.pass.mappings = (renderStmts set ss).pass.mappings ∧
      List.Forall₂ (MappedAt set start x)
        [.expr (.name "k" (some (.span 1 4))), .elseIf (.name "b") [] [] (some (.span 2 0))]
        x.pass.mappings := by
  intro set ss start
  have hi : OneLine set.indent := by decide
  have hr : set.names.All OneLine := by
    simp only [RuntimeNames.All, set]
    decide
  have hn : stmtsAllNames set OneLine ss := by
    simp only [ss, stmtsAllNames, Stmt.AllNames, Expr.AllNames, exprsAllNames, and_true]
    decide
  obtain ⟨⟨x, hx, htodo, hf, hp, ht⟩, -, hall⟩ :=
    positions_faithful set ss [] {} Template.Cache.sound_empty hi hr hn
  have hmappings : (renderStmts set ss).pass.mappings.map (·.generated) =
      [{ line := 3, column := 8 }, { line := 6, column := 0 }] := by
    dsimp only [set, ss]
    decide +kernel
  have hnone : (renderStmts set ss).failure = none := by
    dsimp only [set, ss]
    decide +kernel
  have hlocated : stmtsLocated set.names ss =
      [.expr (.name "k" (some (.span 1 4))), .elseIf (.name "b") [] [] (some (.span 2 0))] := by
    simp [ss, stmtsLocated, Stmt.located, elseLocated, Expr.located, exprsLocated, Node.leading,
      Node.loc, Expr.loc, Stmt.loc]
  obtain ⟨begun, -, hmapped, -, hend⟩ := (hall start List.mem_cons_self x hx).2.2.2.2.1
  refine ⟨hi, hr, hn, hmappings, x, hx, ht, by rw [hp], ?_⟩
  rw [← hlocated, ← hend htodo (hf.trans hnone)]
  exact hmapped (by intro h; cases h)

end Point

end CodePrinter
