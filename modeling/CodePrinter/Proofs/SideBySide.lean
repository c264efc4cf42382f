import CodePrinter.Proofs.Runs

/-! Two runs side by side.

A relation between lists of instructions that is kept by all that printed trees are put together
from is a congruence. Main statement: a relation between pages that printing keeps gives one
(`congruence_tracks`): from related pages, whatever the one list comes to without failing, the
other comes to as well, and the pages are related again. -/
namespace CodePrinter

/-- An instruction that stands for itself alone, leaves the indentation as it is, and has nothing
to do with locations and problems. -/
def Instr.isPlain : Instr → Bool
  | .text _ => true
  | .newline => true
  | .endLine => true
  | .snippetLine _ _ => true
  | .fail _ => true
  | _ => false

/-- A relation that is kept by the ways in which printed trees are put together. The indentation
changes between lines only. -/
structure Congruence (r : List Instr → List Instr → Prop) : Prop where
  nil : r [] []
  append {is js is' js' : List Instr} : r is js → r is' js' → r (is ++ is') (js ++ js')
  plain {i : Instr} : i.isPlain = true → r [i] [i]
  template {source : String} {fill fill' : List Template.Part → List Instr} :
    (∀ parts, r (fill parts) (fill' parts)) → r [.template source fill] [.template source fill']
  nested {is js : List Instr} {last : Instr} : last = .newline ∨ last = .endLine → r is js →
    r ([.newline, .indent] ++ is ++ [last, .dedent]) ([.newline, .indent] ++ js ++ [last, .dedent])

/-- A relation between pages that is kept by whatever is printed on both. -/
structure Page.Congruent (unit : String) (r : Page → Page → Prop) : Prop where
  hasText {p q : Page} : r p q → p.hasText = q.hasText
  print {p q : Page} (text : String) : r p q → r (p.print unit text) (q.print unit text)
  newline {p q : Page} : r p q → r p.newline q.newline
  endLine {p q : Page} : r p q → r p.endLine q.endLine
  indent {p q : Page} : r p q → r p.newline.indent q.newline.indent
  dedent {p q : Page} : r p q →
    r p.newline.dedent q.newline.dedent ∧ r p.endLine.dedent q.endLine.dedent

theorem Page.Congruent.snippetLine {unit : String} {r : Page → Page → Prop}
    (hr : Page.Congruent unit r) {p q : Page} (text : String) (more : Bool) (h : r p q) :
    r (p.snippetLine unit text more) (q.snippetLine unit text more) := by
  simp only [Page.snippetLine, hr.hasText h]
  generalize (if q.hasText then text else String.ofList (Text.trimStart text.toList)) = value
  split
  · exact h
  · split
    · exact hr.newline (hr.print value h)
    · exact hr.print value h

/-- Two passes with related pages and mappings, and the same store. -/
structure Pass.Related (pages : Page → Page → Prop) (mappings : List Mapping → List Mapping → Prop)
    (p q : Pass) : Prop where
  page : pages p.page q.page
  mappings : mappings p.mappings q.mappings
  cache : p.cache = q.cache

/-- Whatever the first list comes to without failing, the second comes to as well. -/
def Tracks (set : Settings) (r : Pass → Pass → Prop) (is js : List Instr) : Prop :=
  ∀ p q p', r p q → perform set is p = { pass := p' } →
    ∃ q', perform set js q = { pass := q' } ∧ r p' q'

namespace Tracks

variable {set : Settings} {pages : Page → Page → Prop}
  {mappings : List Mapping → List Mapping → Prop} {is js is' js' : List Instr}

theorem nil (r : Pass → Pass → Prop) : Tracks set r [] [] := by
  intro p q p' h hp
  rw [perform_nil] at hp
  cases hp
  exact ⟨q, perform_nil set q, h⟩

theorem append {r : Pass → Pass → Prop} (h : Tracks set r is js) (h' : Tracks set r is' js') :
    Tracks set r (is ++ is') (js ++ js') := by
  intro p q p' hr hp
  obtain ⟨p₁, hp₁, hp'⟩ := perform_append_eq_pass.mp hp
  obtain ⟨q₁, hq₁, hr₁⟩ := h p q p₁ hr hp₁
  obtain ⟨q', hq', hr'⟩ := h' p₁ q₁ p' hr₁ hp'
  exact ⟨q', perform_append_eq_pass.mpr ⟨q₁, hq₁, hq'⟩, hr'⟩

/-- Instructions that do the same to both pages. -/
theorem onPage {f : Page → Page} (hi : ∀ p, perform set is p = p.onPage f)
    (hf : ∀ p q, pages p q → pages (f p) (f q)) :
    Tracks set (Pass.Related pages mappings) is is := by
  intro p q p' h hp
  rw [hi] at hp
  cases hp
  exact ⟨{ q with page := f q.page }, hi q, hf _ _ h.page, h.mappings, h.cache⟩

theorem template {source : String} {fill fill' : List Template.Part → List Instr}
    (h : ∀ parts, Tracks set (Pass.Related pages mappings) (fill parts) (fill' parts)) :
    Tracks set (Pass.Related pages mappings) [.template source fill] [.template source fill'] := by
  intro p q p' hr hp
  rw [perform_singleton, Instr.perform] at hp ⊢
  rw [← hr.cache]
  have hstored : Pass.Related pages mappings { p with cache := (p.cache.split source).2 }
      { q with cache := (p.cache.split source).2 } := ⟨hr.page, hr.mappings, rfl⟩
  exact h _ _ _ p' hstored hp

/-- A problem that does not stop a run only adds to the diagnostics. -/
theorem problem (what : Problem) (loc loc' : Option Location) :
    Tracks set (Pass.Related pages mappings) [.problem what loc] [.problem what loc'] := by
  intro p q p' h hp
  rw [perform_singleton, Instr.perform, Pass.problem_eq] at hp ⊢
  split at hp
  · cases hp
  · rename_i hgoes
    cases hp
    rw [if_neg hgoes]
    exact ⟨_, rfl, h.page, h.mappings, h.cache⟩

/-- What was wrong may be left unsaid. -/
theorem ofProblem_nil (what : Option Problem) (loc : Option Location) :
    Tracks set (Pass.Related pages mappings) (Fragment.ofProblem loc what) [] := by
  cases what with
  | none => exact nil _
  | some what =>
    intro p q p' h hp
    rw [Fragment.ofProblem, perform_singleton, Instr.perform, Pass.problem_eq] at hp
    split at hp
    · cases hp
    · cases hp
      exact ⟨q, perform_nil set q, h.page, h.mappings, h.cache⟩

/-- What the end of the one run says of the end of the other. -/
theorem run {r : Pass → Pass → Prop} (h : Tracks set r is js) {p q : Pass} (hr : r p q)
    (hp : (perform set is p).failure = none) :
    (perform set js q).failure = none ∧ r (perform set is p).pass (perform set js q).pass := by
  generalize hrun : perform set is p = o at hp ⊢
  obtain ⟨p', failure⟩ := o
  obtain rfl : failure = none := hp
  obtain ⟨q', hq, hr'⟩ := h p q p' hr hrun
  rw [hq]
  exact ⟨rfl, hr'⟩

end Tracks

theorem congruence_tracks {set : Settings} {pages : Page → Page → Prop}
    {mappings : List Mapping → List Mapping → Prop} (hr : Page.Congruent set.indent pages) :
    Congruence (Tracks set (Pass.Related pages mappings)) where
  nil := .nil _
  append := .append
  template := .template
  plain := by
    intro i hi
    cases i with
    | text value => exact .onPage (perform_singleton set _) fun _ _ => hr.print value
    | newline => exact .onPage (perform_singleton set _) fun _ _ => hr.newline
    | endLine => exact .onPage (perform_singleton set _) fun _ _ => hr.endLine
    | snippetLine value more =>
      exact .onPage (perform_singleton set _) fun _ _ => hr.snippetLine value more
    | fail what =>
      intro p q p' h hp
      rw [perform_singleton, Instr.perform] at hp
      cases hp
    | _ => cases hi
  nested := by
    intro is js last hlast h
    have hopen : Tracks set (Pass.Related pages mappings) [.newline, .indent]
        [.newline, .indent] :=
      .onPage (f := fun p => p.newline.indent) (fun _ => rfl) fun _ _ => hr.indent
    have hclose : Tracks set (Pass.Related pages mappings) [last, .dedent] [last, .dedent] := by
      rcases hlast with rfl | rfl
      · exact .onPage (f := fun p => p.newline.dedent) (fun _ => rfl) fun _ _ h => (hr.dedent h).1
      · exact .onPage (f := fun p => p.endLine.dedent) (fun _ => rfl) fun _ _ h => (hr.dedent h).2
    exact (hopen.append h).append hclose

end CodePrinter
