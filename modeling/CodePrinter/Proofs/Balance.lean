import CodePrinter.Proofs.RebuiltTrees

/-! Indentation in printed trees.

Main statement: every indentation of a printed tree is taken back in it (`stmts_balanced`), so
that a run that does not fail ends as deep as it began (`Balanced.depth`). -/
namespace CodePrinter

/-- An instruction that neither changes the indentation nor stands for others. -/
def Instr.isFlat : Instr → Bool
  | .indent => false
  | .dedent => false
  | .template _ _ => false
  | _ => true

/-- Every indentation is taken back. -/
inductive Balanced : List Instr → Prop
  | nil : Balanced []
  | append {is js : List Instr} (hi : Balanced is) (hj : Balanced js) : Balanced (is ++ js)
  | flat {i : Instr} (h : i.isFlat = true) : Balanced [i]
  | template {source : String} {fill : List Template.Part → List Instr}
      (h : ∀ parts, Balanced (fill parts)) : Balanced [.template source fill]
  | nested {is : List Instr} (h : Balanced is) : Balanced (.indent :: is ++ [.dedent])

variable {i : Instr} {is : List Instr}

namespace Page

@[simp] theorem depth_startLine (unit : String) (p : Page) :
    (p.startLine unit).depth = p.depth := by
  unfold startLine
  split <;> rfl

@[simp] theorem depth_print (unit text : String) (p : Page) : (p.print unit text).depth = p.depth :=
  p.depth_startLine unit

@[simp] theorem depth_newline (p : Page) : p.newline.depth = p.depth := rfl

@[simp] theorem depth_endLine (p : Page) : p.endLine.depth = p.depth := by
  unfold endLine
  split <;> rfl

@[simp] theorem depth_snippetLine (unit text : String) (more : Bool) (p : Page) :
    (p.snippetLine unit text more).depth = p.depth := by
  unfold snippetLine
  extract_lets value
  split
  · rfl
  · split <;> simp

end Page

theorem Instr.depth_of_isFlat (set : Settings) (p : Pass) (h : i.isFlat = true) :
    (i.perform set p).pass.page.depth = p.page.depth := by
  cases i with
  | text value => exact p.page.depth_print set.indent value
  | mark loc =>
    rw [Instr.perform, Pass.mark_eq]
    exact p.page.depth_startLine set.indent
  | newline => rfl
  | endLine => exact p.page.depth_endLine
  | snippetLine value more => exact p.page.depth_snippetLine set.indent value more
  | problem what loc =>
    rw [Instr.perform, Pass.problem_eq]
    split <;> rfl
  | fail what => rfl
  | indent | dedent | template => cases h

/-- A run that does not fail ends as deep as it began. -/
theorem Balanced.depth {set : Settings} {p q : Pass} (h : Balanced is)
    (hp : perform set is p = { pass := q }) : q.page.depth = p.page.depth := by
  induction h generalizing p q with
  | nil =>
    rw [perform_nil] at hp
    cases hp
    rfl
  | append hi hj ihi ihj =>
    obtain ⟨r, hr, hq⟩ := perform_append_eq_pass.mp hp
    rw [ihj hq, ihi hr]
  | flat h =>
    have hdepth := Instr.depth_of_isFlat set p h
    rwa [← perform_singleton, hp] at hdepth
  | @template source fill h ih =>
    rw [perform_singleton, Instr.perform] at hp
    exact ih _ (p := { p with cache := (p.cache.split source).2 }) hp
  | nested h ih =>
    obtain ⟨r, hr, hq⟩ := perform_append_eq_pass.mp hp
    rw [perform_cons] at hr
    have hdepth : r.page.depth = p.page.depth + 1 := ih hr
    rw [perform_singleton] at hq
    cases hq
    exact Nat.sub_eq_of_eq_add hdepth

theorem Balanced.mark (loc : Option Location) : Balanced (markAt loc) := by
  cases loc with
  | none => exact nil
  | some loc => exact flat rfl

/-- Being balanced is no relation to other instructions, but it is kept in the same ways. -/
theorem congruence_balanced : Congruence fun is _ => Balanced is where
  nil := .nil
  append := .append
  plain := by
    intro i hi
    refine .flat ?_
    cases i with
    | text | newline | endLine | snippetLine | fail => rfl
    | _ => cases hi
  template := .template
  nested := by
    intro is _ last hlast h
    have hflat : last.isFlat = true := by rcases hlast with rfl | rfl <;> rfl
    have hinner : Balanced (.indent :: (is ++ [last]) ++ [.dedent]) :=
      .nested (.append h (.flat hflat))
    simpa using Balanced.append (.flat (i := .newline) rfl) hinner

theorem stmts_balanced (set : Settings) (ss : List Stmt) : Balanced (stmtsInstrs set ss) :=
  (Tree.stmts ss).rebuild_alike congruence_balanced
    (congruence_balanced.keeps_unlocated Balanced.mark fun _ _ => .flat rfl)

end CodePrinter
