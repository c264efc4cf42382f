import CodePrinter.Proofs.CacheHistory
import CodePrinter.Proofs.Pieces

/-! Passes that keep the mapping of every node.

Main statement: a run that can keep the mapping of every node that it prints is the run that checks
none of them (`Tree.render_withoutChecks`). -/
namespace CodePrinter

variable {set : Settings} {ns ms : List Node} {is : List Instr} {p q : Pass}

/-- The same settings, but for the check of mappings. -/
def Settings.withoutChecks (set : Settings) : Settings :=
  match set.maps with
  | .checked _ => { set with maps := .keep }
  | _ => set

namespace Settings

theorem withoutChecks_checked {source : String} (h : set.maps = .checked source) :
    set.withoutChecks = { set with maps := .keep } := by
  unfold withoutChecks
  rw [h]

theorem Unchecked.withoutChecks_eq (h : set.Unchecked) : set.withoutChecks = set := by
  unfold withoutChecks
  split
  · rename_i source hs
    exact absurd hs (h source)
  · rfl

theorem exists_checked (h : ¬ set.Unchecked) : ∃ source, set.maps = .checked source := by
  simpa [Unchecked] using h

theorem unchecked_default : Unchecked {} := by
  intro source h
  cases h

theorem unchecked_withoutChecks (set : Settings) : set.withoutChecks.Unchecked := by
  by_cases h : set.Unchecked
  · rwa [h.withoutChecks_eq]
  · obtain ⟨source, hs⟩ := exists_checked h
    rw [withoutChecks_checked hs]
    intro source h
    cases h

@[simp] theorem indent_withoutChecks (set : Settings) : set.withoutChecks.indent = set.indent := by
  unfold withoutChecks
  split <;> rfl

@[simp] theorem names_withoutChecks (set : Settings) : set.withoutChecks.names = set.names := by
  unfold withoutChecks
  split <;> rfl

@[simp] theorem fileName_withoutChecks (set : Settings) :
    set.withoutChecks.fileName = set.fileName := by
  unfold withoutChecks
  split <;> rfl

@[simp] theorem resolve_withoutChecks (set : Settings) :
    set.withoutChecks.resolve = set.resolve := by
  unfold withoutChecks
  split <;> rfl

end Settings

/-- A pass can keep the mappings of some nodes. If they are checked, it counts lines from one, its
store has the right parts of templates, the source has a name, and every node begins at a place that
a map can hold. -/
def Pass.Keeps (set : Settings) (p : Pass) (ns : List Node) : Prop :=
  ∀ source, set.maps = .checked source → 0 < p.page.line ∧ p.cache.Sound ∧
    ∀ n ∈ ns, ∀ loc ∈ n.loc, source ≠ "" ∧ 0 < loc.start.line ∧ 0 ≤ loc.start.column

theorem Settings.Unchecked.keeps (h : set.Unchecked) (p : Pass) (ns : List Node) :
    p.Keeps set ns := by
  intro source hs
  exact absurd hs (h source)

/-- A mapping that can be kept is kept. -/
theorem Pass.Keeps.mark_eq {n : Node} {loc : Location} {source : String}
    (hk : p.Keeps set (n :: ns)) (hl : n.loc = some loc) (hm : set.maps = .checked source) :
    p.mark set loc = p.mark { set with maps := .keep } loc := by
  obtain ⟨hline, -, hplaces⟩ := hk source hm
  obtain ⟨hsource, horigin, hcolumn⟩ := hplaces n (by simp) loc hl
  have hstart : (p.page.startLine set.indent).line = p.page.line := by
    unfold Page.startLine
    split <;> rfl
  have hfits : (Pass.mappingAt (p.page.startLine set.indent) loc).fits source = true := by
    simp [Mapping.fits, Pass.mappingAt, hstart, hline, hsource, horigin, hcolumn]
  simp [Pass.mark, hm, hfits]

theorem Pass.Keeps.mono (hk : p.Keeps set ns) (hms : ms ⊆ ns)
    (hline : 0 < p.page.line → 0 < q.page.line) (hcache : p.cache.Sound → q.cache.Sound) :
    q.Keeps set ms := by
  intro source hm
  obtain ⟨hpos, hsound, hplaces⟩ := hk source hm
  exact ⟨hline hpos, hcache hsound, fun n hn => hplaces n (hms hn)⟩

/-- A run that can keep every mapping does not notice that they are checked. -/
theorem Prints.perform_withoutChecks (h : Prints set ns is) (hk : p.Keeps set ns) :
    perform set is p = perform set.withoutChecks is p := by
  by_cases hu : set.Unchecked
  · rw [hu.withoutChecks_eq]
  obtain ⟨source, hs⟩ := Settings.exists_checked hu
  rw [Settings.withoutChecks_checked hs]
  induction is using instrs_induction generalizing ns p with
  | nil => rw [perform_nil, perform_nil]
  | cons i is hfill ih =>
    have hi : i.perform set p = i.perform { set with maps := .keep } p := by
      cases i with
      | mark loc =>
        obtain ⟨n, ms, -, -, rfl, hl, -⟩ := h.follows
        exact hk.mark_eq hl hs
      | template source fill =>
        obtain ⟨nodes, ms, rfl, hprints, -⟩ := h.follows
        rw [Instr.perform, Instr.perform, (hk _ hs).2.1.fst_split]
        apply hfill source fill rfl _ (hprints _)
        exact hk.mono (List.subset_append_left _ _) id fun hc => hc.snd_split source
      | _ => rfl
    obtain ⟨ms, hms, ht⟩ := h.tail
    rw [perform_cons, perform_cons, ← hi]
    unfold Outcome.andThen
    split
    · apply ih ht
      rw [← perform_singleton]
      exact hk.mono hms.subset (line_pos_perform set [i]) (sound_perform · [i])
    · rfl

/-- A tree whose mappings can all be kept is printed as if they were not checked. -/
theorem Tree.render_withoutChecks (t : Tree) (hk : p.Keeps set (t.located set.names)) :
    t.render set p = t.render set.withoutChecks p := by
  have hinstrs : t.instrs set = t.instrs set.withoutChecks :=
    t.instrs_congr set.names_withoutChecks.symm set.resolve_withoutChecks.symm
  rw [Tree.render_eq, Tree.render_eq, ← hinstrs]
  exact (t.prints set).perform_withoutChecks hk

theorem Expr.render_withoutChecks {e : Expr} (hk : p.Keeps set (e.located set.names)) :
    e.render set p = e.render set.withoutChecks p :=
  (Tree.expr e).render_withoutChecks hk

theorem renderStmts_withoutChecks {ss : List Stmt}
    (hk : p.Keeps set (stmtsLocated set.names ss)) :
    renderStmts set ss p = renderStmts set.withoutChecks ss p :=
  (Tree.stmts ss).render_withoutChecks hk

end CodePrinter
