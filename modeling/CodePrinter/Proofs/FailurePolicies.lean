import CodePrinter.Proofs.Pieces

/-! The two policies for problems, side by side.

Main statement: the fatal policy is the recovering one, stopped at the first problem that it stops
for (`fatal_stops_recovery`). -/
namespace CodePrinter

def Settings.under (set : Settings) (policy : FailurePolicy) : Settings := { set with policy }

namespace Diagnostic

/-- A diagnostic of a problem that the fatal policy stops at. -/
def stops (d : Diagnostic) : Bool :=
  d.code = Problem.mismatchCode || d.code = Problem.unimplementedCode

/-- The error that the fatal policy stops with instead. -/
def error (d : Diagnostic) : CompileError :=
  { message := d.message
    stage := if d.code = Problem.mismatchCode then .builder else .print
    loc := d.loc }

end Diagnostic

namespace Problem

variable {what : Problem}

theorem stops_diagnostic (set : Settings) (loc : Option Location) :
    (what.diagnostic set loc).stops = what.isFatal := by
  cases what <;> rfl

theorem error_diagnostic (set : Settings) (loc : Option Location) (h : what.isFatal = true) :
    (what.diagnostic set loc).error = { message := what.message, stage := what.stage, loc } := by
  cases what with
  | untestable type => cases h
  | mismatch type value | wideEnum | unimplemented construct => rfl

theorem code_of_not_isFatal (h : what.isFatal = false) : what.code = untestableCode := by
  cases what with
  | untestable type => rfl
  | mismatch type value | wideEnum | unimplemented construct => cases h

end Problem

/-- With some diagnostics there before, `f` is how far a run comes that stops at the first problem
of the run `r` that it can stop at. -/
inductive Stopped (ds : List Diagnostic) (r f : Outcome) : Prop
  | never (added : List Diagnostic) (hd : r.pass.diagnostics = ds ++ added)
      (hc : ∀ d ∈ added, d.code = Problem.untestableCode) (hf : f = r) : Stopped ds r f
  | early (before after : List Diagnostic) (d : Diagnostic)
      (hd : r.pass.diagnostics = ds ++ (before ++ d :: after))
      (hc : ∀ b ∈ before, b.code = Problem.untestableCode) (hs : d.stops = true)
      (hf : f.failure = some (.compile d.error))
      (hb : f.pass.diagnostics = ds ++ before) (he : f.pass.Extends r.pass) :
      Stopped ds r f

namespace Stopped

variable {ds : List Diagnostic} {r f o : Outcome} {next next' : Pass → Outcome}

theorem same (h : o.pass.diagnostics = ds) : Stopped ds o o :=
  .never [] (by simp [h]) (by simp) rfl

/-- If a run is stopped, whatever comes after it is left out. -/
theorem andThen (h : Stopped ds r f) (he : r.pass.Extends (next r.pass).pass)
    (hn : Stopped r.pass.diagnostics (next r.pass) (next' r.pass)) :
    Stopped ds (r.andThen next) (f.andThen next') := by
  cases h with
  | never added hd hc hf =>
    subst hf
    cases hr : f.failure with
    | some failure =>
      rw [Outcome.andThen, Outcome.andThen, hr]
      exact .never added hd hc rfl
    | none =>
      rw [Outcome.andThen, Outcome.andThen, hr]
      cases hn with
      | never more hd' hc' hf' =>
        refine .never (added ++ more) ?_ ?_ hf'
        · rw [hd', hd, List.append_assoc]
        · intro d hm
          rcases List.mem_append.mp hm with hm | hm
          · exact hc d hm
          · exact hc' d hm
      | early before after d hd' hc' hs hf' hb he' =>
        refine .early (added ++ before) after d ?_ ?_ hs hf' ?_ he'
        · rw [hd', hd, List.append_assoc, List.append_assoc]
        · intro b hm
          rcases List.mem_append.mp hm with hm | hm
          · exact hc b hm
          · exact hc' b hm
        · rw [hb, hd, List.append_assoc]
  | early before after d hd hc hs hf hb he' =>
    have hstop : f.andThen next' = f := by rw [Outcome.andThen, hf]
    rw [hstop]
    have hmore : r.pass.Extends (r.andThen next).pass := Pass.Extends.andThen (.refl _) he
    obtain ⟨more, hm⟩ := hmore.diagnostics
    refine .early before (after ++ more) d ?_ hc hs hf hb (he'.trans hmore)
    rw [← hm, hd]
    simp

end Stopped

theorem stopped_problem (set : Settings) (what : Problem) (loc : Option Location) (p : Pass) :
    Stopped p.diagnostics (p.problem (set.under .recover) what loc)
      (p.problem (set.under .fatal) what loc) := by
  have hrecover : p.problem (set.under .recover) what loc =
      { pass := { p with diagnostics := p.diagnostics ++ [what.diagnostic set loc] } } := by
    rw [Pass.problem_eq, if_neg (by simp [Settings.under])]
    rfl
  rw [hrecover, Pass.problem_eq]
  cases hf : what.isFatal with
  | true =>
    refine .early [] [] (what.diagnostic set loc) rfl (by simp) ?_ ?_ (by simp [Settings.under]) ?_
    · rw [what.stops_diagnostic, hf]
    · rw [what.error_diagnostic set loc hf]
      rfl
    · exact ⟨List.prefix_rfl, List.prefix_rfl, List.prefix_append _ _⟩
  | false =>
    refine .never [what.diagnostic set loc] rfl ?_ rfl
    intro d hd
    obtain rfl := List.mem_singleton.mp hd
    exact what.code_of_not_isFatal hf

theorem stopped_perform (set : Settings) (is : List Instr) (p : Pass) :
    Stopped p.diagnostics (perform (set.under .recover) is p)
      (perform (set.under .fatal) is p) := by
  induction is using instrs_induction generalizing p with
  | nil =>
    rw [perform_nil, perform_nil]
    exact .same rfl
  | cons i is hfill ih =>
    rw [perform_cons, perform_cons]
    refine Stopped.andThen ?_ (perform_extends _ is _) (ih _)
    cases i with
    | template source fill =>
      rw [Instr.perform, Instr.perform]
      exact hfill source fill rfl _ { p with cache := (p.cache.split source).2 }
    | problem what loc =>
      rw [Instr.perform, Instr.perform]
      exact stopped_problem set what loc p
    | mark loc =>
      have hdiagnostics : (p.mark (set.under .recover) loc).pass.diagnostics = p.diagnostics := by
        rw [Pass.mark_eq]
      rw [Instr.perform, Instr.perform]
      exact .same hdiagnostics
    | _ =>
      rw [Instr.perform, Instr.perform]
      exact .same rfl

/-- A compile error of a run is one that a path was resolved with, or a problem that the fatal
policy stops at. -/
theorem Prints.compile_error {set run : Settings} {ns : List Node} {is : List Instr} {p : Pass}
    {e : CompileError} (h : Prints set ns is)
    (he : (perform run is p).failure = some (.compile e)) :
    (∃ path, set.resolve path = .error (.compile e)) ∨ run.policy = .fatal ∧ e.notes = [] := by
  induction is using instrs_induction generalizing ns p with
  | nil =>
    rw [perform_nil] at he
    cases he
  | cons i is hfill ih =>
    rw [perform_cons, Outcome.andThen] at he
    split at he
    · obtain ⟨ms, -, ht⟩ := h.tail
      exact ih ht he
    · have hi := h.follows
      cases i with
      | mark loc =>
        rw [Instr.perform, Pass.mark_eq] at he
        simp only [Settings.refusal] at he
        split at he
        · split at he <;> cases he
        · cases he
      | template source fill =>
        obtain ⟨nodes, ms, -, hnodes, -⟩ := hi
        rw [Instr.perform] at he
        exact hfill source fill rfl _ (hnodes _) he
      | problem what loc =>
        rw [Instr.perform, Pass.problem_eq] at he
        split at he
        · rename_i hfatal
          cases he
          exact .inr ⟨hfatal.2, rfl⟩
        · cases he
      | fail what =>
        rw [Instr.perform] at he
        exact .inl (hi.1 e (Option.some.inj he))
      | _ =>
        rw [Instr.perform] at he
        cases he

/-- A recovering run never ends with a compile error of its own: one can only come from the paths of
modules. Unless it adds a diagnostic that the fatal policy stops for, the fatal run does all the
same. If it does, the fatal run ends with the error of the first such diagnostic, after what the
recovering run did before. -/
theorem fatal_stops_recovery (set : Settings) (p : Pass) (tree : Tree) :
    let recovered := tree.render (set.under .recover) p
    let fatal := tree.render (set.under .fatal) p
    (∀ e, recovered.failure = some (.compile e) →
      ∃ path, set.resolve path = .error (.compile e)) ∧
    ∃ added, recovered.pass.diagnostics = p.diagnostics ++ added ∧
      (added.find? Diagnostic.stops = none → fatal = recovered) ∧
      ∀ d, added.find? Diagnostic.stops = some d →
        let before := added.takeWhile (!·.stops)
        fatal.failure = some (.compile
          { message := d.message
            stage := if d.code = "PY002" then .builder else .print
            loc := d.loc }) ∧
        fatal.pass.diagnostics = p.diagnostics ++ before ∧
        (∀ b ∈ before, b.code = "PY001") ∧
        fatal.pass.page.pending.toList <+: recovered.pass.page.pending.toList ∧
        fatal.pass.mappings <+: recovered.pass.mappings := by
  intro recovered fatal
  have hinstrs : ∀ policy, tree.instrs (set.under policy) = tree.instrs set := by
    intro policy
    apply Tree.instrs_congr <;> rfl
  have hrecovered : recovered = perform (set.under .recover) (tree.instrs set) p := by
    simp only [recovered, tree.render_eq, hinstrs]
  have hfatal : fatal = perform (set.under .fatal) (tree.instrs set) p := by
    simp only [fatal, tree.render_eq, hinstrs]
  rw [hrecovered, hfatal]
  refine ⟨?_, ?_⟩
  · intro e he
    rcases (tree.prints set).compile_error he with hpath | ⟨hpolicy, -⟩
    · exact hpath
    · cases hpolicy
  have hgo : ∀ b : Diagnostic, b.code = Problem.untestableCode → b.stops = false := by
    intro b hb
    rw [Diagnostic.stops, hb]
    rfl
  cases stopped_perform set (tree.instrs set) p with
  | never added hd hc hf =>
    have hnone : added.find? Diagnostic.stops = none := by
      rw [List.find?_eq_none]
      intro d hm
      simp [hgo d (hc d hm)]
    refine ⟨added, hd, fun _ => hf, ?_⟩
    intro d hs
    rw [hnone] at hs
    cases hs
  | early before after d hd hc hs hf hb he =>
    have hbefore : ∀ b ∈ before, (!b.stops) = true := by
      intro b hm
      rw [hgo b (hc b hm)]
      rfl
    have hfind : (before ++ d :: after).find? Diagnostic.stops = some d := by
      rw [List.find?_append, List.find?_eq_none.mpr (by simpa using hbefore)]
      simp [hs]
    have htake : (before ++ d :: after).takeWhile (!·.stops) = before := by
      rw [List.takeWhile_append_of_pos hbefore]
      simp [hs]
    refine ⟨before ++ d :: after, hd, ?_, ?_⟩
    · intro hnone
      rw [hfind] at hnone
      cases hnone
    · intro d' hd'
      rw [hfind] at hd'
      cases hd'
      rw [htake]
      exact ⟨hf, hb, hc, he.pending, he.mappings⟩

end CodePrinter
