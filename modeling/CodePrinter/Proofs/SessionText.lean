import CodePrinter.Proofs.SeparateRuns
import CodePrinter.Session

/-! The text of a session.

A flush clears the pending text whether or not it could be written, so a session can lose text once
its sink is closed, and only then. Main statement: what was written, what was lost and what is
pending make up, in this order, what was printed (`written_lost_pending`). -/
namespace CodePrinter

variable {set : Settings} {s u : Session} {x : Step} {xs : List Step} {t : String}

/-- A step that leaves the sink alone. -/
def Step.prints : Step → Bool
  | .flush => false
  | .close => false
  | _ => true

/-- The pass, after some text that was printed before. -/
def Pass.after (t : String) (p : Pass) : Pass :=
  { p with page := { p.page with pending := t ++ p.page.pending } }

theorem Pass.below_eq_after (t : String) (p : Pass) :
    p.below { page := { pending := t } } = p.after t := by
  have hmapping : Mapping.below 0 = id := by
    funext m
    simp [Mapping.below]
  simp [Pass.below, Page.below, Pass.after, hmapping]

theorem Pass.after_empty (p : Pass) : p.after "" = p := by
  simp [Pass.after]

/-- Text that was printed before has no part in a run. -/
theorem perform_after (set : Settings) (t : String) (is : List Instr) {p : Pass}
    (hp : 0 < p.page.line) :
    (perform set is (p.after t)).pass = (perform set is p).pass.after t := by
  have hbelow := (perform_below set { page := { pending := t } } is hp).pass
  rwa [Pass.below_eq_after, Pass.below_eq_after] at hbelow

namespace Session

/-- What a session prints: the text that would be pending at its end if nothing were handed over. -/
def printed (set : Settings) (xs : List Step) (s : Session) : String :=
  (run set (xs.filter Step.prints) s).2.pass.page.pending

/-- The texts that were pending when a flush failed. -/
def lost (set : Settings) : List Step → Session → List String
  | [], _ => []
  | x :: xs, s =>
    match x, (s.step set x).failure with
    | .flush, some _ => s.pass.page.pending :: lost set xs (s.step set x).session
    | _, _ => lost set xs (s.step set x).session

theorem run_cons (set : Settings) (x : Step) (xs : List Step) (s : Session) :
    run set (x :: xs) s =
      (s.step set x :: (run set xs (s.step set x).session).1,
        (run set xs (s.step set x).session).2) := rfl

theorem lost_cons (set : Settings) (x : Step) (xs : List Step) (s : Session) :
    lost set (x :: xs) s = lost set [x] s ++ lost set xs (s.step set x).session := by
  simp only [lost]
  split <;> rfl

/-- A step that prints is a run on the page. -/
theorem step_of_prints (set : Settings) (s : Session) (hx : x.prints = true) :
    (s.step set x).session =
      { s with pass := (perform set (x.instrs set) s.pass).pass } := by
  cases x with
  | flush | close => cases hx
  | importPath path =>
    simp only [step, Step.instrs, perform_nil]
    split <;> rfl
  | _ => rfl

theorem lost_of_prints (set : Settings) (s : Session) (hx : x.prints = true) :
    lost set (x :: xs) s = lost set xs (s.step set x).session := by
  cases x with
  | flush => cases hx
  | _ => rfl

/-- What a flush does: there is nothing to write, or it is written, or the sink is closed. -/
theorem flush_cases (s : Session) :
    (s.pass.page.pending = "" ∧ s.flush = { session := s }) ∨
    (s.pass.page.pending ≠ "" ∧ s.sink.closed = false ∧
      s.flush = { session :=
        { pass := { s.pass with page := s.pass.page.flush }
          sink := { s.sink with chunks := s.sink.chunks ++ [s.pass.page.pending] } } }) ∨
    (s.pass.page.pending ≠ "" ∧ s.sink.closed = true ∧
      s.flush = { session := { s with pass := { s.pass with page := s.pass.page.flush } }
                  failure := some (.fault .writeAfterClose) }) := by
  by_cases hp : s.pass.page.pending = ""
  · have hpage : s.pass.page.flush = s.pass.page := by
      rw [Page.flush, ← hp]
    refine .inl ⟨hp, ?_⟩
    rw [flush, if_pos hp, hpage]
  · refine .inr ?_
    cases hc : s.sink.closed with
    | false =>
      refine .inl ⟨hp, rfl, ?_⟩
      simp [flush, hp, Memory.write, hc]
    | true =>
      refine .inr ⟨hp, rfl, ?_⟩
      simp [flush, hp, Memory.write, hc]

/-- Two sessions that have printed the same, the second without handing over anything. Text can
only be missing from the sink of the first if that is closed. -/
structure Withheld (missing : String) (s u : Session) : Prop where
  pass : u.pass = s.pass.after (s.sink.text ++ missing)
  closed : missing = "" ∨ s.sink.closed = true
  line : 0 < s.pass.page.line

namespace Withheld

variable {missing : String}

theorem prints (h : Withheld missing s u) (hx : x.prints = true) :
    Withheld missing (s.step set x).session (u.step set x).session := by
  rw [step_of_prints set s hx, step_of_prints set u hx]
  refine ⟨?_, h.closed, line_pos_perform set _ h.line⟩
  rw [h.pass]
  exact perform_after set _ _ h.line

theorem close (set : Settings) (h : Withheld missing s u) :
    Withheld missing (s.step set .close).session u :=
  ⟨h.pass, .inr rfl, h.line⟩

theorem flush (h : Withheld missing s u) :
    Withheld (missing ++ String.join (lost set [.flush] s)) (s.step set .flush).session u := by
  rcases s.flush_cases with ⟨-, hf⟩ | ⟨-, hc, hf⟩ | ⟨-, hc, hf⟩
  · simpa [lost, step, hf] using h
  · have hmissing : missing = "" := by simpa [hc] using h.closed
    have hpass := h.pass
    simp only [hmissing, String.append_empty] at hpass
    simp only [lost, step, hf, hmissing]
    refine ⟨?_, .inl rfl, h.line⟩
    rw [hpass]
    simp [Pass.after, Page.flush, Memory.text]
  · simp only [lost, step, hf]
    refine ⟨?_, .inr hc, h.line⟩
    rw [h.pass]
    simp [Pass.after, Page.flush, String.append_assoc]

/-- What is written, lost and pending, along a whole session. -/
theorem run (set : Settings) (xs : List Step) (h : Withheld missing s u) :
    Withheld (missing ++ String.join (lost set xs s)) (Session.run set xs s).2
      (Session.run set (xs.filter Step.prints) u).2 := by
  induction xs generalizing missing s u with
  | nil => simpa [Session.run, lost] using h
  | cons x xs ih =>
    cases hx : x.prints with
    | true =>
      rw [List.filter_cons_of_pos hx, run_cons, run_cons, lost_of_prints set s hx]
      exact ih (h.prints hx)
    | false =>
      rw [List.filter_cons_of_neg (by simp [hx]), run_cons, lost_cons, String.join_append,
        ← String.append_assoc]
      cases x with
      | flush => exact ih h.flush
      | close => simpa [lost, step] using ih (h.close set)
      | _ => cases hx

end Withheld

/-- Nothing is lost as long as no flush fails. -/
theorem lost_eq_nil (set : Settings) (xs : List Step) (s : Session)
    (h : ∀ result ∈ (run set xs s).1, result.failure ≠ some (.fault .writeAfterClose)) :
    lost set xs s = [] := by
  induction xs generalizing s with
  | nil => rfl
  | cons x xs ih =>
    rw [run_cons] at h
    have hrest := ih (s.step set x).session fun result hr => h result (List.mem_cons_of_mem _ hr)
    rw [lost_cons, hrest, List.append_nil]
    cases x with
    | flush =>
      have hfirst : s.flush.failure ≠ some (.fault .writeAfterClose) := h _ List.mem_cons_self
      rcases s.flush_cases with ⟨-, hf⟩ | ⟨-, -, hf⟩ | ⟨-, -, hf⟩
      · simp [lost, step, hf]
      · simp [lost, step, hf]
      · simp [hf] at hfirst
    | _ => rfl

/-- Whatever a session does, what was written, what was lost by flushes that failed and what is
pending is what was printed; while no flush has failed, what was written and what is pending is. A
flush fails if the sink is closed and there is something to write. Then the sink stays as it is, and
the pending text is gone as if it had been written. -/
theorem written_lost_pending (set : Settings) (diagnostics : List Diagnostic)
    (cache : Template.Cache) (xs : List Step) :
    let start : Session := { pass := { diagnostics, cache } }
    let s := (run set xs start).2
    let flushed := s.step set .flush
    s.sink.text ++ String.join (lost set xs start) ++ s.pass.page.pending =
      printed set xs start ∧
    ((∀ result ∈ (run set xs start).1, result.failure ≠ some (.fault .writeAfterClose)) →
      s.sink.text ++ s.pass.page.pending = printed set xs start) ∧
    flushed.session.pass = { s.pass with page := { s.pass.page with pending := "" } } ∧
    (s.sink.closed = false ∨ s.pass.page.pending = "" →
      flushed.failure = none ∧ flushed.session.sink.text = s.sink.text ++ s.pass.page.pending) ∧
    (s.sink.closed = true → s.pass.page.pending ≠ "" →
      flushed.failure = some (.fault .writeAfterClose) ∧ flushed.session.sink = s.sink) := by
  intro start s flushed
  have hstart : Withheld "" start start := ⟨start.pass.after_empty.symm, .inl rfl, Nat.one_pos⟩
  have hpass := (hstart.run set xs).pass
  rw [String.empty_append] at hpass
  have htext : s.sink.text ++ String.join (lost set xs start) ++ s.pass.page.pending =
      printed set xs start := by
    rw [printed, hpass]
    rfl
  refine ⟨htext, ?_, ?_⟩
  · intro h
    rwa [lost_eq_nil set xs start h, String.join_nil, String.append_empty] at htext
  · change s.flush.session.pass = _ ∧ (_ → s.flush.failure = _ ∧ s.flush.session.sink.text = _) ∧
      (_ → _ → s.flush.failure = _ ∧ s.flush.session.sink = _)
    rcases s.flush_cases with ⟨hp, hf⟩ | ⟨hp, hc, hf⟩ | ⟨hp, hc, hf⟩
    · rw [hf]
      refine ⟨?_, fun _ => ⟨rfl, by rw [hp, String.append_empty]⟩, fun _ h => absurd hp h⟩
      rw [← hp]
    · rw [hf, hc]
      exact ⟨rfl, fun _ => ⟨rfl, by simp [Memory.text]⟩, fun h => by cases h⟩
    · rw [hf, hc]
      exact ⟨rfl, fun h => by simp [hp] at h, fun _ _ => ⟨rfl, rfl⟩⟩

/-- A text that is flushed to a closed sink is neither written nor pending. -/
example :
    let steps : List Step := [.print "x" none, .close, .flush]
    let s := (run {} steps {}).2
    s.sink.text = "" ∧ s.pass.page.pending = "" ∧ printed {} steps {} = "x" := by
  decide +kernel

end Session

end CodePrinter
