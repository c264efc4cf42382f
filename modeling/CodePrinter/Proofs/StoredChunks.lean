import CodePrinter.ModulePass

/-! The chunks that a module pass leaves in its sink, under every disturbance.

What a module prints is fixed before anything is written: a list of instructions for each chunk.
Main statement: a disturbed pass stores a beginning of these chunks, whole and in order
(`stored_chunks`). -/
namespace CodePrinter

/-- The instructions of the chunks of a module: those of the leading imports, and then those of
each declaration. -/
def moduleInstrs (set : Settings) (body : List Stmt) : List (List Instr) :=
  (stmtsInstrs set (splitImports body).1 ++ [.newline]) ::
    (splitImports body).2.map fun decl => decl.instrs set ++ [.endLine, .newline]

def Pass.flush (p : Pass) : Pass := { p with page := p.page.flush }

/-- The state after some chunks are printed and flushed, if all of them can be. -/
def passAfter? (set : Settings) : List (List Instr) → Pass → Option Pass
  | [], p => some p
  | is :: rest, p =>
    match perform set is p with
    | { pass, failure := none } => passAfter? set rest pass.flush
    | _ => none

/-- The texts of chunks, up to the first one that cannot be printed. -/
def chunkTexts (set : Settings) : List (List Instr) → Pass → List String
  | [], _ => []
  | is :: rest, p =>
    match perform set is p with
    | { pass, failure := none } => pass.page.pending :: chunkTexts set rest pass.flush
    | _ => []

/-- The number of writes after which no write succeeds. -/
def Disturbance.writeLimit? (d : Disturbance) : Option Nat :=
  (d.failingWrite.filter fun w => 0 < w.1).map fun w => w.1 - 1

/-- The number of writes after which the pass is cancelled. -/
def Disturbance.cancelLimit? (d : Disturbance) : Option Nat :=
  if d.cancelledBefore then some 0 else d.cancelledAfter.filter (0 < ·)

/-- How many of a number of chunks reach the sink. -/
def Disturbance.reach (d : Disturbance) (count : Nat) : Nat :=
  min (d.cancelLimit?.getD count) (min (d.writeLimit?.getD count) count)

namespace Disturbance

variable {d : Disturbance} {c : Nat} {m : Memory}

theorem cancelled_iff (d : Disturbance) (m : Memory) :
    d.cancelled m = true ↔ ∃ n, d.cancelLimit? = some n ∧ n ≤ m.chunks.length := by
  unfold cancelled cancelLimit?
  cases d.cancelledBefore with
  | true => simp
  | false =>
    cases d.cancelledAfter with
    | none => simp
    | some n => by_cases hn : 0 < n <;> simp [Option.filter, hn]

theorem write_of_limit (chunk : String) (h : d.writeLimit? = some m.chunks.length) :
    ∃ fault, d.write chunk m = (m, some fault) := by
  obtain ⟨⟨n, fault⟩, hw, hn⟩ := Option.map_eq_some_iff.mp h
  obtain ⟨hw, hpos⟩ := Option.filter_eq_some_iff.mp hw
  refine ⟨fault, ?_⟩
  have hn : m.chunks.length + 1 = n := by simp at hpos hn; omega
  simp [write, hw, hn]

theorem write_of_not_limit (chunk : String) (h : d.writeLimit? ≠ some m.chunks.length) :
    d.write chunk m = m.write chunk := by
  unfold write
  split
  · rename_i n fault hw
    rw [if_neg]
    intro hn
    subst hn
    simp [writeLimit?, hw] at h
  · rfl

theorem reach_zero (d : Disturbance) : d.reach 0 = 0 := by simp [reach]

/-- A pass that is cancelled stores no further chunk. -/
theorem reach_of_cancelled (hc : d.reach m.chunks.length = m.chunks.length)
    (h : d.cancelled m = true) (more : Nat) :
    d.reach (m.chunks.length + more) = m.chunks.length := by
  obtain ⟨n, hn, hle⟩ := (d.cancelled_iff m).mp h
  unfold reach at hc ⊢
  cases hw : d.writeLimit? <;> simp only [hn, hw, Option.getD_some, Option.getD_none] at hc ⊢ <;>
    omega

theorem reach_of_limit (hc : d.reach c = c) (h : d.writeLimit? = some c) (more : Nat) :
    d.reach (c + more) = c := by
  unfold reach at hc ⊢
  cases hn : d.cancelLimit? <;> simp only [hn, h, Option.getD_some, Option.getD_none] at hc ⊢ <;>
    omega

/-- A pass that is not cancelled stores one more chunk, unless the write fails. -/
theorem reach_succ (hc : d.reach m.chunks.length = m.chunks.length)
    (h : d.cancelled m = false) (hw : d.writeLimit? ≠ some m.chunks.length) :
    d.reach (m.chunks.length + 1) = m.chunks.length + 1 := by
  have hn : ∀ n, d.cancelLimit? = some n → m.chunks.length < n := by
    intro n hn
    apply Nat.lt_of_not_le
    intro hle
    have hc := (d.cancelled_iff m).mpr ⟨n, hn, hle⟩
    simp [h] at hc
  unfold reach at hc ⊢
  cases hl : d.cancelLimit? <;> cases hv : d.writeLimit? <;> simp_all <;> omega

end Disturbance

namespace ModulePass

variable {set : Settings} {d : Disturbance} {decl : Stmt} {is : List Instr}
  {s : State Memory}

/-- What printing and flushing one chunk can come to: it cannot be printed, or it is printed and
lost with a failing write, or it is stored. -/
inductive ChunkStep (set : Settings) (d : Disturbance) (is : List Instr) (s : State Memory) :
    Progress Memory → Prop
  | unprinted {p : Progress Memory} (hp : (perform set is s.pass).failure ≠ none)
      (hf : p.failure ≠ none) (hs : p.state.sink = s.sink)
      (hn : p.state.printed = s.printed) : ChunkStep set d is s p
  | lost {p : Progress Memory} {q : Pass} (hp : perform set is s.pass = { pass := q })
      (hl : d.writeLimit? = some s.sink.chunks.length) (hf : p.failure ≠ none)
      (hs : p.state.sink = s.sink) (hn : p.state.printed = s.printed) : ChunkStep set d is s p
  | stored {t : State Memory} {q : Pass} (hp : perform set is s.pass = { pass := q })
      (hl : d.writeLimit? ≠ some s.sink.chunks.length) (ht : t.pass = q.flush)
      (hs : t.sink = { s.sink with chunks := s.sink.chunks ++ [q.page.pending] })
      (hn : t.printed = s.printed) : ChunkStep set d is s { state := t }

theorem flush_chunkStep {q : Pass} (ho : s.sink.closed = false)
    (hp : perform set is s.pass = { pass := q }) (hq : q.page.pending ≠ "") :
    ChunkStep set d is s (flush d.sink { s with pass := q }) := by
  by_cases hl : d.writeLimit? = some s.sink.chunks.length
  · obtain ⟨fault, hw⟩ := Disturbance.write_of_limit q.page.pending hl
    apply ChunkStep.lost hp hl <;> simp [flush, hq, Disturbance.sink, hw]
  · have hw := Disturbance.write_of_not_limit q.page.pending hl
    have hm : s.sink.write q.page.pending =
        ({ s.sink with chunks := s.sink.chunks ++ [q.page.pending] }, none) := by
      simp [Memory.write, ho]
    rw [hm] at hw
    simp only [flush, hq, Disturbance.sink, hw, if_false]
    exact ChunkStep.stored hp hl rfl rfl rfl

theorem pending_perform_newline {p q : Pass}
    (h : perform set (is ++ [.newline]) p = { pass := q }) : q.page.pending ≠ "" := by
  rw [perform_append] at h
  generalize perform set is p = o at h
  rcases o with ⟨r, _ | failure⟩
  · simp only [Outcome.andThen, perform_cons, perform_nil, Instr.perform, Pass.onPage,
      Outcome.mk.injEq, and_true] at h
    simp [← h, Page.newline]
  · simp [Outcome.andThen] at h

theorem imports_chunkStep (set : Settings) (d : Disturbance) (stmts : List Stmt)
    (ho : s.sink.closed = false) :
    ChunkStep set d (stmtsInstrs set stmts ++ [.newline]) s (imports set d.sink stmts s) := by
  unfold imports
  rcases hp : perform set (stmtsInstrs set stmts ++ [.newline]) s.pass with ⟨q, _ | failure⟩
  · rw [hp]
    exact flush_chunkStep ho hp (pending_perform_newline hp)
  · rw [hp]
    exact ChunkStep.unprinted (by simp [hp]) (by simp) rfl rfl

theorem perform_declaration (set : Settings) (decl : Stmt) (p : Pass) :
    perform set (decl.instrs set ++ [.endLine, .newline]) p =
      (perform set (decl.instrs set) p).andThen fun q =>
        { pass := { q with page := q.page.endLine.newline } } := by
  rw [perform_append]
  congr 1

theorem declaration_chunkStep (set : Settings) (d : Disturbance) (decl : Stmt)
    (ho : s.sink.closed = false) :
    ChunkStep set d (decl.instrs set ++ [.endLine, .newline]) s
      (declaration set d.sink decl s) := by
  have hd := perform_declaration set decl s.pass
  unfold declaration
  rcases hp : perform set (decl.instrs set) s.pass with ⟨q, _ | failure⟩
  · rw [hp] at hd
    exact flush_chunkStep ho hd (by simp [Page.newline])
  · rw [hp] at hd
    exact ChunkStep.unprinted (by simp [hd, Outcome.andThen]) (by simp) rfl rfl

/-- Every declaration up to the end of the pass is stored whole. -/
theorem declarations_chunks (set : Settings) (decls : List Stmt) (ho : s.sink.closed = false)
    (hr : d.reach s.sink.chunks.length = s.sink.chunks.length) :
    let texts := chunkTexts set (decls.map fun decl => decl.instrs set ++ [.endLine, .newline])
      s.pass
    (declarations set d.sink d.cancelled decls s).state.sink.chunks =
      (s.sink.chunks ++ texts).take (d.reach (s.sink.chunks.length + texts.length)) := by
  induction decls generalizing s with
  | nil => simp [declarations, chunkTexts, hr]
  | cons decl decls ih =>
    simp only [declarations, List.map_cons]
    by_cases hc : d.cancelled s.sink = true
    · rw [if_pos hc, Disturbance.reach_of_cancelled hr hc]
      simp
    · rw [if_neg hc]
      have hstep := declaration_chunkStep set d decl ho
      generalize declaration set d.sink decl s = p at hstep
      cases hstep with
      | unprinted hp hf hs hn =>
        rcases hq : perform set (decl.instrs set ++ [.endLine, .newline]) s.pass with ⟨q, _ | e⟩
        · simp [hq] at hp
        · rcases p with ⟨t, _ | failure, cancelled⟩
          · simp at hf
          · simpa [chunkTexts, hq, hr] using congrArg Memory.chunks hs
      | lost hp hl hf hs hn =>
        rcases p with ⟨t, _ | failure, cancelled⟩
        · simp at hf
        · rw [Disturbance.reach_of_limit hr hl]
          simpa using congrArg Memory.chunks hs
      | @stored t q hp hl ht hs hn =>
        have hlen : t.sink.chunks = s.sink.chunks ++ [q.page.pending] := by rw [hs]
        have hsucc : d.reach t.sink.chunks.length = t.sink.chunks.length := by
          simpa [hlen] using Disturbance.reach_succ hr (by simpa using hc) hl
        have := ih (s := { t with printed := t.printed + 1 }) (by rw [hs]; exact ho) hsucc
        simp only [chunkTexts, hp, ht, hlen] at this ⊢
        simpa [Nat.add_assoc, Nat.add_comm, Nat.add_left_comm] using this

/-- Declarations are counted as they are stored. -/
theorem declarations_printed (set : Settings) (d : Disturbance) (decls : List Stmt)
    (ho : s.sink.closed = false) :
    (declarations set d.sink d.cancelled decls s).state.sink.chunks.length + s.printed =
      s.sink.chunks.length + (declarations set d.sink d.cancelled decls s).state.printed := by
  induction decls generalizing s with
  | nil => simp [declarations]
  | cons decl decls ih =>
    simp only [declarations]
    by_cases hc : d.cancelled s.sink = true
    · simp [hc]
    · rw [if_neg hc]
      have hstep := declaration_chunkStep set d decl ho
      generalize declaration set d.sink decl s = p at hstep
      cases hstep with
      | unprinted hp hf hs hn | lost hp hl hf hs hn =>
        rcases p with ⟨t, _ | failure, cancelled⟩
        · simp at hf
        · simp only at hs hn ⊢
          rw [hs, hn]
      | @stored t q hp hl ht hs hn =>
        have := ih (s := { t with printed := t.printed + 1 }) (by rw [hs]; exact ho)
        simp only [hs, hn, List.length_append, List.length_singleton] at this ⊢
        omega

/-- A pass that does not fail is cancelled exactly if a declaration is left. -/
theorem declarations_cancelled (decls : List Stmt) (ho : s.sink.closed = false)
    (hf : (declarations set d.sink d.cancelled decls s).failure = none) :
    (declarations set d.sink d.cancelled decls s).state.printed ≤ s.printed + decls.length ∧
    ((declarations set d.sink d.cancelled decls s).cancelled = true ↔
      (declarations set d.sink d.cancelled decls s).state.printed < s.printed + decls.length) := by
  induction decls generalizing s with
  | nil => simp [declarations]
  | cons decl decls ih =>
    simp only [declarations] at hf ⊢
    by_cases hc : d.cancelled s.sink = true
    · simp [hc]
    · rw [if_neg hc] at hf ⊢
      have hstep := declaration_chunkStep set d decl ho
      generalize declaration set d.sink decl s = p at hstep hf
      cases hstep with
      | unprinted hp hf' hs hn | lost hp hl hf' hs hn =>
        rcases p with ⟨t, _ | failure, cancelled⟩
        · simp at hf'
        · simp at hf
      | @stored t q hp hl ht hs hn =>
        have := ih (s := { t with printed := t.printed + 1 }) (by rw [hs]; exact ho) hf
        simp only [hn, List.length_cons] at this ⊢
        rw [show s.printed + (decls.length + 1) = s.printed + 1 + decls.length by omega]
        exact this

theorem cancelled_empty (d : Disturbance) : d.cancelled {} = d.cancelledBefore := by
  unfold Disturbance.cancelled
  cases d.cancelledAfter with
  | none => exact Bool.or_false _
  | some n =>
    have hn : (decide (0 < n) && decide (n ≤ 0)) = false := by
      rw [← Bool.decide_and, decide_eq_false_iff_not]
      omega
    exact (congrArg _ hn).trans (Bool.or_false _)

theorem chunks_stored (set : Settings) (d : Disturbance) (body : List Stmt) (pass : Pass) :
    let texts := chunkTexts set (moduleInstrs set body) pass
    (chunks set d.sink d.cancelled body { pass, sink := {} }).state.sink.chunks =
      texts.take (d.reach texts.length) := by
  unfold chunks
  by_cases hc : d.cancelled {} = true
  · have hr := Disturbance.reach_of_cancelled d.reach_zero hc
    simp only [List.length_nil, Nat.zero_add] at hr
    simp [hc, hr]
  · rw [if_neg hc]
    have hstep := imports_chunkStep set d (splitImports body).1
      (s := { pass, sink := {} }) rfl
    generalize imports set d.sink (splitImports body).1 { pass, sink := {} } = p at hstep
    simp only [moduleInstrs, chunkTexts]
    cases hstep with
    | unprinted hp hf hs hn =>
      rcases hq : perform set (stmtsInstrs set (splitImports body).1 ++ [.newline]) pass with
        ⟨q, _ | e⟩
      · simp [hq] at hp
      · rcases p with ⟨t, _ | failure, cancelled⟩
        · simp at hf
        · simpa [hq] using congrArg Memory.chunks hs
    | lost hp hl hf hs hn =>
      rcases p with ⟨t, _ | failure, cancelled⟩
      · simp at hf
      · have hr := Disturbance.reach_of_limit d.reach_zero hl
        simp only [Nat.zero_add] at hr
        simpa [hr] using congrArg Memory.chunks hs
    | @stored t q hp hl ht hs hn =>
      have hlen : t.sink.chunks = [q.page.pending] := by simp [hs]
      have hr : d.reach t.sink.chunks.length = t.sink.chunks.length := by
        simpa [hlen] using Disturbance.reach_succ d.reach_zero (by simpa using hc) hl
      have := declarations_chunks set (splitImports body).2 (by rw [hs]) hr
      simp only [hp, ht, hlen] at this ⊢
      simpa [Nat.add_comm] using this

/-- What a pass that does not fail counts. -/
theorem chunks_counted (body : List Stmt) {pass : Pass} {p : Progress Memory}
    (h : chunks set d.sink d.cancelled body { pass, sink := {} } = p) (hf : p.failure = none) :
    p.state.printed = p.state.sink.chunks.length - 1 ∧
    (p.cancelled = true ↔ d.cancelledBefore = true ∨
      p.state.printed < (splitImports body).2.length) ∧
    (d.cancelledBefore = true → p.state.sink.chunks = []) := by
  subst h
  unfold chunks at hf ⊢
  rw [cancelled_empty] at hf ⊢
  cases hc : d.cancelledBefore with
  | true => simp
  | false =>
    simp only [hc, Bool.false_eq_true, if_false] at hf ⊢
    have hstep := imports_chunkStep set d (splitImports body).1
      (s := { pass, sink := {} }) rfl
    generalize imports set d.sink (splitImports body).1 { pass, sink := {} } = p at hstep hf
    cases hstep with
    | unprinted hp hf' hs hn | lost hp hl hf' hs hn =>
      rcases p with ⟨t, _ | failure, cancelled⟩
      · simp at hf'
      · simp at hf
    | @stored t q hp hl ht hs hn =>
      have ho : t.sink.closed = false := by rw [hs]
      have hlen : t.sink.chunks.length = 1 := by simp [hs]
      have hprinted := declarations_printed set d (splitImports body).2 ho
      have hcancelled := declarations_cancelled (splitImports body).2 ho hf
      simp only [hlen, hn, Nat.zero_add] at hprinted hcancelled ⊢
      refine ⟨by omega, ?_, by simp⟩
      simpa using hcancelled.2

theorem finish_chunks (before total : Nat) (p : Progress Memory) :
    (finish d.sink before total p).sink.chunks = p.state.sink.chunks := by
  rcases p with ⟨s, _ | failure, cancelled⟩ <;>
    cases hc : d.failingClose <;> simp [finish, Disturbance.sink, Memory.close, hc]

theorem finish_ok {before total : Nat} {p : Progress Memory} {summary : Summary}
    (h : (finish d.sink before total p).outcome = .ok summary) :
    p.failure = none ∧ summary = { cancelled := p.cancelled, declarations := p.state.printed } := by
  rcases p with ⟨s, _ | failure, cancelled⟩ <;>
    cases hc : d.failingClose <;> simp_all [finish, Disturbance.sink]

theorem chunkTexts_length {iss : List (List Instr)} {before after : List (List Instr)}
    {p q : Pass} (hi : iss = before ++ is :: after) (hq : passAfter? set before p = some q)
    (hf : (perform set is q).failure ≠ none) : (chunkTexts set iss p).length = before.length := by
  subst hi
  induction before generalizing p with
  | nil =>
    obtain rfl : p = q := by simpa [passAfter?] using hq
    rcases hp : perform set is p with ⟨r, _ | failure⟩
    · simp [hp] at hf
    · simp [chunkTexts, hp]
  | cons js before ih =>
    rcases hp : perform set js p with ⟨r, _ | failure⟩
    · simp only [passAfter?, hp] at hq
      simp [chunkTexts, hp, ih hq]
    · simp [passAfter?, hp] at hq

/-- The sink holds whole chunks in order, as many as the disturbance lets through. Those of the
undisturbed pass are the chunks before the first one that cannot be printed, and a pass that
returns has counted what it stored. -/
theorem stored_chunks (set : Settings) (d : Disturbance) (body : List Stmt) (pass : Pass) :
    let texts := chunkTexts set (moduleInstrs set body) pass
    let result := run set d.sink d.cancelled body pass {}
    (run set Memory.sink (fun _ => false) body pass {}).sink.chunks = texts ∧
    (∀ before is after q, moduleInstrs set body = before ++ is :: after →
      passAfter? set before pass = some q → (perform set is q).failure ≠ none →
      texts.length = before.length) ∧
    result.sink.chunks = texts.take (d.reach texts.length) ∧
    ∀ summary, result.outcome = .ok summary →
      summary.declarations = result.sink.chunks.length - 1 ∧
      (summary.cancelled = true ↔
        d.cancelledBefore = true ∨ summary.declarations < (splitImports body).2.length) ∧
      (d.cancelledBefore = true → summary.declarations = 0) := by
  intro texts result
  refine ⟨?_, ?_, ?_, ?_⟩
  · have hu : run set Memory.sink (fun _ => false) body pass {} =
        run set ({} : Disturbance).sink ({} : Disturbance).cancelled body pass {} := rfl
    rw [hu, run, finish_chunks, chunks_stored]
    simp [Disturbance.reach, Disturbance.cancelLimit?, Disturbance.writeLimit?, texts]
  · intro before is after q hi hq hf
    exact chunkTexts_length hi hq hf
  · simp only [result, run, finish_chunks]
    exact chunks_stored set d body pass
  · intro summary hs
    obtain ⟨hf, rfl⟩ := finish_ok hs
    obtain ⟨hn, hc, hb⟩ := chunks_counted body rfl hf
    simp only [result, run, finish_chunks]
    refine ⟨hn, hc, ?_⟩
    intro h
    simpa [hb h] using hn

end ModulePass

end CodePrinter
