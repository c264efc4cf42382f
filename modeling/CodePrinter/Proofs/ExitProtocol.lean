import CodePrinter.Proofs.FailurePolicies
import CodePrinter.Proofs.StoredChunks
import Mathlib.Data.List.TakeDrop
import Mathlib.Data.List.DropRight

/-! The ways out of a module pass, over any sink.

A pass takes its chunks in order until one cannot be printed, a write fails or the pass is
cancelled. Main statement: from the chunks that were flushed and the way out follow the calls to
the sink, the outcome, the log and the note of a compile error (`exit_protocol`). -/
namespace CodePrinter

/-- A call to a sink, and the failure it was answered with if there was one. -/
inductive SinkCall where
  | write (chunk : String) (failure : Option Failure)
  | close (failure : Option Failure)

def SinkCall.failure : SinkCall → Option Failure
  | .write _ failure => failure
  | .close failure => failure

/-- The same sink with a record of the calls to it. -/
def Sink.recorded {σ : Type} (sink : Sink σ) : Sink (σ × List SinkCall) where
  write chunk s :=
    (((sink.write chunk s.1).1, s.2 ++ [.write chunk (sink.write chunk s.1).2]),
      (sink.write chunk s.1).2)
  close s :=
    (((sink.close s.1).1, s.2 ++ [.close (sink.close s.1).2]), (sink.close s.1).2)

section Failures

/-- Instructions that raise no compile error of their own. -/
def Instr.isDirect : Instr → Bool
  | .template _ _ => false
  | .problem _ _ => false
  | _ => true

variable {set : Settings} {is : List Instr} {p : Pass} {e : CompileError}

theorem Pass.mark_failure {loc : Location} : (p.mark set loc).failure ≠ some (.compile e) := by
  rw [Pass.mark_eq]
  unfold Settings.refusal
  grind

theorem Instr.perform_failure {i : Instr} (h : i.isDirect = true)
    (he : (i.perform set p).failure = some (.compile e)) : i = .fail (.compile e) := by
  cases i with
  | mark loc => exact absurd he Pass.mark_failure
  | template source fill => cases h
  | problem what loc => cases h
  | fail what =>
    rw [Instr.perform] at he
    rw [Option.some.inj he]
  | _ => cases he

theorem perform_failure (h : ∀ i ∈ is, i.isDirect = true)
    (he : (perform set is p).failure = some (.compile e)) : .fail (.compile e) ∈ is := by
  induction is generalizing p with
  | nil =>
    rw [perform_nil] at he
    cases he
  | cons i is ih =>
    rw [perform_cons, Outcome.andThen] at he
    split at he
    · exact List.mem_cons_of_mem i (ih (fun j hj => h j (List.mem_cons_of_mem i hj)) he)
    · rw [Instr.perform_failure (h i List.mem_cons_self) he]
      exact List.mem_cons_self

theorem mem_separated {separator : List Instr} {items : List (List Instr)} {i : Instr}
    (h : i ∈ separated separator items) : i ∈ separator ∨ ∃ item ∈ items, i ∈ item := by
  induction items using separated.induct with
  | case1 => simp [separated] at h
  | case2 is => exact .inr ⟨is, by simp, h⟩
  | case3 is rest hrest ih =>
    rw [separated] at h
    · rcases List.mem_append.mp h with h | h
      · rcases List.mem_append.mp h with h | h
        · exact .inr ⟨is, by simp, h⟩
        · exact .inl h
      · rcases ih h with h | ⟨item, hitem, h⟩
        · exact .inl h
        · exact .inr ⟨item, by simp [hitem], h⟩
    · exact hrest

theorem Alias.isDirect_print (a : Alias) : ∀ i ∈ a.print, i.isDirect = true := by
  unfold Alias.print
  split
  · split <;> simp [Instr.isDirect]
  · simp [Instr.isDirect]

theorem isDirect_aliases (names : List Alias) : ∀ i ∈ aliases names, i.isDirect = true := by
  have hitems : ∀ i ∈ commaSeparated (names.map Alias.print), i.isDirect = true := by
    intro i hi
    rcases mem_separated hi with hi | ⟨item, hitem, hi⟩
    · rw [List.mem_singleton.mp hi]
      rfl
    · obtain ⟨a, -, rfl⟩ := List.mem_map.mp hitem
      exact a.isDirect_print i hi
  intro i hi
  rw [aliases] at hi
  split at hi
  · rw [parenthesized, List.mem_append, List.mem_cons, List.mem_singleton] at hi
    rcases hi with (rfl | hi) | rfl
    · rfl
    · exact hitems i hi
    · rfl
  · exact hitems i hi

theorem isDirect_markAt (loc : Option Location) : ∀ i ∈ markAt loc, i.isDirect = true := by
  cases loc <;> simp [markAt, Instr.isDirect]

theorem Stmt.isDirect_instrs {s : Stmt} (h : s.isImport = true) :
    ∀ i ∈ s.instrs set, i.isDirect = true := by
  intro i hi
  cases s with
  | importNames names loc =>
    rw [Stmt.instrs, List.mem_append] at hi
    rcases hi with hi | hi
    · exact isDirect_markAt loc i hi
    · split at hi
      · cases hi
      · rcases List.mem_cons.mp hi with rfl | hi
        · rfl
        · exact isDirect_aliases names i hi
  | importFrom module names loc =>
    rw [Stmt.instrs, List.mem_append] at hi
    rcases hi with hi | hi
    · exact isDirect_markAt loc i hi
    · split at hi
      · cases hi
      · simp only [List.cons_append, List.mem_cons, List.mem_append] at hi
        rcases hi with rfl | hi | rfl | hi
        · rfl
        · cases hr : set.resolve (module.getD ".") <;> simp_all [textOr, Instr.isDirect]
        · rfl
        · exact isDirect_aliases names i hi
  | _ => cases h

theorem isDirect_stmtsInstrs {ss : List Stmt} (h : ∀ s ∈ ss, s.isImport = true) :
    ∀ i ∈ stmtsInstrs set ss, i.isDirect = true := by
  induction ss with
  | nil => simp [stmtsInstrs]
  | cons s ss ih =>
    intro i hi
    simp only [stmtsInstrs, List.mem_append, List.mem_cons] at hi
    rcases hi with hi | rfl | hi
    · exact Stmt.isDirect_instrs (h s List.mem_cons_self) i hi
    · rfl
    · exact ih (fun s' hs' => h s' (List.mem_cons_of_mem s hs')) i hi

/-- The imports that a module opens with have no compile error but one that a path was resolved
with. -/
theorem imports_failure {body : List Stmt}
    (he : (perform set (stmtsInstrs set (splitImports body).1 ++ [.newline]) p).failure =
      some (.compile e)) : ∃ path, set.resolve path = .error (.compile e) := by
  have hdirect : ∀ i ∈ stmtsInstrs set (splitImports body).1 ++ [.newline], i.isDirect = true := by
    intro i hi
    rcases List.mem_append.mp hi with hi | hi
    · refine isDirect_stmtsInstrs (fun s hs => ?_) i hi
      rw [splitImports, List.span_eq_takeWhile_dropWhile] at hs
      exact List.mem_takeWhile_imp hs
    · rw [List.mem_singleton.mp hi]
      rfl
  have hprints := ((Tree.stmts (splitImports body).1).prints set).append
    (.ordinary (i := .newline) rfl)
  exact hprints.raises (perform_failure hdirect he) e rfl

end Failures

namespace ModulePass

variable {σ τ : Type}

/-! A pass does not depend on what a sink keeps besides what another sink keeps. -/

section Forgetting

/-- One sink behaves as another does, on a part of its state. -/
structure Covers (part : τ → σ) (rich : Sink τ) (plain : Sink σ) : Prop where
  write : ∀ chunk t, plain.write chunk (part t) =
    (part (rich.write chunk t).1, (rich.write chunk t).2)
  close : ∀ t, plain.close (part t) = (part (rich.close t).1, (rich.close t).2)

def State.map (part : τ → σ) (s : State τ) : State σ :=
  { pass := s.pass, sink := part s.sink, log := s.log, printed := s.printed }

def Progress.map (part : τ → σ) (p : Progress τ) : Progress σ :=
  { state := p.state.map part, failure := p.failure, cancelled := p.cancelled }

def Result.map (part : τ → σ) (r : Result τ) : Result σ :=
  { outcome := r.outcome, pass := r.pass, sink := part r.sink, log := r.log }

variable {part : τ → σ} {rich : Sink τ} {plain : Sink σ} {set : Settings} {cancelled : σ → Bool}

theorem flush_map (h : Covers part rich plain) (s : State τ) :
    flush plain (s.map part) = (flush rich s).map part := by
  by_cases hp : s.pass.page.pending = ""
  · simp [flush, State.map, Progress.map, hp]
  · simp only [flush, State.map, if_neg hp, h.write]
    rcases rich.write s.pass.page.pending s.sink with ⟨t, _ | failure⟩ <;> rfl

theorem imports_map (h : Covers part rich plain) (stmts : List Stmt) (s : State τ) :
    imports set plain stmts (s.map part) = (imports set rich stmts s).map part := by
  rw [imports, imports, show (s.map part).pass = s.pass from rfl]
  rcases hp : perform set (stmtsInstrs set stmts ++ [.newline]) s.pass with ⟨q, _ | failure⟩
  · rw [hp]
    exact flush_map h { s with pass := q }
  · rw [hp]
    rfl

theorem declaration_map (h : Covers part rich plain) (decl : Stmt) (s : State τ) :
    declaration set plain decl (s.map part) = (declaration set rich decl s).map part := by
  rw [declaration, declaration, show (s.map part).pass = s.pass from rfl]
  rcases perform set (decl.instrs set) s.pass with ⟨q, _ | failure⟩
  · exact flush_map h { s with pass := { q with page := q.page.endLine.newline } }
  · rfl

theorem declarations_map (h : Covers part rich plain) (decls : List Stmt) (s : State τ) :
    declarations set plain cancelled decls (s.map part) =
      (declarations set rich (cancelled ∘ part) decls s).map part := by
  induction decls generalizing s with
  | nil => rfl
  | cons decl decls ih =>
    simp only [declarations, Function.comp, show (s.map part).sink = part s.sink from rfl]
    by_cases hc : cancelled (part s.sink) = true
    · rw [if_pos hc, if_pos hc]
      rfl
    · rw [if_neg hc, if_neg hc, declaration_map h]
      rcases declaration set rich decl s with ⟨t, _ | failure, c⟩
      · exact ih { t with printed := t.printed + 1 }
      · rfl

theorem chunks_map (h : Covers part rich plain) (body : List Stmt) (s : State τ) :
    chunks set plain cancelled body (s.map part) =
      (chunks set rich (cancelled ∘ part) body s).map part := by
  simp only [chunks, Function.comp, show (s.map part).sink = part s.sink from rfl]
  by_cases hc : cancelled (part s.sink) = true
  · rw [if_pos hc, if_pos hc]
    rfl
  · rw [if_neg hc, if_neg hc, imports_map h]
    rcases imports set rich (splitImports body).1 s with ⟨t, _ | failure, c⟩
    · exact declarations_map h (splitImports body).2 t
    · rfl

theorem finish_map (h : Covers part rich plain) (before total : Nat) (p : Progress τ) :
    finish plain before total (p.map part) = (finish rich before total p).map part := by
  have hc := h.close p.state.sink
  rcases p with ⟨s, _ | failure, c⟩ <;> simp only [finish, Progress.map, State.map] at hc ⊢ <;>
    rw [hc] <;> rcases rich.close s.sink with ⟨t, _ | closing⟩ <;> rfl

theorem run_map (h : Covers part rich plain) (body : List Stmt) (pass : Pass) (state : τ) :
    run set plain cancelled body pass (part state) =
      (run set rich (cancelled ∘ part) body pass state).map part := by
  rw [run, run, ← finish_map h, ← chunks_map h]
  rfl

theorem covers_recorded (sink : Sink σ) : Covers Prod.fst sink.recorded sink :=
  ⟨fun _ _ => rfl, fun _ => rfl⟩

end Forgetting

/-- A part of a module that is printed and flushed at once: a declaration, or the imports. -/
structure Chunk where
  decl : Option Stmt := none
  instrs : List Instr

/-- A failure to print a chunk, with a note of the declaration. -/
def Chunk.noted (chunk : Chunk) (failure : Failure) : Failure :=
  match chunk.decl with
  | some decl =>
    failure.addNote { message := "while printing " ++ decl.describe, loc := decl.loc }
  | none => failure

def importsChunk (set : Settings) (body : List Stmt) : Chunk :=
  { instrs := stmtsInstrs set (splitImports body).1 ++ [.newline] }

def declChunk (set : Settings) (decl : Stmt) : Chunk :=
  { decl := some decl, instrs := decl.instrs set ++ [.endLine, .newline] }

def moduleChunks (set : Settings) (body : List Stmt) : List Chunk :=
  importsChunk set body :: (splitImports body).2.map (declChunk set)

/-- The ways out of a pass, before the sink is closed. -/
inductive Ending where
  | completed
  | cancelled
  | unprinted (failure : Failure)
  | unwritten (chunk : String) (failure : Failure)

namespace Ending

def failure? : Ending → Option Failure
  | .completed => none
  | .cancelled => none
  | .unprinted failure => some failure
  | .unwritten _ failure => some failure

def isCancelled : Ending → Bool
  | .cancelled => true
  | _ => false

theorem eq_of_failure? {ending : Ending} {f : Failure} (h : ending.failure? = some f) :
    ending = .unprinted f ∨ ∃ chunk, ending = .unwritten chunk f := by
  cases ending with
  | completed | cancelled => cases h
  | unprinted failure =>
    cases h
    exact .inl rfl
  | unwritten chunk failure =>
    cases h
    exact .inr ⟨chunk, rfl⟩

theorem failure?_and_isCancelled (ending : Ending) (c : Prop) :
    (ending.failure? = none ∧ ending.isCancelled = true ∧ c) ↔ ending.isCancelled = true ∧ c := by
  cases ending <;> simp [failure?, isCancelled]

/-- The call that failed, if one did. -/
def failedCall : Ending → List SinkCall
  | .unwritten chunk failure => [.write chunk (some failure)]
  | _ => []

end Ending

/-- How a pass takes chunks in order: the pages it flushes, its way out, and its last state. Before
each chunk it looks whether it is cancelled. -/
inductive Course (set : Settings) (sink : Sink σ) (cancelled : σ → Bool) :
    List Chunk → Pass → σ → List Page → Ending → Pass → Prop
  | completed {pass : Pass} {state : σ} :
      Course set sink cancelled [] pass state [] .completed pass
  | cancelled {chunk : Chunk} {chunks : List Chunk} {pass : Pass} {state : σ}
      (h : cancelled state = true) :
      Course set sink cancelled (chunk :: chunks) pass state [] .cancelled pass
  | unprinted {chunk : Chunk} {chunks : List Chunk} {pass q : Pass} {state : σ} {f : Failure}
      (h : cancelled state = false) (hp : perform set chunk.instrs pass = ⟨q, some f⟩) :
      Course set sink cancelled (chunk :: chunks) pass state [] (.unprinted (chunk.noted f)) q
  | unwritten {chunk : Chunk} {chunks : List Chunk} {pass q : Pass} {state : σ} {f : Failure}
      (h : cancelled state = false) (hp : perform set chunk.instrs pass = { pass := q })
      (hw : (sink.write q.page.pending state).2 = some f) :
      Course set sink cancelled (chunk :: chunks) pass state [] (.unwritten q.page.pending f)
        q.flush
  | flushed {chunk : Chunk} {chunks : List Chunk} {pass q last : Pass} {state next : σ}
      {pages : List Page} {ending : Ending} (h : cancelled state = false)
      (hp : perform set chunk.instrs pass = { pass := q })
      (hw : sink.write q.page.pending state = (next, none))
      (rest : Course set sink cancelled chunks q.flush next pages ending last) :
      Course set sink cancelled (chunk :: chunks) pass state (q.page :: pages) ending last

variable {set : Settings} {sink : Sink σ} {cancelled : σ → Bool} {chunk : Chunk}
  {rest : List Chunk} {pass last : Pass} {state : σ} {pages : List Page} {ending : Ending}
  {s : State (σ × List SinkCall)} {p : Progress (σ × List SinkCall)}

/-- A pass adds to the diagnostics that were there. -/
theorem Course.diagnostics (h : Course set sink cancelled rest pass state pages ending last) :
    pass.diagnostics <+: last.diagnostics := by
  induction h with
  | completed => exact List.prefix_rfl
  | cancelled h => exact List.prefix_rfl
  | @unprinted chunk _ pass _ _ _ h hp =>
    have := (perform_extends set chunk.instrs pass).diagnostics
    rwa [hp] at this
  | @unwritten chunk _ pass _ _ _ h hp hw =>
    have := (perform_extends set chunk.instrs pass).diagnostics
    rwa [hp] at this
  | @flushed chunk _ pass _ _ _ _ _ _ h hp hw _ ih =>
    have := (perform_extends set chunk.instrs pass).diagnostics
    rw [hp] at this
    exact this.trans ih

/-- A pass that cannot print a chunk has flushed every chunk before it. -/
theorem Course.unprinted_chunk {f : Failure}
    (h : Course set sink cancelled rest pass state pages (.unprinted f) last) :
    ∃ before chunk after q failure, rest = before ++ chunk :: after ∧
      pages.length = before.length ∧
      passAfter? set (before.map Chunk.instrs) pass = some q ∧
      perform set chunk.instrs q = ⟨last, some failure⟩ ∧ f = chunk.noted failure := by
  generalize he : Ending.unprinted f = ending at h
  induction h with
  | completed => cases he
  | cancelled h => cases he
  | unwritten h hp hw => cases he
  | unprinted h hp =>
    cases he
    exact ⟨[], _, _, _, _, rfl, rfl, rfl, hp, rfl⟩
  | @flushed first _ _ _ _ _ _ _ _ h hp hw _ ih =>
    obtain ⟨before, chunk, after, q, failure, rfl, hlength, hq, hf, hn⟩ := ih he
    refine ⟨first :: before, chunk, after, q, failure, rfl, by simp [hlength], ?_, hf, hn⟩
    rw [List.map_cons, passAfter?, hp]
    exact hq

/-- What an attempt to print and flush a chunk comes to, on a sink with a record. -/
inductive Attempt (set : Settings) (sink : Sink σ) (chunk : Chunk)
    (s : State (σ × List SinkCall)) : Progress (σ × List SinkCall) → Prop
  | unprinted {q : Pass} {f : Failure} (hp : perform set chunk.instrs s.pass = ⟨q, some f⟩) :
      Attempt set sink chunk s { state := { s with pass := q }, failure := some (chunk.noted f) }
  | unwritten {q : Pass} {left : σ} {f : Failure}
      (hp : perform set chunk.instrs s.pass = { pass := q })
      (hw : sink.write q.page.pending s.sink.1 = (left, some f)) :
      Attempt set sink chunk s
        { state := { s with
            pass := q.flush
            sink := (left, s.sink.2 ++ [.write q.page.pending (some f)]) }
          failure := some f }
  | flushed {q : Pass} {next : σ} (hp : perform set chunk.instrs s.pass = { pass := q })
      (hw : sink.write q.page.pending s.sink.1 = (next, none)) :
      Attempt set sink chunk s
        { state := { s with
            pass := q.flush
            sink := (next, s.sink.2 ++ [.write q.page.pending none])
            log := s.log ++ [flushedEntry q.page] } }

theorem attempt_flush (chunk : Chunk) {q : Pass}
    (hp : perform set chunk.instrs s.pass = { pass := q })
    (hq : q.page.pending ≠ "") :
    Attempt set sink chunk s (flush sink.recorded { s with pass := q }) := by
  simp only [flush, if_neg hq, Sink.recorded]
  rcases hw : sink.write q.page.pending s.sink.1 with ⟨next, _ | failure⟩
  · exact .flushed hp hw
  · exact .unwritten hp hw

theorem attempt_imports (set : Settings) (sink : Sink σ) (body : List Stmt)
    (s : State (σ × List SinkCall)) :
    Attempt set sink (importsChunk set body) s
      (imports set sink.recorded (splitImports body).1 s) := by
  unfold imports
  rcases hp : perform set (stmtsInstrs set (splitImports body).1 ++ [.newline]) s.pass with
    ⟨q, _ | failure⟩
  · rw [hp]
    exact attempt_flush (importsChunk set body) hp (pending_perform_newline hp)
  · rw [hp]
    have hi : perform set (importsChunk set body).instrs s.pass = ⟨q, some failure⟩ := hp
    exact .unprinted hi

theorem attempt_declaration (set : Settings) (sink : Sink σ) (decl : Stmt)
    (s : State (σ × List SinkCall)) :
    Attempt set sink (declChunk set decl) s (declaration set sink.recorded decl s) := by
  have hd := perform_declaration set decl s.pass
  unfold declaration
  rcases hp : perform set (decl.instrs set) s.pass with ⟨q, _ | failure⟩
  · rw [hp] at hd
    exact attempt_flush (declChunk set decl) hd (by simp [Page.newline])
  · rw [hp] at hd
    exact .unprinted hd

/-- A pass on a sink with a record that follows a course. -/
structure Follows (set : Settings) (sink : Sink σ) (cancelled : σ → Bool) (chunks : List Chunk)
    (s : State (σ × List SinkCall)) (p : Progress (σ × List SinkCall)) (pages : List Page)
    (ending : Ending) : Prop where
  course : Course set sink cancelled chunks s.pass s.sink.1 pages ending p.state.pass
  failure : p.failure = ending.failure?
  cancelled : p.cancelled = ending.isCancelled
  log : p.state.log = s.log ++ pages.map flushedEntry
  calls : p.state.sink.2 =
    s.sink.2 ++ pages.map (fun page => .write page.pending none) ++ ending.failedCall

theorem Follows.of_cancelled (h : cancelled s.sink.1 = true) :
    Follows set sink cancelled (chunk :: rest) s { state := s, cancelled := true } [] .cancelled :=
  ⟨.cancelled h, rfl, rfl, by simp, by simp [Ending.failedCall]⟩

/-- One step of a pass: it ends with the chunk, or it follows a course from there. -/
theorem Attempt.follows (h : Attempt set sink chunk s p) (hc : cancelled s.sink.1 = false) :
    (∃ ending, p.failure ≠ none ∧ p.state.printed = s.printed ∧
      Follows set sink cancelled (chunk :: rest) s p [] ending) ∨
    ∃ t page, p = { state := t } ∧ t.printed = s.printed ∧
      ∀ n p' pages ending, Follows set sink cancelled rest { t with printed := n } p' pages ending →
        Follows set sink cancelled (chunk :: rest) s p' (page :: pages) ending := by
  cases h with
  | unprinted hp =>
    exact .inl ⟨_, by simp, rfl, .unprinted hc hp, rfl, rfl, by simp, by simp [Ending.failedCall]⟩
  | unwritten hp hw =>
    exact .inl ⟨_, by simp, rfl, .unwritten hc hp (by rw [hw]), rfl, rfl, by simp,
      by simp [Ending.failedCall]⟩
  | @flushed q next hp hw =>
    refine .inr ⟨_, q.page, rfl, rfl, ?_⟩
    intro n p' pages ending hf
    exact ⟨.flushed hc hp hw hf.course, hf.failure, hf.cancelled, by simp [hf.log],
      by simp [hf.calls]⟩

theorem declarations_follows (set : Settings) (sink : Sink σ) (cancelled : σ → Bool)
    (decls : List Stmt) (s : State (σ × List SinkCall)) :
    ∃ pages ending, Follows set sink cancelled (decls.map (declChunk set)) s
        (declarations set sink.recorded (cancelled ∘ Prod.fst) decls s) pages ending ∧
      (declarations set sink.recorded (cancelled ∘ Prod.fst) decls s).state.printed =
        s.printed + pages.length := by
  induction decls generalizing s with
  | nil => exact ⟨[], .completed, ⟨.completed, rfl, rfl, by simp [declarations],
      by simp [declarations, Ending.failedCall]⟩, rfl⟩
  | cons decl decls ih =>
    simp only [declarations, List.map_cons, Function.comp]
    by_cases hc : cancelled s.sink.1 = true
    · rw [if_pos hc]
      exact ⟨[], .cancelled, .of_cancelled hc, rfl⟩
    · rw [if_neg hc]
      have hstep := attempt_declaration set sink decl s
      generalize declaration set sink.recorded decl s = p at hstep
      rcases hstep.follows (by simpa using hc) with ⟨ending, hf, hn, h⟩ | ⟨t, page, rfl, hn, h⟩
      · rcases p with ⟨t, _ | failure, c⟩
        · simp at hf
        · exact ⟨[], ending, h, hn⟩
      · obtain ⟨pages, ending, hrest, hcount⟩ := ih { t with printed := t.printed + 1 }
        refine ⟨page :: pages, ending, h _ _ _ _ hrest, ?_⟩
        rw [hcount, List.length_cons, ← hn, Nat.add_comm pages.length, ← Nat.add_assoc]

theorem chunks_follows (set : Settings) (sink : Sink σ) (cancelled : σ → Bool)
    (body : List Stmt) (s : State (σ × List SinkCall)) :
    ∃ pages ending, Follows set sink cancelled (moduleChunks set body) s
        (chunks set sink.recorded (cancelled ∘ Prod.fst) body s) pages ending ∧
      (chunks set sink.recorded (cancelled ∘ Prod.fst) body s).state.printed =
        s.printed + (pages.length - 1) := by
  simp only [chunks, moduleChunks, Function.comp]
  by_cases hc : cancelled s.sink.1 = true
  · rw [if_pos hc]
    exact ⟨[], .cancelled, .of_cancelled hc, rfl⟩
  · rw [if_neg hc]
    have hstep := attempt_imports set sink body s
    generalize imports set sink.recorded (splitImports body).1 s = p at hstep
    rcases hstep.follows (by simpa using hc) with ⟨ending, hf, hn, h⟩ | ⟨t, page, rfl, hn, h⟩
    · rcases p with ⟨t, _ | failure, c⟩
      · simp at hf
      · exact ⟨[], ending, h, hn⟩
    · obtain ⟨pages, ending, hrest, hcount⟩ :=
        declarations_follows set sink cancelled (splitImports body).2 t
      refine ⟨page :: pages, ending, h t.printed _ _ _ hrest, ?_⟩
      rw [List.length_cons, Nat.add_sub_cancel, ← hn]
      exact hcount

/-- A compile error in printing is that of the first declaration that cannot be printed, or one
that a path of the leading imports was resolved with. -/
theorem Course.compile_note {body : List Stmt} {e : CompileError}
    (h : Course set sink cancelled (moduleChunks set body) pass state pages
      (.unprinted (.compile e)) last) :
    (pages = [] ∧ ∃ path, set.resolve path = .error (.compile e)) ∨
    ∃ before decl after q error, (splitImports body).2 = before ++ decl :: after ∧
      passAfter? set ((moduleInstrs set body).take (before.length + 1)) pass = some q ∧
      perform set (decl.instrs set) q = ⟨last, some (.compile error)⟩ ∧
      e = { error with
        notes := error.notes ++
          [{ message := "while printing " ++ decl.describe, loc := decl.loc }] } ∧
      (error.notes = [] ∨ ∃ path, set.resolve path = .error (.compile error)) := by
  obtain ⟨before, chunk, after, q, failure, hsplit, hlength, hq, hf, hn⟩ := h.unprinted_chunk
  rcases before with _ | ⟨first, before⟩
  · -- The chunk of the imports has no declaration to name.
    obtain ⟨rfl, -⟩ := List.cons.inj hsplit
    cases hn
    exact .inl ⟨List.length_eq_zero_iff.mp hlength, imports_failure (congrArg Outcome.failure hf)⟩
  · obtain ⟨rfl, hdecls⟩ := List.cons.inj hsplit
    obtain ⟨front, back, hbody, rfl, hback⟩ := List.map_eq_append_iff.mp hdecls
    obtain ⟨decl, back, rfl, rfl, rfl⟩ := List.map_eq_cons_iff.mp hback
    have htake : (moduleInstrs set body).take (front.length + 1) =
        (importsChunk set body :: front.map (declChunk set)).map Chunk.instrs := by
      simp [moduleInstrs, hbody, importsChunk, declChunk]
    have hd := perform_declaration set decl q
    rw [show decl.instrs set ++ [.endLine, .newline] = (declChunk set decl).instrs from rfl,
      hf] at hd
    rcases hp : perform set (decl.instrs set) q with ⟨r, _ | cause⟩
    · rw [hp] at hd
      cases hd
    · rw [hp] at hd
      cases hd
      rcases failure with error | fault
      · cases hn
        refine .inr ⟨front, decl, back, q, error, hbody, htake ▸ hq, hp, rfl, ?_⟩
        rcases (decl.prints set).compile_error (congrArg Outcome.failure hp) with hpath | ⟨-, hnone⟩
        · exact .inr hpath
        · exact .inl hnone
      · cases hn

/-- How a pass on a sink with a record is finished. -/
theorem finish_recorded (sink : Sink σ) (before total : Nat)
    (p : Progress (σ × List SinkCall)) :
    let closing := (sink.close p.state.sink.1).2
    let result := finish sink.recorded before total p
    result.pass = p.state.pass ∧ result.sink.2 = p.state.sink.2 ++ [.close closing] ∧
    result.outcome = (match p.failure, closing with
      | some failure, _ => .error failure
      | none, some failure => .error failure
      | none, none => .ok { cancelled := p.cancelled, declarations := p.state.printed }) ∧
    result.log = p.state.log ++ warnings before p.state.pass.diagnostics ++
      (match p.failure, closing with
        | some _, some failure => [closeWarning failure]
        | _, _ => []) ++
      (if p.failure = none ∧ p.cancelled = true ∧ closing = none then
        [cancelledEntry p.state.printed total] else []) := by
  rcases p with ⟨s, _ | failure, c⟩ <;>
    rcases hc : sink.close s.sink.1 with ⟨t, _ | closing⟩ <;>
    simp [finish, Sink.recorded, hc]

/-- Whatever fails: the sink is closed once, after the last write; the failure of a chunk counts
before one to close, and the pass returns if there is neither. The log has a line for each flush,
then the errors reported in this pass, then the failure to close if it was passed over, then that
the pass was cancelled if it returns. A compile error has one note, of the first declaration that
cannot be printed. Only one that the caller's own parts raised may have other notes: the sink, or
the paths of modules. -/
theorem exit_protocol (set : Settings) (sink : Sink σ) (cancelled : σ → Bool) (body : List Stmt)
    (pass : Pass) (state : σ) :
    let result := run set sink.recorded (cancelled ∘ Prod.fst) body pass (state, [])
    run set sink cancelled body pass state = result.map Prod.fst ∧
    ∃ pages ending closing added,
      Course set sink cancelled (moduleChunks set body) pass state pages ending result.pass ∧
      result.pass.diagnostics = pass.diagnostics ++ added ∧
      result.sink.2 = pages.map (fun page => .write page.pending none) ++ ending.failedCall ++
        [.close closing] ∧
      result.outcome = (match ending.failure?, closing with
        | some failure, _ => .error failure
        | none, some failure => .error failure
        | none, none =>
          .ok { cancelled := ending.isCancelled, declarations := pages.length - 1 }) ∧
      result.log =
        pages.map (fun page =>
          { level := .debug
            text := "pyemit: flushed " ++ toString (Text.width page.pending) ++
              " characters, next line " ++ toString page.line }) ++
        (added.filter (·.isError)).map (fun d => { level := .warn, text := d.format }) ++
        (match ending.failure?, closing with
          | some _, some failure =>
            [{ level := .warn, text := "pyemit: closing the writer failed: " ++ failure.message }]
          | _, _ => []) ++
        (if ending.isCancelled = true ∧ closing = none then
          [{ level := .info
             text := "pyemit: cancelled after " ++ toString (pages.length - 1) ++ " of " ++
               toString (splitImports body).2.length ++ " declarations" }]
        else []) ∧
      ∀ e, result.outcome = .error (.compile e) →
        (∃ call ∈ result.sink.2, call.failure = some (.compile e)) ∨
        (pages = [] ∧ ∃ path, set.resolve path = .error (.compile e)) ∨
        ∃ before decl after q error, (splitImports body).2 = before ++ decl :: after ∧
          passAfter? set ((moduleInstrs set body).take (before.length + 1)) pass = some q ∧
          perform set (decl.instrs set) q = ⟨result.pass, some (.compile error)⟩ ∧
          e = { error with
            notes := error.notes ++
              [{ message := "while printing " ++ decl.describe, loc := decl.loc }] } ∧
          (error.notes = [] ∨ ∃ path, set.resolve path = .error (.compile error)) := by
  intro result
  refine ⟨run_map (covers_recorded sink) body pass (state, []), ?_⟩
  obtain ⟨pages, ending, h, hprinted⟩ :=
    chunks_follows set sink cancelled body { pass, sink := (state, []) }
  have hrun : result = finish sink.recorded pass.diagnostics.length (splitImports body).2.length
    (chunks set sink.recorded (cancelled ∘ Prod.fst) body { pass, sink := (state, []) }) := rfl
  clear_value result
  generalize chunks set sink.recorded (cancelled ∘ Prod.fst) body { pass, sink := (state, []) } = p
    at h hprinted hrun
  obtain ⟨hpass, hcalls, houtcome, hlog⟩ :=
    finish_recorded sink pass.diagnostics.length (splitImports body).2.length p
  obtain ⟨added, hadded⟩ := h.course.diagnostics
  rw [← hrun] at hpass hcalls houtcome hlog
  rw [h.failure, h.cancelled, hprinted, Nat.zero_add] at houtcome
  rw [h.failure, h.cancelled, hprinted, h.log, warnings, ← hadded, List.drop_left,
    Nat.zero_add] at hlog
  rw [h.calls] at hcalls
  refine ⟨pages, ending, _, added, hpass ▸ h.course, hpass ▸ hadded.symm, hcalls, houtcome, ?_, ?_⟩
  · rw [hlog]
    simp only [ending.failure?_and_isCancelled]
    rfl
  · intro e he
    rw [houtcome] at he
    split at he
    · rename_i hf
      cases he
      rcases Ending.eq_of_failure? hf with rfl | ⟨chunk, rfl⟩
      · exact .inr (hpass ▸ h.course).compile_note
      · refine .inl ⟨.write chunk (some (.compile e)), ?_, rfl⟩
        rw [hcalls]
        simp [Ending.failedCall]
    · rename_i hclose
      cases he
      refine .inl ⟨.close (some (.compile e)), ?_, rfl⟩
      rw [hcalls, ← hclose]
      simp
    · cases he

end ModulePass

end CodePrinter
