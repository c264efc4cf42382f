import CodePrinter.Proofs.StoredChunks
import Mathlib.Logic.Relation

/-! The points that a pass comes through, one printing action at a time.

Main statements: a list of instructions ends at a point of its pass (`perform_reaches`), and so does
a module (`run_reaches`). -/
namespace CodePrinter

/-- What was written to a sink is told by its state. -/
structure Sink.Appends {σ : Type} (sink : Sink σ) (written : σ → String) : Prop where
  write : ∀ chunk s t, sink.write chunk s = (t, none) → written t = written s ++ chunk
  close : ∀ s, written (sink.close s).1 = written s

theorem Disturbance.appends (d : Disturbance) : d.sink.Appends Memory.text := by
  refine ⟨?_, fun _ => rfl⟩
  intro chunk m t h
  have hw : m.write chunk = (t, none) := by
    unfold Disturbance.sink Disturbance.write at h
    grind
  unfold Memory.write at hw
  split at hw
  · cases hw
  · cases hw
    simp [Memory.text]

/-- What is put on a page at a time. -/
inductive Stroke where
  | indentation (value : String)
  | text (value : String)
  | newline
  deriving DecidableEq

namespace Stroke

def value : Stroke → String
  | .indentation value => value
  | .text value => value
  | .newline => "\n"

def isIndentation : Stroke → Bool
  | .indentation _ => true
  | _ => false

/-- The text that strokes leave on the page. -/
def join (strokes : List Stroke) : String := String.join (strokes.map value)

@[simp] theorem join_nil : join [] = "" := rfl

@[simp] theorem join_append (xs ys : List Stroke) : join (xs ++ ys) = join xs ++ join ys := by
  simp [join]

@[simp] theorem join_singleton (s : Stroke) : join [s] = s.value := by
  simp [join]

end Stroke

/-- A point of a pass. -/
structure Point where
  /-- The instructions that are left. -/
  todo : List Instr
  pass : Pass
  failure : Option Failure := none
  /-- The text that was handed over so far. -/
  flushed : String := ""
  /-- All that was put on the page, handed over or not. -/
  strokes : List Stroke := []

/-- The stroke that begins a line on which nothing stands yet. -/
def Page.lineStart (unit : String) (p : Page) : List Stroke :=
  if p.column = 0 then [.indentation (indentation unit p.depth)] else []

/-- A line of a snippet in terms of texts and line breaks. -/
def snippetInstrs (hasText : Bool) (value : String) (more : Bool) : List Instr :=
  let text := if hasText then value else String.ofList (Text.trimStart value.toList)
  if text = "" then [] else .text text :: if more then [.newline] else []

namespace Point

/-- All text printed so far. -/
def text (x : Point) : String := x.flushed ++ x.pass.page.pending

def flush (x : Point) : Point :=
  { x with pass := x.pass.flush, flushed := x.flushed ++ x.pass.page.pending }

/-- The point after an instruction with some outcome; nothing is left to do after a failure. -/
def goOn (x : Point) (todo : List Instr) (o : Outcome) (strokes : List Stroke) : Point :=
  { x with
    todo := if o.failure.isNone then todo else []
    pass := o.pass
    failure := o.failure
    strokes := x.strokes ++ strokes }

/-- What an instruction does at a point. Those that stand for others are replaced by them. -/
def next (set : Settings) (x : Point) (todo : List Instr) : Instr → Point
  | .text value =>
    x.goOn todo (x.pass.onPage (·.print set.indent value))
      (x.pass.page.lineStart set.indent ++ [.text value])
  | .mark loc => x.goOn todo (x.pass.mark set loc) (x.pass.page.lineStart set.indent)
  | .newline => x.goOn todo (x.pass.onPage (·.newline)) [.newline]
  | .endLine => { x with todo := if x.pass.page.column = 0 then todo else .newline :: todo }
  | .indent => x.goOn todo (x.pass.onPage (·.indent)) []
  | .dedent => x.goOn todo (x.pass.onPage (·.dedent)) []
  | .snippetLine value more =>
    { x with todo := snippetInstrs x.pass.page.hasText value more ++ todo }
  | .template source fill =>
    { x with
      todo := fill (x.pass.cache.split source).1 ++ todo
      pass := { x.pass with cache := (x.pass.cache.split source).2 } }
  | .problem what loc => x.goOn todo (x.pass.problem set what loc) []
  | .fail what => x.goOn todo { pass := x.pass, failure := some what } []

def step (set : Settings) (x : Point) : Option Point :=
  match x.todo with
  | [] => none
  | i :: todo => some (x.next set todo i)

/-- A pass performs an instruction, or its text is handed over. -/
inductive Move (set : Settings) : Point → Point → Prop
  | step {x y : Point} (h : x.step set = some y) : Move set x y
  | flush (x : Point) : Move set x x.flush

/-- A pass comes from one point to another. -/
def Reaches (set : Settings) : Point → Point → Prop := Relation.ReflTransGen (Move set)

variable {set : Settings} {x y z : Point} {i : Instr} {is js todo : List Instr}

theorem Reaches.refl (x : Point) : Reaches set x x := Relation.ReflTransGen.refl

theorem Reaches.trans (h : Reaches set x y) (h' : Reaches set y z) : Reaches set x z :=
  Relation.ReflTransGen.trans h h'

theorem Reaches.next (set : Settings) (hx : x.todo = i :: todo) :
    Reaches set x (x.next set todo i) :=
  Relation.ReflTransGen.single (.step (by simp [step, hx]))

theorem Reaches.flush (x : Point) : Reaches set x x.flush :=
  Relation.ReflTransGen.single (.flush x)

theorem goOn_self (hx : x.todo = todo) (hf : x.failure = none) :
    x.goOn todo { pass := x.pass } [] = x := by
  obtain ⟨todo, pass, failure, flushed, strokes⟩ := x
  simp_all [goOn]

theorem goOn_goOn (o : Outcome) (next : Pass → Outcome) (us vs : List Stroke)
    (hf : o.failure = none) :
    (x.goOn is o us).goOn todo (next o.pass) vs = x.goOn todo (o.andThen next) (us ++ vs) := by
  simp [goOn, Outcome.andThen, hf]

theorem goOn_andThen_of_failure (is : List Instr) {o : Outcome} {next : Pass → Outcome}
    {us : List Stroke} {failure : Failure} (hf : o.failure = some failure) :
    x.goOn todo (o.andThen next) us = x.goOn is o us := by
  simp [goOn, Outcome.andThen, hf]

/-- If the first of two lists ends at a point of the pass, and the second does from there. -/
theorem reaches_andThen {o : Outcome} {next : Pass → Outcome} {us : List Stroke}
    (h : Reaches set x (x.goOn is o us))
    (hn : o.failure = none → ∃ vs, Reaches set (x.goOn is o us)
      ((x.goOn is o us).goOn todo (next o.pass) vs)) :
    ∃ vs, Reaches set x (x.goOn todo (o.andThen next) vs) := by
  cases hf : o.failure with
  | none =>
    obtain ⟨vs, hv⟩ := hn hf
    rw [goOn_goOn o next us vs hf] at hv
    exact ⟨us ++ vs, h.trans hv⟩
  | some failure =>
    refine ⟨us, ?_⟩
    rw [goOn_andThen_of_failure is hf]
    exact h

theorem newline_reaches (set : Settings) (hx : x.todo = .newline :: todo) :
    Reaches set x (x.goOn todo (x.pass.onPage (·.newline)) [.newline]) :=
  Reaches.next set hx

theorem endLine_reaches (hx : x.todo = .endLine :: todo) (hf : x.failure = none) :
    ∃ us, Reaches set x (x.goOn todo (x.pass.onPage (·.endLine)) us) := by
  have hn := Reaches.next set hx
  by_cases hc : x.pass.page.column = 0
  · refine ⟨[], ?_⟩
    simpa [Point.next, hc, goOn, Pass.onPage, Page.endLine, hf] using hn
  · refine ⟨[.newline], hn.trans ?_⟩
    simp only [Point.next, hc, if_false]
    simpa [goOn, Pass.onPage, Page.endLine, hc] using
      newline_reaches set (x := { x with todo := .newline :: todo }) rfl

theorem snippetLine_reaches {value : String} {more : Bool}
    (hx : x.todo = .snippetLine value more :: todo) (hf : x.failure = none) :
    ∃ us, Reaches set x
      (x.goOn todo (x.pass.onPage (·.snippetLine set.indent value more)) us) := by
  have hn := Reaches.next set hx
  simp only [Point.next, snippetInstrs] at hn
  simp only [Pass.onPage, Page.snippetLine]
  generalize (if x.pass.page.hasText then value else
    String.ofList (Text.trimStart value.toList)) = text at hn ⊢
  by_cases ht : text = ""
  · refine ⟨[], ?_⟩
    simpa [ht, goOn, hf] using hn
  · simp only [ht, if_false] at hn ⊢
    have h1 := hn.trans (Reaches.next set rfl)
    cases more with
    | false => exact ⟨_, by simpa [Point.next, goOn, Pass.onPage] using h1⟩
    | true =>
      have h2 := h1.trans (newline_reaches set rfl)
      refine ⟨x.pass.page.lineStart set.indent ++ [.text text] ++ [.newline], ?_⟩
      simpa [Point.next, goOn, Pass.onPage] using h2

mutual

theorem instr_reaches (set : Settings) : (i : Instr) → {x : Point} → {todo : List Instr} →
    x.todo = i :: todo → x.failure = none →
    ∃ us, Reaches set x (x.goOn todo (i.perform set x.pass) us)
  | .text _, _, _, hx, _ => by rw [Instr.perform]; exact ⟨_, Reaches.next set hx⟩
  | .mark _, _, _, hx, _ => by rw [Instr.perform]; exact ⟨_, Reaches.next set hx⟩
  | .newline, _, _, hx, _ => by rw [Instr.perform]; exact ⟨_, Reaches.next set hx⟩
  | .endLine, _, _, hx, hf => by rw [Instr.perform]; exact endLine_reaches hx hf
  | .indent, _, _, hx, _ => by rw [Instr.perform]; exact ⟨_, Reaches.next set hx⟩
  | .dedent, _, _, hx, _ => by rw [Instr.perform]; exact ⟨_, Reaches.next set hx⟩
  | .snippetLine _ _, _, _, hx, hf => by rw [Instr.perform]; exact snippetLine_reaches hx hf
  | .template source fill, x, todo, hx, hf => by
    obtain ⟨us, hu⟩ := perform_reaches set (fill (x.pass.cache.split source).1)
      (x := x.next set todo (.template source fill)) rfl hf
    rw [Instr.perform]
    exact ⟨us, (Reaches.next set hx).trans hu⟩
  | .problem _ _, _, _, hx, _ => by rw [Instr.perform]; exact ⟨_, Reaches.next set hx⟩
  | .fail _, _, _, hx, _ => by rw [Instr.perform]; exact ⟨_, Reaches.next set hx⟩

/-- What a list of instructions comes to is a point of the pass. -/
theorem perform_reaches (set : Settings) : (is : List Instr) → {x : Point} →
    {todo : List Instr} → x.todo = is ++ todo → x.failure = none →
    ∃ us, Reaches set x (x.goOn todo (perform set is x.pass) us)
  | [], x, todo, hx, hf => by
    have hg : x.goOn todo { pass := x.pass } [] = x := goOn_self hx hf
    rw [perform_nil]
    exact ⟨[], by rw [hg]; exact Reaches.refl x⟩
  | i :: is, x, todo, hx, hf => by
    rw [perform_cons]
    obtain ⟨us, hu⟩ := instr_reaches set i hx hf
    apply reaches_andThen hu
    intro hi
    exact perform_reaches set is (by simp [goOn, hi]) (by simp [goOn, hi])

end

/-- The text of a list of statements is the text at the last point of their pass. -/
theorem renderStmts_reaches (set : Settings) (ss : List Stmt) (p : Pass) :
    ∃ x, Reaches set { todo := stmtsInstrs set ss, pass := p } x ∧ x.todo = [] ∧
      x.failure = (renderStmts set ss p).failure ∧ x.pass = (renderStmts set ss p).pass ∧
      x.text = (renderStmts set ss p).pass.page.pending := by
  obtain ⟨us, hu⟩ := perform_reaches set (stmtsInstrs set ss)
    (x := { todo := stmtsInstrs set ss, pass := p }) (List.append_nil _).symm rfl
  exact ⟨_, hu, ite_self [], rfl, rfl, String.empty_append⟩

section Module

open ModulePass

variable {σ : Type} {sink : Sink σ} {cancelled : σ → Bool} {written : σ → String} {s : State σ}

/-- A point between two chunks of a module. -/
structure Between (written : σ → String) (x : Point) (s : State σ) : Prop where
  pass : x.pass = s.pass
  failure : x.failure = none
  flushed : x.flushed = written s.sink
  pending : x.pass.page.pending = ""

theorem flush_state (s : State σ) : (ModulePass.flush sink s).state.pass = s.pass.flush := by
  unfold ModulePass.flush Pass.flush
  grind

theorem flush_written (ha : sink.Appends written) (s : State σ)
    (hf : (ModulePass.flush sink s).failure = none) :
    written (ModulePass.flush sink s).state.sink = written s.sink ++ s.pass.page.pending := by
  have hw := ha.write s.pass.page.pending s.sink
  unfold ModulePass.flush at hf ⊢
  dsimp only at hf ⊢
  split
  · rename_i he
    simp [he]
  · rcases hs : sink.write s.pass.page.pending s.sink with ⟨t, _ | failure⟩
    · exact hw t hs
    · simp [hs] at hf
      simp_all

theorem Between.text (h : Between written x s) : x.text = written s.sink := by
  rw [Point.text, h.flushed, h.pending, String.append_empty]

/-- One chunk of a module ends at a point of the pass. If it did not fail, the next one is begun
there. -/
theorem chunk_reaches (ha : sink.Appends written) (hb : Between written x s) {q : Pass}
    (hx : x.todo = is ++ todo) (hp : perform set is s.pass = { pass := q }) :
    ∃ y, Reaches set x y ∧
      y.pass = (ModulePass.flush sink { s with pass := q }).state.pass ∧ y.todo = todo ∧
      ((ModulePass.flush sink { s with pass := q }).failure = none →
        Between written y (ModulePass.flush sink { s with pass := q }).state) := by
  obtain ⟨us, hu⟩ := perform_reaches set is hx hb.failure
  rw [hb.pass, hp] at hu
  refine ⟨_, hu.trans (Reaches.flush _), ?_, rfl, fun hf => ⟨?_, rfl, ?_, rfl⟩⟩
  · rw [flush_state]
    rfl
  · rw [flush_state]
    rfl
  · rw [flush_written ha _ hf, ← hb.flushed]
    rfl

/-- What is known of the point that a pass came to, if nothing failed. -/
structure Ended (written : σ → String) (y : Point) (p : Progress σ) : Prop where
  text : y.text = written p.state.sink
  todo : p.cancelled = false → y.todo = []
  failure : y.failure = none

theorem eq_of_failure {p : Progress σ} (hf : p.failure = none) :
    p = { state := p.state, cancelled := p.cancelled } := by
  rw [← hf]

theorem Between.ended_cancelled (h : Between written x s) :
    Ended written x { state := s, cancelled := true } :=
  ⟨h.text, nofun, h.failure⟩

theorem declarations_reaches (ha : sink.Appends written) (decls : List Stmt)
    (hb : Between written x s)
    (hx : x.todo = (decls.map fun decl => decl.instrs set ++ [.endLine, .newline]).flatten) :
    ∃ y, Reaches set x y ∧ y.pass = (declarations set sink cancelled decls s).state.pass ∧
      ((declarations set sink cancelled decls s).failure = none →
        Ended written y (declarations set sink cancelled decls s)) := by
  induction decls generalizing x s with
  | nil => exact ⟨x, Reaches.refl x, hb.pass, fun _ => ⟨hb.text, fun _ => hx, hb.failure⟩⟩
  | cons decl decls ih =>
    simp only [declarations]
    by_cases hc : cancelled s.sink = true
    · rw [if_pos hc]
      exact ⟨x, Reaches.refl x, hb.pass, fun _ => hb.ended_cancelled⟩
    · rw [if_neg hc, declaration]
      have hd := perform_declaration set decl s.pass
      rw [List.map_cons, List.flatten_cons] at hx
      rcases hp : perform set (decl.instrs set) s.pass with ⟨q, _ | failure⟩
      · rw [hp] at hd
        obtain ⟨y, hy, hpass, htodo, hnext⟩ := chunk_reaches ha hb hx hd
        dsimp only at hpass hnext ⊢
        split
        · rename_i t _ heq
          rw [heq] at hnext
          obtain ⟨hp, hf, hw, he⟩ := hnext rfl
          obtain ⟨z, hz, hzp⟩ :=
            ih (s := { t with printed := t.printed + 1 }) ⟨hp, hf, hw, he⟩ htodo
          exact ⟨z, hy.trans hz, hzp⟩
        · rename_i hfailed
          exact ⟨y, hy, hpass, fun hf => (hfailed _ _ (eq_of_failure hf)).elim⟩
      · rw [hp] at hd
        obtain ⟨us, hu⟩ := perform_reaches set (decl.instrs set ++ [.endLine, .newline])
          hx hb.failure
        refine ⟨_, hu, ?_, fun hf => by cases hf⟩
        simp [goOn, hb.pass, hd, Outcome.andThen]

theorem chunks_reaches (ha : sink.Appends written) (cancelled : σ → Bool) (body : List Stmt)
    (hb : Between written x s) (hx : x.todo = (moduleInstrs set body).flatten) :
    ∃ y, Reaches set x y ∧ y.pass = (chunks set sink cancelled body s).state.pass ∧
      ((chunks set sink cancelled body s).failure = none →
        Ended written y (chunks set sink cancelled body s)) := by
  rw [chunks]
  by_cases hc : cancelled s.sink = true
  · rw [if_pos hc]
    exact ⟨x, Reaches.refl x, hb.pass, fun _ => hb.ended_cancelled⟩
  · rw [if_neg hc, imports]
    rw [moduleInstrs, List.flatten_cons] at hx
    rcases hp : perform set (stmtsInstrs set (splitImports body).1 ++ [.newline]) s.pass with
      ⟨q, _ | failure⟩
    · obtain ⟨y, hy, hpass, htodo, hnext⟩ := chunk_reaches ha hb hx hp
      simp only [hp]
      split
      · rename_i t _ heq
        rw [heq] at hnext
        obtain ⟨z, hz, hzp⟩ := declarations_reaches ha (splitImports body).2 (hnext rfl) htodo
        exact ⟨z, hy.trans hz, hzp⟩
      · rename_i hfailed
        exact ⟨y, hy, hpass, fun hf => (hfailed _ _ (eq_of_failure hf)).elim⟩
    · obtain ⟨us, hu⟩ := perform_reaches set (stmtsInstrs set (splitImports body).1 ++ [.newline])
        hx hb.failure
      refine ⟨_, hu, ?_, fun hf => by simp [hp] at hf⟩
      simp [goOn, hb.pass, hp]

theorem finish_cases (sink : Sink σ) (before total : Nat) (p : Progress σ) :
    (finish sink before total p).pass = p.state.pass ∧
      (finish sink before total p).sink = (sink.close p.state.sink).1 ∧
      ∀ summary, (finish sink before total p).outcome = .ok summary →
        p.failure = none ∧ summary.cancelled = p.cancelled := by
  unfold finish
  grind

/-- What a module pass comes to is a point of printing its chunks one after the other. If nothing
failed, what was written is the text at that point, which is the last one unless the pass was
cancelled. -/
theorem run_reaches (set : Settings) (ha : sink.Appends written) (cancelled : σ → Bool)
    (body : List Stmt) {p : Pass} {state : σ} (hp : p.page.pending = "")
    (hw : written state = "") :
    ∃ x, Reaches set { todo := (moduleInstrs set body).flatten, pass := p } x ∧
      x.pass = (run set sink cancelled body p state).pass ∧
      ∀ summary, (run set sink cancelled body p state).outcome = .ok summary →
        x.text = written (run set sink cancelled body p state).sink ∧
        x.failure = none ∧ (summary.cancelled = false → x.todo = []) := by
  have hb : Between written { todo := (moduleInstrs set body).flatten, pass := p }
      { pass := p, sink := state } := ⟨rfl, rfl, hw.symm, hp⟩
  obtain ⟨x, hx, hpass, hended⟩ := chunks_reaches ha cancelled body hb rfl
  obtain ⟨hp, hs, ho⟩ := finish_cases sink p.diagnostics.length (splitImports body).2.length
    (chunks set sink cancelled body { pass := p, sink := state })
  rw [run]
  refine ⟨x, hx, hpass.trans hp.symm, fun summary h => ?_⟩
  obtain ⟨hnone, hcancelled⟩ := ho summary h
  obtain ⟨htext, htodo, hfailure⟩ := hended hnone
  rw [hs, ha.close, hcancelled]
  exact ⟨htext, hfailure, htodo⟩

end Module

end Point

end CodePrinter
