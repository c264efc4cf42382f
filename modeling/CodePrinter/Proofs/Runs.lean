import CodePrinter.Print.Stmt

/-! Runs of instructions, whatever they print.

Main statements: an induction over instructions and what templates are filled with
(`instrs_induction`), that a run only adds to what was there (`perform_extends`), and that what is
printed depends on the names of run-time helpers and the paths of modules alone
(`Tree.instrs_congr`). -/
namespace CodePrinter

/-- What is printed in one go. -/
inductive Tree where
  | expr (e : Expr)
  | stmts (ss : List Stmt)

namespace Tree

def instrs (set : Settings) : Tree → List Instr
  | .expr e => (e.fragment set.names).bare
  | .stmts ss => stmtsInstrs set ss

def render (set : Settings) (p : Pass) : Tree → Outcome
  | .expr e => e.render set p
  | .stmts ss => renderStmts set ss p

theorem render_eq (set : Settings) (p : Pass) (t : Tree) :
    t.render set p = perform set (t.instrs set) p := by
  cases t <;> rfl

end Tree

theorem perform_singleton (set : Settings) (i : Instr) (p : Pass) :
    perform set [i] p = i.perform set p := by
  rw [perform_cons, Outcome.andThen]
  split
  · rename_i hf
    rw [perform_nil, ← hf]
  · rfl

/-- A run does not fail if neither of its two parts does. -/
theorem perform_append_eq_pass {set : Settings} {is js : List Instr} {p r : Pass} :
    perform set (is ++ js) p = { pass := r } ↔
      ∃ q, perform set is p = { pass := q } ∧ perform set js q = { pass := r } := by
  rw [perform_append]
  rcases perform set is p with ⟨q, _ | failure⟩
  · constructor
    · intro h
      exact ⟨q, rfl, h⟩
    · rintro ⟨_, ⟨⟩, h⟩
      exact h
  · constructor
    · intro h
      cases h
    · rintro ⟨_, ⟨⟩, _⟩

/-- A fact about lists of instructions holds if it holds of an instruction and more of them, where
it may be used for everything that a template is filled with. -/
theorem instrs_induction {motive : List Instr → Prop} (nil : motive [])
    (cons : ∀ i is, (∀ source fill, i = .template source fill → ∀ parts, motive (fill parts)) →
      motive is → motive (i :: is)) (is : List Instr) : motive is := by
  refine @Instr.rec_1
    (fun i => ∀ source fill, i = .template source fill → ∀ parts, motive (fill parts)) motive
    ?_ ?_ ?_ ?_ ?_ ?_ ?_ ?template ?_ ?_ nil (fun i is => cons i is) is
  case template =>
    intro source fill hfill _ _ h
    cases h
    exact hfill
  all_goals
    intros
    rename_i h _
    cases h

/-- The `else` part of a conditional that is neither left out nor an `elif`. -/
theorem elseInstrs_eq {set : Settings} (s : Stmt) (ss : List Stmt)
    (hp : ∀ loc, s :: ss ≠ [.pass loc])
    (hc : ∀ test body orElse loc, s :: ss ≠ [.conditional test body orElse loc]) :
    elseInstrs set (s :: ss) = .text "else:" :: block (stmtsInstrs set (s :: ss)) := by
  rw [elseInstrs, stmtsInstrs]
  · exact fun loc hs hss => hp loc (by rw [hs, hss])
  · exact fun test body orElse loc hs hss => hc test body orElse loc (by rw [hs, hss])

/-- Nothing that one pass has is missing from another. -/
structure Pass.Extends (p q : Pass) : Prop where
  pending : p.page.pending.toList <+: q.page.pending.toList
  mappings : p.mappings <+: q.mappings
  diagnostics : p.diagnostics <+: q.diagnostics

namespace Pass.Extends

variable {p q r : Pass}

theorem refl (p : Pass) : p.Extends p :=
  ⟨List.prefix_rfl, List.prefix_rfl, List.prefix_rfl⟩

theorem trans (h : p.Extends q) (h' : q.Extends r) : p.Extends r :=
  ⟨h.pending.trans h'.pending, h.mappings.trans h'.mappings, h.diagnostics.trans h'.diagnostics⟩

theorem onPage {f : Page → Page} (h : p.page.pending.toList <+: (f p.page).pending.toList) :
    p.Extends (p.onPage f).pass :=
  ⟨h, List.prefix_rfl, List.prefix_rfl⟩

end Pass.Extends

namespace Page

theorem startLine_eq_print (unit : String) (p : Page) : p.startLine unit = p.print unit "" := by
  simp [print]

theorem startLine_print (unit text : String) (p : Page) :
    (p.print unit text).startLine unit = p.print unit text := by
  by_cases hc : (p.print unit text).column = 0
  · have hcolumn : (p.startLine unit).column = 0 := by
      simp only [print] at hc
      omega
    have hindent : indentation unit p.depth = "" := by
      unfold startLine at hcolumn
      split at hcolumn
      · exact Text.width_eq_zero.mp hcolumn
      · contradiction
    have hdepth : (p.print unit text).depth = p.depth := by
      simp only [print, startLine]
      split <;> rfl
    have hzero : indentation unit (p.print unit text).depth = "" := by rw [hdepth, hindent]
    rw [startLine, if_pos hc, hzero, String.append_empty, Text.width_empty, ← hc]
  · rw [startLine, if_neg hc]

theorem print_print (unit s t : String) (p : Page) :
    (p.print unit s).print unit t = p.print unit (s ++ t) := by
  have hempty : (s ++ t ≠ "") ↔ (s ≠ "" ∨ t ≠ "") := by
    rw [Ne, String.append_eq_empty_iff, Decidable.not_and_iff_not_or_not]
  rw [print, startLine_print]
  simp [print, String.append_assoc, Nat.add_assoc, hempty, Bool.or_assoc]

theorem prefix_startLine (unit : String) (p : Page) :
    p.pending.toList <+: (p.startLine unit).pending.toList := by
  unfold startLine
  split
  · rw [String.toList_append]
    exact List.prefix_append _ _
  · exact List.prefix_rfl

theorem prefix_print (unit text : String) (p : Page) :
    p.pending.toList <+: (p.print unit text).pending.toList := by
  apply (prefix_startLine unit p).trans
  simp only [print, String.toList_append]
  exact List.prefix_append _ _

theorem prefix_newline (p : Page) : p.pending.toList <+: p.newline.pending.toList := by
  simp only [newline, String.toList_append]
  exact List.prefix_append _ _

theorem prefix_endLine (p : Page) : p.pending.toList <+: p.endLine.pending.toList := by
  unfold endLine
  split
  · exact List.prefix_rfl
  · exact prefix_newline p

theorem prefix_snippetLine (unit text : String) (more : Bool) (p : Page) :
    p.pending.toList <+: (p.snippetLine unit text more).pending.toList := by
  unfold snippetLine
  extract_lets value
  split
  · exact List.prefix_rfl
  · split
    · exact (prefix_print unit value p).trans (prefix_newline _)
    · exact prefix_print unit value p

end Page

/-- What is kept of a mapping. -/
def Settings.kept (set : Settings) (m : Mapping) : List Mapping :=
  match set.maps with
  | .discard => []
  | .keep => [m]
  | .checked source => if m.fits source then [m] else []

/-- The failure that a mapping leads to, if it cannot be kept. -/
def Settings.refusal (set : Settings) (m : Mapping) : Option Failure :=
  match set.maps with
  | .checked source => if m.fits source then none else some (.fault (.invalidMapping source m))
  | _ => none

/-- A mark begins the line, and adds what is kept of its mapping. -/
theorem Pass.mark_eq (set : Settings) (loc : Location) (p : Pass) :
    p.mark set loc =
      let page := p.page.startLine set.indent
      { pass := { p with page, mappings := p.mappings ++ set.kept (mappingAt page loc) }
        failure := set.refusal (mappingAt page loc) } := by
  unfold Pass.mark Settings.kept Settings.refusal
  cases hm : set.maps with
  | discard => simp
  | keep => rfl
  | checked source =>
    dsimp only
    split <;> simp

/-- Mappings are not checked: every one is kept, or none is. -/
def Settings.Unchecked (set : Settings) : Prop := ∀ source, set.maps ≠ .checked source

/-- A mark only begins the line, unless mappings are checked. -/
theorem perform_markAt {set : Settings} (hm : set.Unchecked)
    (loc : Option Location) (p : Pass) :
    ∃ q, perform set (markAt loc) p = { pass := q } ∧ q.cache = p.cache ∧
      q.page = if loc.isSome then p.page.startLine set.indent else p.page := by
  cases loc with
  | none => exact ⟨p, perform_nil set p, rfl, rfl⟩
  | some loc =>
    have hrefusal : ∀ m, set.refusal m = none := by
      intro m
      unfold Settings.refusal
      split
      · rename_i source hs
        exact absurd hs (hm source)
      · rfl
    refine ⟨(p.mark set loc).pass, ?_, ?_, ?_⟩
    · rw [markAt, perform_singleton, Instr.perform, Pass.mark_eq]
      simp only [hrefusal]
    · rw [Pass.mark_eq]
    · rw [Pass.mark_eq]
      rfl

/-- Instructions do what printing a text does. -/
def Puts (set : Settings) (is : List Instr) (text : String) : Prop :=
  ∀ p, ∃ q, perform set is p = { pass := q } ∧ q.page = p.page.print set.indent text

theorem Puts.append {set : Settings} {is js : List Instr} {s t : String} (h : Puts set is s)
    (hj : Puts set js t) : Puts set (is ++ js) (s ++ t) := by
  intro p
  obtain ⟨q, hp, hq⟩ := h p
  obtain ⟨r, hr, hpage⟩ := hj q
  exact ⟨r, perform_append_eq_pass.mpr ⟨q, hp, hr⟩, by rw [hpage, hq, Page.print_print]⟩

theorem puts_text (set : Settings) (text : String) : Puts set [.text text] text :=
  fun p => ⟨_, perform_singleton set (.text text) p, rfl⟩

theorem Puts.after_mark {set : Settings} {is : List Instr} {text : String}
    (hm : set.Unchecked) (loc : Option Location) (h : Puts set is text) :
    Puts set (markAt loc ++ is) text := by
  intro p
  obtain ⟨q, hp, -, hq⟩ := perform_markAt hm loc p
  obtain ⟨r, hr, hpage⟩ := h q
  refine ⟨r, perform_append_eq_pass.mpr ⟨q, hp, hr⟩, ?_⟩
  rw [hpage, hq]
  split
  · rw [Page.startLine_eq_print, Page.print_print, String.empty_append]
  · rfl

theorem Pass.mark_extends (set : Settings) (loc : Location) (p : Pass) :
    p.Extends (p.mark set loc).pass := by
  rw [Pass.mark_eq]
  exact ⟨Page.prefix_startLine set.indent p.page, List.prefix_append _ _, List.prefix_rfl⟩

/-- The diagnostic of a problem. -/
def Problem.diagnostic (set : Settings) (what : Problem) (loc : Option Location) : Diagnostic :=
  { severity := .error
    code := what.code
    message := what.message
    loc
    fileName := set.fileName }

/-- A problem adds its diagnostic, unless the policy stops at it. -/
theorem Pass.problem_eq (set : Settings) (what : Problem) (loc : Option Location) (p : Pass) :
    p.problem set what loc =
      if what.isFatal = true ∧ set.policy = .fatal then
        { pass := p
          failure := some (.compile { message := what.message, stage := what.stage, loc }) }
      else
        { pass := { p with diagnostics := p.diagnostics ++ [what.diagnostic set loc] } } := by
  unfold Pass.problem Problem.report FailurePolicy.report
  cases hf : what.isFatal <;> cases hp : set.policy <;> rfl

theorem Pass.problem_extends (set : Settings) (what : Problem) (loc : Option Location) (p : Pass) :
    p.Extends (p.problem set what loc).pass := by
  rw [Pass.problem_eq]
  split
  · exact .refl p
  · exact ⟨List.prefix_rfl, List.prefix_rfl, List.prefix_append _ _⟩

theorem Pass.Extends.andThen {p : Pass} {o : Outcome} {next : Pass → Outcome}
    (h : p.Extends o.pass) (hn : o.pass.Extends (next o.pass).pass) :
    p.Extends (o.andThen next).pass := by
  unfold Outcome.andThen
  split
  · exact h.trans hn
  · exact h

/-- What holds of a page whatever is printed on it holds at the end of a run. -/
theorem perform_page {set : Settings} {P : Page → Prop}
    (hprint : ∀ text p, P p → P (p.print set.indent text)) (hnewline : ∀ p, P p → P p.newline)
    (hindent : ∀ p, P p → P p.indent) (hdedent : ∀ p, P p → P p.dedent) (is : List Instr) {p : Pass} (h : P p.page) :
    P (perform set is p).pass.page := by
  induction is using instrs_induction generalizing p with
  | nil => rwa [perform_nil]
  | cons i is hfill ih =>
    have hi : P (i.perform set p).pass.page := by
      cases i with
      | text value => exact hprint value _ h
      | mark loc =>
        rw [Instr.perform, Pass.mark_eq, Page.startLine_eq_print]
        exact hprint "" _ h
      | newline => exact hnewline _ h
      | endLine =>
        change P p.page.endLine
        unfold Page.endLine
        split
        · exact h
        · exact hnewline _ h
      | indent => exact hindent _ h
      | dedent => exact hdedent _ h
      | snippetLine value more =>
        change P (p.page.snippetLine set.indent value more)
        unfold Page.snippetLine
        extract_lets text
        split
        · exact h
        · split
          · exact hnewline _ (hprint text _ h)
          · exact hprint text _ h
      | template source fill =>
        rw [Instr.perform]
        exact hfill source fill rfl _ h
      | problem what loc =>
        rw [Instr.perform, Pass.problem_eq]
        split <;> exact h
      | fail what => exact h
    rw [perform_cons, Outcome.andThen]
    split
    · exact ih hi
    · exact hi

theorem line_pos_perform (set : Settings) (is : List Instr) {p : Pass} (hp : 0 < p.page.line) :
    0 < (perform set is p).pass.page.line := by
  refine perform_page (P := fun p => 0 < p.line) ?_ ?_ (fun _ h => h) (fun _ h => h) is hp
  · intro text p h
    unfold Page.print Page.startLine
    split <;> exact h
  · intro p h
    exact Nat.succ_pos p.line

/-- A run only adds to what was there. -/
theorem perform_extends (set : Settings) (is : List Instr) (p : Pass) :
    p.Extends (perform set is p).pass := by
  induction is using instrs_induction generalizing p with
  | nil =>
    rw [perform_nil]
    exact .refl p
  | cons i is hfill ih =>
    rw [perform_cons]
    refine Pass.Extends.andThen ?_ (ih _)
    cases i with
    | text value => exact .onPage (Page.prefix_print set.indent value p.page)
    | mark loc => exact p.mark_extends set loc
    | newline => exact .onPage p.page.prefix_newline
    | endLine => exact .onPage p.page.prefix_endLine
    | indent | dedent => exact .onPage List.prefix_rfl
    | snippetLine value more => exact .onPage (Page.prefix_snippetLine set.indent value more p.page)
    | template source fill =>
      have h := hfill source fill rfl (p.cache.split source).1
        { p with cache := (p.cache.split source).2 }
      exact ⟨h.pending, h.mappings, h.diagnostics⟩
    | problem what loc => exact p.problem_extends set what loc
    | fail what => exact .refl p

section Congruence

variable {set set' : Settings}

mutual

theorem Stmt.instrs_congr (hn : set.names = set'.names) (hr : set.resolve = set'.resolve) :
    (s : Stmt) → s.instrs set = s.instrs set'
  | .functionDef name params body decorators returns loc => by
    simp only [Stmt.instrs, hn, stmtsInstrs_congr hn hr body]
  | .classDef name bases body decorators loc => by
    simp only [Stmt.instrs, hn, stmtsInstrs_congr hn hr body]
  | .conditional test body orElse loc => by
    simp only [Stmt.instrs, hn, stmtsInstrs_congr hn hr body, elseInstrs_congr hn hr orElse]
  | .forLoop target iter body loc => by
    simp only [Stmt.instrs, hn, stmtsInstrs_congr hn hr body]
  | .whileLoop test body loc => by
    simp only [Stmt.instrs, hn, stmtsInstrs_congr hn hr body]
  | .tryBlock body handlers orElse finalBody loc => by
    simp only [Stmt.instrs, stmtsInstrs_congr hn hr body, stmtsInstrs_congr hn hr orElse,
      stmtsInstrs_congr hn hr finalBody, handlersInstrs_congr hn hr handlers]
  | .importFrom module names loc => by simp only [Stmt.instrs, hr]
  | .assign targets value loc => by simp only [Stmt.instrs, hn]
  | .returnValue value loc => by simp only [Stmt.instrs, hn]
  | .raise exception loc => by simp only [Stmt.instrs, hn]
  | .expr value loc => by simp only [Stmt.instrs, hn]
  | .asyncFunctionDef _ _ _ _ _ _ | .asyncFor _ _ _ _ | .importNames _ _ | .pass _ | .breakLoop _
  | .continueLoop _ | .globalNames _ _ | .nonlocalNames _ _ | .unknown _ _ _ => by
    simp only [Stmt.instrs]

theorem stmtsInstrs_congr (hn : set.names = set'.names) (hr : set.resolve = set'.resolve) :
    (ss : List Stmt) → stmtsInstrs set ss = stmtsInstrs set' ss
  | [] => by simp only [stmtsInstrs]
  | s :: ss => by
    simp only [stmtsInstrs, s.instrs_congr hn hr, stmtsInstrs_congr hn hr ss]

theorem elseInstrs_congr (hn : set.names = set'.names) (hr : set.resolve = set'.resolve) :
    (ss : List Stmt) → elseInstrs set ss = elseInstrs set' ss
  | [] => by simp only [elseInstrs]
  | [s] => by
    cases s with
    | pass loc => simp only [elseInstrs]
    | conditional test body orElse loc =>
      simp only [elseInstrs, hn, stmtsInstrs_congr hn hr body, elseInstrs_congr hn hr orElse]
    | _ => simp only [elseInstrs, stmtsInstrs, Stmt.instrs_congr hn hr _]
  | s :: t :: ss => by
    simp only [elseInstrs, s.instrs_congr hn hr, stmtsInstrs_congr hn hr (t :: ss)]

theorem Handler.instrs_congr (hn : set.names = set'.names) (hr : set.resolve = set'.resolve) :
    (h : Handler) → h.instrs set = h.instrs set'
  | .mk body type name loc => by
    simp only [Handler.instrs, hn, stmtsInstrs_congr hn hr body]

theorem handlersInstrs_congr (hn : set.names = set'.names) (hr : set.resolve = set'.resolve) :
    (hs : List Handler) → handlersInstrs set hs = handlersInstrs set' hs
  | [] => by simp only [handlersInstrs]
  | h :: hs => by
    simp only [handlersInstrs, h.instrs_congr hn hr, handlersInstrs_congr hn hr hs]

end

/-- What is printed does not depend on how it is laid out or what becomes of problems. -/
theorem Tree.instrs_congr (hn : set.names = set'.names) (hr : set.resolve = set'.resolve)
    (t : Tree) : t.instrs set = t.instrs set' := by
  cases t with
  | expr e => simp only [Tree.instrs, hn]
  | stmts ss => exact stmtsInstrs_congr hn hr ss

end Congruence

end CodePrinter
