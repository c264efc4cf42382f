import CodePrinter.Proofs.Balance
import CodePrinter.Proofs.CacheHistory
import CodePrinter.Proofs.Positions

/-! Texts that are printed below one another.

What was printed before a line has no part in what is printed from there on (`perform_below`), and
statements leave the margin as they found it (`Page.AtMargin.stmts`). Main statement: what a module
prints is what its parts print on their own, one below the other (`parts_on_their_own`). -/
namespace CodePrinter

variable {set : Settings} {is : List Instr} {p q b : Pass}

/-! Runs below what another pass has printed. -/

/-- The mapping, so many lines further down. -/
def Mapping.below (lines : Nat) (m : Mapping) : Mapping :=
  { m with generated := { m.generated with line := lines + m.generated.line } }

theorem Mapping.fits_below (lines : Nat) {m : Mapping} (hm : 0 < m.generated.line)
    (source : String) : (m.below lines).fits source = m.fits source := by
  have hlines : 0 < (m.below lines).generated.line := by
    simp only [Mapping.below]
    omega
  have hline : decide (0 < (m.below lines).generated.line) = decide (0 < m.generated.line) :=
    decide_eq_decide.mpr (iff_of_true hlines hm)
  unfold Mapping.fits
  rw [hline]
  rfl

namespace Page

/-- The page, below the text of another one. -/
def below (p b : Page) : Page :=
  { p with pending := b.pending ++ p.pending, line := b.line - 1 + p.line }

variable (unit text : String) (p b : Page)

theorem startLine_below : (p.below b).startLine unit = (p.startLine unit).below b := by
  unfold startLine
  split
  · rename_i hc
    rw [if_pos (by exact hc)]
    simp [below, String.append_assoc]
  · rename_i hc
    rw [if_neg (by exact hc)]

theorem print_below : (p.below b).print unit text = (p.print unit text).below b := by
  unfold print
  rw [startLine_below]
  simp [below, String.append_assoc]

theorem newline_below : (p.below b).newline = p.newline.below b := by
  simp [newline, below, String.append_assoc, Nat.add_assoc]

theorem endLine_below : (p.below b).endLine = p.endLine.below b := by
  unfold endLine
  rw [newline_below]
  exact (apply_ite (below · b) (p.column = 0) p p.newline).symm

theorem snippetLine_below (more : Bool) :
    (p.below b).snippetLine unit text more = (p.snippetLine unit text more).below b := by
  have hhasText : (p.below b).hasText = p.hasText := rfl
  simp only [snippetLine, print_below, newline_below, hhasText]
  generalize (if p.hasText then text else String.ofList (Text.trimStart text.toList)) = value
  split
  · rfl
  · split <;> rfl

end Page

namespace Pass

/-- The pass, after all that another one came to. -/
def below (p b : Pass) : Pass :=
  { page := p.page.below b.page
    mappings := b.mappings ++ p.mappings.map (Mapping.below (b.page.line - 1))
    diagnostics := b.diagnostics ++ p.diagnostics
    cache := p.cache }

end Pass

/-- One outcome is the other, after all that another pass came to. -/
structure Outcome.Below (b : Pass) (o o' : Outcome) : Prop where
  pass : o'.pass = o.pass.below b
  failure : o'.failure.isNone = o.failure.isNone

namespace Outcome.Below

variable {o o' : Outcome} {next : Pass → Outcome}

theorem andThen (h : Below b o o') (hn : Below b (next o.pass) (next (o.pass.below b))) :
    Below b (o.andThen next) (o'.andThen next) := by
  have hf := h.failure
  unfold Outcome.andThen
  cases ho : o.failure with
  | none =>
    rw [ho, Option.isNone_none, Option.isNone_iff_eq_none] at hf
    rw [hf, h.pass]
    exact hn
  | some failure =>
    cases ho' : o'.failure with
    | none => simp [ho, ho'] at hf
    | some failure' => exact h

theorem onPage {f : Page → Page} (hf : ∀ p b : Page, f (p.below b) = (f p).below b) :
    Below b (p.onPage f) ((p.below b).onPage f) := by
  refine ⟨?_, rfl⟩
  simp [Pass.onPage, Pass.below, hf]

theorem mark (set : Settings) (loc : Location) (hp : 0 < p.page.line) :
    Below b (p.mark set loc) ((p.below b).mark set loc) := by
  have hpage : (p.below b).page.startLine set.indent = (p.page.startLine set.indent).below b.page :=
    Page.startLine_below set.indent p.page b.page
  have hline : (p.page.startLine set.indent).line = p.page.line := by
    unfold Page.startLine
    split <;> rfl
  have hmapping : Pass.mappingAt ((p.page.startLine set.indent).below b.page) loc =
      (Pass.mappingAt (p.page.startLine set.indent) loc).below (b.page.line - 1) := by
    simp [Pass.mappingAt, Mapping.below, Page.below]
  have hpos : 0 < (Pass.mappingAt (p.page.startLine set.indent) loc).generated.line := by
    simp only [Pass.mappingAt, hline]
    omega
  rw [Pass.mark_eq, Pass.mark_eq, hpage]
  dsimp only
  rw [hmapping]
  constructor
  · have hkept : set.kept ((Pass.mappingAt (p.page.startLine set.indent) loc).below
        (b.page.line - 1)) =
        (set.kept (Pass.mappingAt (p.page.startLine set.indent) loc)).map
          (Mapping.below (b.page.line - 1)) := by
      unfold Settings.kept
      split
      · rfl
      · rfl
      · rw [Mapping.fits_below _ hpos]
        split <;> rfl
    simp [Pass.below, hkept, List.append_assoc]
  · unfold Settings.refusal
    split
    · dsimp only
      rw [Mapping.fits_below _ hpos]
      split <;> rfl
    · rfl

theorem problem (set : Settings) (what : Problem) (loc : Option Location) (p : Pass) :
    Below b (p.problem set what loc) ((p.below b).problem set what loc) := by
  rw [Pass.problem_eq, Pass.problem_eq]
  split
  · exact ⟨rfl, rfl⟩
  · refine ⟨?_, rfl⟩
    simp [Pass.below, List.append_assoc]

end Outcome.Below

/-- What was printed before has no part in a run. -/
theorem perform_below (set : Settings) (b : Pass) (is : List Instr) (hp : 0 < p.page.line) :
    Outcome.Below b (perform set is p) (perform set is (p.below b)) := by
  induction is using instrs_induction generalizing p with
  | nil =>
    rw [perform_nil, perform_nil]
    exact ⟨rfl, rfl⟩
  | cons i is hfill ih =>
    have hi : Outcome.Below b (i.perform set p) (i.perform set (p.below b)) := by
      cases i with
      | text value => exact .onPage (Page.print_below set.indent value)
      | mark loc => exact .mark set loc hp
      | newline => exact .onPage Page.newline_below
      | endLine => exact .onPage Page.endLine_below
      | indent | dedent => exact .onPage fun _ _ => rfl
      | snippetLine value more =>
        exact .onPage fun p b => Page.snippetLine_below set.indent value p b more
      | template source fill =>
        rw [Instr.perform, Instr.perform]
        exact hfill source fill rfl _ (p := { p with cache := (p.cache.split source).2 }) hp
      | problem what loc => exact .problem set what loc p
      | fail what => exact ⟨rfl, rfl⟩
    have hline : 0 < (i.perform set p).pass.page.line := by
      rw [← perform_singleton]
      exact line_pos_perform set [i] hp
    rw [perform_cons, perform_cons]
    exact hi.andThen (ih hline)

/-! Statements begin and end at the margin. -/

/-- Nothing stands on the line, and there is no indentation. -/
structure Page.AtMargin (p : Page) : Prop where
  column : p.column = 0
  hasText : p.hasText = false
  depth : p.depth = 0
  line : 0 < p.line

/-- There is no text on a line before its first column. -/
def Page.Tidy (p : Page) : Prop := p.column = 0 → p.hasText = false

theorem tidy_perform (set : Settings) (is : List Instr) (hp : p.page.Tidy) :
    (perform set is p).pass.page.Tidy := by
  refine perform_page (P := Page.Tidy) ?_ (fun _ _ _ => rfl) (fun _ h => h) (fun _ h => h) is hp
  intro text p h hcolumn
  have hwidth : (p.startLine set.indent).column = 0 ∧ Text.width text = 0 := by
    simp only [Page.print] at hcolumn
    omega
  have hstart : (p.startLine set.indent).hasText = false := by
    unfold Page.startLine at hwidth ⊢
    split
    · rename_i hc
      exact h hc
    · rename_i hc
      rw [if_neg hc] at hwidth
      exact absurd hwidth.1 hc
  simp [Page.print, hstart, Text.width_eq_zero.mp hwidth.2]

theorem Page.Tidy.endLine {p : Page} (h : p.Tidy) :
    p.endLine.column = 0 ∧ p.endLine.hasText = false := by
  unfold Page.endLine
  split
  · rename_i hc
    exact ⟨hc, h hc⟩
  · exact ⟨rfl, rfl⟩

/-- The last line that statements print is ended. -/
theorem stmts_end (ss : List Stmt) (hp : p.page.column = 0 ∧ p.page.hasText = false)
    (h : perform set (stmtsInstrs set ss) p = { pass := q }) :
    q.page.column = 0 ∧ q.page.hasText = false := by
  induction ss generalizing p with
  | nil =>
    rw [stmtsInstrs, perform_nil] at h
    cases h
    exact hp
  | cons s ss ih =>
    rw [stmtsInstrs, perform_append_eq_pass] at h
    obtain ⟨r, hr, hq⟩ := h
    have htidy := tidy_perform set (s.instrs set) (p := p) fun _ => hp.2
    rw [hr] at htidy
    rw [perform_cons] at hq
    exact ih htidy.endLine hq

theorem Page.AtMargin.stmts (hp : p.page.AtMargin) {ss : List Stmt}
    (h : perform set (stmtsInstrs set ss) p = { pass := q }) : q.page.AtMargin := by
  have hline := line_pos_perform set (stmtsInstrs set ss) hp.line
  rw [h] at hline
  obtain ⟨hcolumn, hhasText⟩ := stmts_end ss ⟨hp.column, hp.hasText⟩ h
  exact ⟨hcolumn, hhasText, ((stmts_balanced set ss).depth h).trans hp.depth, hline⟩

theorem Page.AtMargin.flush {p : Page} (h : p.AtMargin) : p.flush.AtMargin :=
  ⟨h.column, h.hasText, h.depth, h.line⟩

/-- A pass at the margin is a fresh one below itself. -/
theorem Page.AtMargin.below_self (h : p.page.AtMargin) :
    ({ cache := p.cache } : Pass).below p = p := by
  obtain ⟨⟨pending, line, column, hasText, depth⟩, mappings, diagnostics, cache⟩ := p
  obtain ⟨hcolumn, hhasText, hdepth, hline⟩ := h
  dsimp only at hcolumn hhasText hdepth hline
  subst hcolumn hhasText hdepth
  simp only [Pass.below, Page.below, List.map_nil, List.append_nil, String.append_empty,
    Nat.sub_add_cancel hline]

/-- The store has no part in what a fresh pass prints. -/
theorem renderStmts_store (set : Settings) {store store' : Template.Cache} (hs : store.Sound)
    (hs' : store'.Sound)
    (ss : List Stmt) :
    (renderStmts set ss { cache := store }).seen =
      (renderStmts set ss { cache := store' }).seen := by
  unfold renderStmts
  rw [seen_perform hs, seen_perform (p := { cache := store' }) hs']
  rfl

/-- Statements below what was printed before are printed as they are on their own. -/
theorem renderStmts_below (set : Settings) {store : Template.Cache} (hp : p.page.AtMargin)
    (hc : p.cache.Sound) (hs : store.Sound) (ss : List Stmt) :
    Outcome.Below p (renderStmts set ss { cache := store }).seen (renderStmts set ss p).seen := by
  have hbelow := perform_below set p (stmtsInstrs set ss) (p := { cache := p.cache }) Nat.one_pos
  rw [hp.below_self] at hbelow
  rw [renderStmts_store set hs hc]
  refine ⟨?_, hbelow.failure⟩
  exact congrArg (Pass.withCache · {}) hbelow.pass

theorem atMargin_fresh (diagnostics : List Diagnostic) (cache : Template.Cache) :
    ({ diagnostics, cache } : Pass).page.AtMargin :=
  ⟨rfl, rfl, rfl, Nat.one_pos⟩

/-- Two lists of statements together print what each prints on its own. -/
theorem renderStmts_append {store₁ store₂ store : Template.Cache} (h₁ : store₁.Sound)
    (h₂ : store₂.Sound) (hs : store.Sound) {xs ys : List Stmt}
    (hx : (renderStmts set xs { cache := store₁ }).failure = none)
    (hy : (renderStmts set ys { cache := store₂ }).failure = none) :
    (renderStmts set (xs ++ ys) { cache := store }).failure = none ∧
    (renderStmts set (xs ++ ys) { cache := store }).pass.page.pending =
      (renderStmts set xs { cache := store₁ }).pass.page.pending ++
        (renderStmts set ys { cache := store₂ }).pass.page.pending := by
  have hstore := renderStmts_store set h₁ hs xs
  have hsound : (perform set (stmtsInstrs set xs) { cache := store }).pass.cache.Sound :=
    sound_perform hs _
  have hpending : (renderStmts set xs { cache := store₁ }).pass.page.pending =
      (renderStmts set xs { cache := store }).pass.page.pending :=
    congrArg (·.pass.page.pending) hstore
  have hfailure : (renderStmts set xs { cache := store }).failure = none :=
    (congrArg Outcome.failure hstore).symm.trans hx
  rw [hpending]
  rcases hxs : renderStmts set xs { cache := store } with ⟨p, failure⟩
  rw [hxs] at hfailure
  obtain rfl : failure = none := hfailure
  unfold renderStmts at hxs
  rw [hxs] at hsound
  -- The second list begins where the first one ended, at the margin.
  have hmargin := (atMargin_fresh [] store).stmts hxs
  have hbelow := renderStmts_below set hmargin hsound h₂ ys
  have hall : renderStmts set (xs ++ ys) { cache := store } = renderStmts set ys p := by
    rw [renderStmts, stmtsInstrs_append, perform_append, hxs]
    rfl
  rw [hall]
  constructor
  · have hnone := hbelow.failure
    rw [Outcome.seen, Outcome.seen, hy] at hnone
    exact Option.isNone_iff_eq_none.mp hnone
  · exact congrArg (·.page.pending) hbelow.pass

/-! The parts of a module. -/

/-- The lists of statements that the chunks of a module are printed from. -/
def moduleParts (body : List Stmt) : List (List Stmt) :=
  (splitImports body).1 :: (splitImports body).2.map ([·])

/-- A chunk ends with an empty line. -/
def partInstrs (set : Settings) (part : List Stmt) : List Instr :=
  stmtsInstrs set part ++ [.newline]

theorem moduleInstrs_eq (set : Settings) (body : List Stmt) :
    moduleInstrs set body = (moduleParts body).map (partInstrs set) := by
  simp [moduleInstrs, moduleParts, partInstrs, stmtsInstrs, Function.comp_def]

/-- The mappings of passes whose texts are put below one another, each with an empty line after it.
The line that a pass ended on tells how many lines that are. -/
def stackedMappings (lines : Nat) : List Pass → List Mapping
  | [] => []
  | p :: ps => p.mappings.map (Mapping.below lines) ++ stackedMappings (lines + p.page.line) ps

/-- What printing a part of a module comes to, in terms of the part on its own. -/
structure Stacked (p : Pass) (alone : Outcome) (q : Pass) : Prop where
  failure : alone.failure = none
  margin : q.page.AtMargin
  sound : q.cache.Sound
  pending : q.page.pending = p.page.pending ++ alone.pass.page.pending ++ "\n"
  line : q.page.line = p.page.line + alone.pass.page.line
  mappings : q.mappings = p.mappings ++ alone.pass.mappings.map (Mapping.below (p.page.line - 1))
  diagnostics : q.diagnostics = p.diagnostics ++ alone.pass.diagnostics

theorem stacked_part {part : List Stmt} {store : Template.Cache} (hp : p.page.AtMargin)
    (hc : p.cache.Sound) (hs : store.Sound)
    (h : perform set (partInstrs set part) p = { pass := q }) :
    Stacked p (renderStmts set part { cache := store }) q := by
  obtain ⟨r, hr, hq⟩ := perform_append_eq_pass.mp h
  have hmargin := hp.stmts hr
  have hsound : (perform set (stmtsInstrs set part) p).pass.cache.Sound := sound_perform hc _
  have hbelow := renderStmts_below set hp hc hs part
  unfold renderStmts at hbelow
  rw [hr] at hbelow hsound
  rw [perform_singleton] at hq
  cases hq
  have hline : r.page.line =
      p.page.line - 1 + (renderStmts set part { cache := store }).pass.page.line :=
    congrArg (·.page.line) hbelow.pass
  refine ⟨?_, ⟨rfl, rfl, hmargin.depth, Nat.succ_pos _⟩, hsound, ?_, ?_, ?_, ?_⟩
  · exact Option.isNone_iff_eq_none.mp hbelow.failure.symm
  · exact congrArg (·.page.pending ++ "\n") hbelow.pass
  · have hpos := hp.line
    change r.page.line + 1 = _
    omega
  · exact congrArg (·.mappings) hbelow.pass
  · exact congrArg (·.diagnostics) hbelow.pass

/-- A run over some parts, each flushed before the next, in terms of the parts on their own. -/
theorem stacked_parts {stores : List Stmt → Template.Cache} (hs : ∀ part, (stores part).Sound)
    (parts : List (List Stmt)) (hp : p.page.AtMargin) (he : p.page.pending = "")
    (hc : p.cache.Sound) (h : passAfter? set (parts.map (partInstrs set)) p = some q) :
    let alone (part : List Stmt) := renderStmts set part { cache := stores part }
    (∀ part ∈ parts, (alone part).failure = none) ∧
    chunkTexts set (parts.map (partInstrs set)) p =
      parts.map (fun part => (alone part).pass.page.pending ++ "\n") ∧
    q.mappings = p.mappings ++
      stackedMappings (p.page.line - 1) (parts.map fun part => (alone part).pass) ∧
    q.diagnostics = p.diagnostics ++ parts.flatMap fun part => (alone part).pass.diagnostics := by
  intro alone
  induction parts generalizing p with
  | nil =>
    obtain rfl : p = q := Option.some.inj h
    simp [chunkTexts, stackedMappings]
  | cons part parts ih =>
    rcases hr : perform set (partInstrs set part) p with ⟨r, _ | failure⟩
    · simp only [List.map_cons, passAfter?, hr] at h
      have hstep : Stacked p (alone part) r := stacked_part hp hc (hs part) hr
      obtain ⟨hfailure, htexts, hmappings, hdiagnostics⟩ :=
        ih (p := r.flush) hstep.margin.flush rfl hstep.sound h
      have hline : r.flush.page.line - 1 = p.page.line - 1 + (alone part).pass.page.line := by
        have hpos := hp.line
        have hafter : r.flush.page.line = p.page.line + (alone part).pass.page.line := hstep.line
        omega
      refine ⟨?_, ?_, ?_, ?_⟩
      · intro other hm
        rcases List.mem_cons.mp hm with rfl | hm
        · exact hstep.failure
        · exact hfailure other hm
      · simp only [List.map_cons, chunkTexts, hr, htexts, hstep.pending, he, String.empty_append]
      · rw [hmappings, hline, List.map_cons, stackedMappings, ← List.append_assoc]
        exact congrArg (· ++ _) hstep.mappings
      · rw [hdiagnostics, List.flatMap_cons, ← List.append_assoc]
        exact congrArg (· ++ _) hstep.diagnostics
    · simp [passAfter?, hr] at h

namespace ModulePass

variable {σ : Type} {sink : Sink σ} {cancelled : σ → Bool} {s : State σ}

/-- The state of a sink after it took some chunks. -/
def written (sink : Sink σ) (chunks : List String) (state : σ) : σ :=
  chunks.foldl (fun state chunk => (sink.write chunk state).1) state

/-- A chunk was printed, and its text handed to the sink. -/
def Handed (set : Settings) (sink : Sink σ) (is : List Instr) (s t : State σ) : Prop :=
  ∃ q, perform set is s.pass = { pass := q } ∧ t.pass = q.flush ∧
    t.sink = (sink.write q.page.pending s.sink).1

theorem handed_flush (h : perform set (is ++ [.newline]) s.pass = { pass := q })
    (hf : (flush sink { s with pass := q }).failure = none) :
    Handed set sink (is ++ [.newline]) s (flush sink { s with pass := q }).state := by
  refine ⟨q, h, Point.flush_state _, ?_⟩
  have hq := pending_perform_newline h
  unfold flush at hf ⊢
  dsimp only at hf ⊢
  rw [if_neg hq] at hf ⊢
  rcases hw : sink.write q.page.pending s.sink with ⟨t, _ | failure⟩
  · rfl
  · simp [hw] at hf

theorem handed_imports (set : Settings) (sink : Sink σ) (s : State σ) (stmts : List Stmt)
    (hf : (imports set sink stmts s).failure = none) :
    Handed set sink (stmtsInstrs set stmts ++ [.newline]) s (imports set sink stmts s).state := by
  unfold imports at hf ⊢
  split
  · rename_i q hp
    rw [hp] at hf
    exact handed_flush hp hf
  · rename_i q failure hfailure hp
    rw [hp] at hf
    cases failure with
    | none => exact absurd rfl hfailure
    | some failure => cases hf

theorem handed_declaration (set : Settings) (sink : Sink σ) (s : State σ) (decl : Stmt)
    (hf : (declaration set sink decl s).failure = none) :
    Handed set sink (decl.instrs set ++ [.endLine, .newline]) s
      (declaration set sink decl s).state := by
  have hd := perform_declaration set decl s.pass
  unfold declaration at hf ⊢
  rcases hp : perform set (decl.instrs set) s.pass with ⟨q, _ | failure⟩
  · rw [hp] at hd
    simp only [hp] at hf ⊢
    have hsplit : decl.instrs set ++ [.endLine, .newline] =
        (decl.instrs set ++ [.endLine]) ++ [.newline] := by simp
    rw [hsplit] at hd ⊢
    exact handed_flush hd hf
  · simp [hp] at hf

/-- Declarations that are all printed are handed to the sink one after the other. -/
theorem declarations_written (decls : List Stmt)
    (hf : (declarations set sink cancelled decls s).failure = none)
    (hc : (declarations set sink cancelled decls s).cancelled = false) :
    let instrs := decls.map fun decl => decl.instrs set ++ [.endLine, .newline]
    passAfter? set instrs s.pass = some (declarations set sink cancelled decls s).state.pass ∧
    (declarations set sink cancelled decls s).state.sink =
      written sink (chunkTexts set instrs s.pass) s.sink := by
  induction decls generalizing s with
  | nil => exact ⟨rfl, rfl⟩
  | cons decl decls ih =>
    simp only [declarations, List.map_cons] at hf hc ⊢
    by_cases hcancelled : cancelled s.sink = true
    · simp [hcancelled] at hc
    · rw [if_neg hcancelled] at hf hc ⊢
      have hhanded := handed_declaration set sink s decl
      generalize declaration set sink decl s = o at hf hc hhanded ⊢
      rcases o with ⟨t, _ | failure, c⟩
      · obtain ⟨q, hq, hpass, hsink⟩ := hhanded rfl
        obtain ⟨hafter, hwritten⟩ := ih (s := { t with printed := t.printed + 1 }) hf hc
        simp only [passAfter?, chunkTexts, hq, ← hpass]
        refine ⟨hafter, ?_⟩
        rw [hwritten, hsink]
        rfl
      · cases hf

/-- The chunks of a module that is printed to its end are handed to the sink in order. -/
theorem chunks_written (body : List Stmt) (hf : (chunks set sink cancelled body s).failure = none)
    (hc : (chunks set sink cancelled body s).cancelled = false) :
    passAfter? set (moduleInstrs set body) s.pass =
      some (chunks set sink cancelled body s).state.pass ∧
    (chunks set sink cancelled body s).state.sink =
      written sink (chunkTexts set (moduleInstrs set body) s.pass) s.sink := by
  unfold chunks at hf hc ⊢
  by_cases hcancelled : cancelled s.sink = true
  · simp [hcancelled] at hc
  · rw [if_neg hcancelled] at hf hc ⊢
    have hhanded := handed_imports set sink s (splitImports body).1
    generalize imports set sink (splitImports body).1 s = o at hf hc hhanded ⊢
    rcases o with ⟨t, _ | failure, c⟩
    · obtain ⟨q, hq, hpass, hsink⟩ := hhanded rfl
      obtain ⟨hafter, hwritten⟩ := declarations_written (splitImports body).2 hf hc
      simp only [moduleInstrs, passAfter?, chunkTexts, hq, ← hpass]
      refine ⟨hafter, ?_⟩
      rw [hwritten, hsink]
      rfl
    · cases hf

theorem finish_outcome {before total : Nat} {p : Progress σ} {summary : Summary}
    (h : (finish sink before total p).outcome = .ok summary) :
    p.failure = none ∧ summary.cancelled = p.cancelled := by
  unfold finish at h
  dsimp only at h
  split at h
  · cases h
  · cases h
  · cases h
  · rename_i hfailure _
    cases h
    exact ⟨hfailure, rfl⟩

end ModulePass

open Text in
/-- On its own, a part of a module ends on the line that follows what it printed. -/
theorem line_renderStmts {part : List Stmt} (store : Template.Cache) (hi : OneLine set.indent)
    (hr : set.names.All OneLine) (hn : stmtsAllNames set OneLine part) :
    let alone := renderStmts set part { cache := store }
    alone.pass.page.line = (alone.pass.page.pending ++ "\n").toList.count '\n' := by
  intro alone
  obtain ⟨x, hx, -, -, hpass, htext⟩ := Point.renderStmts_reaches set part { cache := store }
  have hfaithful := (Point.Faithful.start (stmts_pieced hr part hn).composed rfl rfl).reaches hi hx
  have hline := hfaithful.line_eq
  rw [hpass, htext] at hline
  rw [hline, String.toList_append, List.count_append, Nat.add_comm]
  rfl

theorem allNames_moduleParts {ok : String → Prop} {body : List Stmt}
    (h : stmtsAllNames set ok body) : ∀ part ∈ moduleParts body, stmtsAllNames set ok part := by
  rw [stmtsAllNames_iff] at h
  intro part hm
  rw [stmtsAllNames_iff]
  intro s hs
  rw [moduleParts, splitImports, List.span_eq_takeWhile_dropWhile] at hm
  rcases List.mem_cons.mp hm with rfl | hm
  · exact h s (List.takeWhile_sublist _ |>.subset hs)
  · obtain ⟨decl, hd, rfl⟩ := List.mem_map.mp hm
    obtain rfl := List.mem_singleton.mp hs
    exact h s (List.dropWhile_sublist _ |>.subset hd)

open Text in
/-- Statements print the same text together as one after the other. A module that is printed to its
end hands over the texts of its parts, each with an empty line after it; its mappings are those of
the parts, moved down by the lines before them, and it adds the diagnostics of the parts in turn. -/
theorem parts_on_their_own (set : Settings) (stores : List Stmt → Template.Cache)
    (hs : ∀ ss, (stores ss).Sound) :
    let alone (ss : List Stmt) : Outcome := renderStmts set ss { cache := stores ss }
    let text (ss : List Stmt) : String := (alone ss).pass.page.pending
    (∀ xs ys, (alone xs).failure = none → (alone ys).failure = none →
      (alone (xs ++ ys)).failure = none ∧ text (xs ++ ys) = text xs ++ text ys) ∧
    ∀ {σ : Type} (sink : Sink σ) (cancelled : σ → Bool) (body : List Stmt)
      (diagnostics : List Diagnostic) (cache : Template.Cache) (state : σ)
      (result : ModulePass.Result σ) (summary : ModulePass.Summary), cache.Sound →
      ModulePass.run set sink cancelled body { diagnostics, cache } state = result →
      result.outcome = .ok summary → summary.cancelled = false →
        let parts := moduleParts body
        (∀ part ∈ parts, (alone part).failure = none) ∧
        result.sink = (sink.close
          (ModulePass.written sink (parts.map fun part => text part ++ "\n") state)).1 ∧
        result.pass.mappings = stackedMappings 0 (parts.map fun part => (alone part).pass) ∧
        result.pass.diagnostics =
          diagnostics ++ parts.flatMap (fun part => (alone part).pass.diagnostics) ∧
        (OneLine set.indent → set.names.All OneLine → stmtsAllNames set OneLine body →
          ∀ part ∈ parts,
            (alone part).pass.page.line = (text part ++ "\n").toList.count '\n') := by
  intro alone text
  refine ⟨fun xs ys hx hy => renderStmts_append (hs xs) (hs ys) (hs (xs ++ ys)) hx hy, ?_⟩
  rintro σ sink cancelled body diagnostics cache state _ summary hcache rfl hok hfinished parts
  obtain ⟨hpass, hsink, -⟩ := Point.finish_cases sink diagnostics.length
    (splitImports body).2.length
    (ModulePass.chunks set sink cancelled body { pass := { diagnostics, cache }, sink := state })
  obtain ⟨hfailure, hcancelled⟩ := ModulePass.finish_outcome hok
  rw [hfinished] at hcancelled
  obtain ⟨hafter, hwritten⟩ := ModulePass.chunks_written body hfailure hcancelled.symm
  rw [moduleInstrs_eq] at hafter hwritten
  obtain ⟨hnone, htexts, hmappings, hdiagnostics⟩ :=
    stacked_parts hs parts (atMargin_fresh diagnostics cache) rfl hcache hafter
  refine ⟨hnone, ?_, ?_, ?_, ?_⟩
  · exact hsink.trans (by rw [hwritten, htexts])
  · exact (congrArg Pass.mappings hpass).trans hmappings
  · exact (congrArg Pass.diagnostics hpass).trans hdiagnostics
  · intro hi hr hn part hm
    exact line_renderStmts (stores part) hi hr (allNames_moduleParts hn part hm)

/-- A snippet that ends with a line break and a nested block leave nothing behind for what follows
them. -/
theorem parts_on_their_own_module :
    let set : Settings := { maps := .keep }
    let body : List Stmt :=
      [.importNames [{ name := "a" }],
        .expr (.emit "x = $0\n" [.name "a" (some (.span 1 4))]),
        .functionDef "f" (.mk [] [] none []) [.whileLoop (.name "a") []] [] none (some (.span 2 0))]
    ∃ result, ModulePass.run set Memory.sink (fun _ => false) body {} {} = result ∧
      result.outcome = .ok { cancelled := false, declarations := 2 } ∧
      result.sink.chunks =
        ["import a\n\n", "x = a\n\n", "def f():\n    while a:\n        pass\n\n\n"] ∧
      result.pass.mappings.map (·.generated) =
        [{ line := 3, column := 4 }, { line := 5, column := 0 }] ∧
      result.pass.mappings =
        stackedMappings 0 ((moduleParts body).map fun part => (renderStmts set part).pass) ∧
      ∀ part ∈ moduleParts body, (renderStmts set part).failure = none := by
  intro set body
  obtain ⟨result, hresult⟩ :
      ∃ result, ModulePass.run set Memory.sink (fun _ => false) body {} {} = result := ⟨_, rfl⟩
  have hrun : result.outcome.toOption = some { cancelled := false, declarations := 2 } ∧
      result.sink.chunks =
        ["import a\n\n", "x = a\n\n", "def f():\n    while a:\n        pass\n\n\n"] ∧
      result.pass.mappings.map (·.generated) =
        [{ line := 3, column := 4 }, { line := 5, column := 0 }] := by
    rw [← hresult]
    dsimp only [set, body]
    decide +kernel
  obtain ⟨houtcome, hchunks, hgenerated⟩ := hrun
  have hok : result.outcome = .ok { cancelled := false, declarations := 2 } := by
    generalize result.outcome = outcome at houtcome
    cases outcome with
    | error failure => cases houtcome
    | ok summary => exact congrArg Except.ok (Option.some.inj houtcome)
  obtain ⟨-, hmodule⟩ := parts_on_their_own set (fun _ => {}) fun _ => Template.Cache.sound_empty
  obtain ⟨hnone, -, hmappings, -⟩ := hmodule Memory.sink (fun _ => false) body [] {} {} result
    { cancelled := false, declarations := 2 } Template.Cache.sound_empty hresult hok rfl
  exact ⟨result, hresult, hok, hchunks, hgenerated, hmappings, hnone⟩

end CodePrinter
