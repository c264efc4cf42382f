import CodePrinter.Proofs.SnippetLines
import CodePrinter.Proofs.TemplateOccurrences

/-! When the arguments of a snippet are lowered.

A type test that cannot be made is reported when it is lowered, so that the reports tell which
arguments are lowered, and in which order. Main statement: these are the arguments that a template
uses, each once and where it is used first; a choice uses its argument before anything is printed
(`render_emit_firstUses`). -/
namespace CodePrinter

open Template Fragment

/-! First uses. -/

/-- The indices that are new, each where it comes first. -/
def firstUses (used indices : List Nat) : List Nat := (indices.removeAll used).eraseDups

theorem firstUses_cons (used : List Nat) (index : Nat) (indices : List Nat) :
    firstUses used (index :: indices) =
      (if index ∈ used then [] else [index]) ++ firstUses (index :: used) indices := by
  have hcomm : (indices.filter fun i => !i == index).removeAll used =
      (indices.removeAll used).filter fun i => !i == index := by
    simp only [List.removeAll, List.filter_filter, Bool.and_comm]
  unfold firstUses
  rw [List.removeAll_cons, hcomm]
  by_cases h : index ∈ used
  · have hnone : (indices.removeAll used).filter (fun i => !i == index) =
        indices.removeAll used := by
      rw [List.filter_eq_self]
      intro i hi
      have hne : i ≠ index := by
        rintro rfl
        simp [List.removeAll, h] at hi
      simpa using hne
    have hskip : (index :: indices).removeAll used = indices.removeAll used := by
      simp [List.removeAll, h]
    rw [hskip, hnone, if_pos h, List.nil_append]
  · have hcons : (index :: indices).removeAll used = index :: indices.removeAll used := by
      simp [List.removeAll, h]
    rw [hcons, List.eraseDups_cons, if_neg h, List.singleton_append]

theorem firstUses_append (before indices : List Nat) :
    firstUses [] before ++ firstUses before indices = (before ++ indices).eraseDups := by
  have hnone : before.removeAll [] = before := by simp [List.removeAll]
  rw [List.eraseDups_append, firstUses, firstUses, hnone]

/-! Type tests that cannot be made. -/

/-- A type that no run-time test exists for. -/
def SemanticType.isUntestable : SemanticType → Bool
  | .declared _ _ => true
  | .option _ => true
  | .genericParam _ => true
  | .erasedUnion _ => true
  | _ => false

/-- What is reported for testing a name for a type that no run-time test exists for. -/
def testReport? (set : Settings) : Expr → Option Diagnostic
  | .typeTest type (.name _ _) loc =>
    if type.isUntestable then some ((Problem.untestable type).diagnostic set loc) else none
  | _ => none

/-- The reports of the arguments at some places. -/
def reportsAt (set : Settings) (args : List Expr) (indices : List Nat) : List Diagnostic :=
  indices.filterMap fun index => (args[index]?).bind (testReport? set)

variable {set : Settings} {e : Expr} {d : Diagnostic} {args : List Expr}

theorem testReport?_withoutChecks (set : Settings) :
    testReport? set.withoutChecks = testReport? set := by
  funext e
  simp [testReport?, Problem.diagnostic]

theorem code_testReport? (h : testReport? set e = some d) : d.code = "PY001" := by
  unfold testReport? at h
  split at h
  · split at h
    · cases h
      rfl
    · cases h
  · cases h

theorem testForm_of_isUntestable {type : SemanticType} (names : RuntimeNames)
    (h : type.isUntestable = true) : type.testForm names = .impossible := by
  cases type with
  | declared | option | genericParam | erasedUnion => rfl
  | _ => cases h

/-- Such a test is reported and printed as `None`. -/
theorem fragment_of_testReport? (h : testReport? set e = some d) :
    ∃ what loc, Problem.isFatal what = false ∧ what.diagnostic set loc = d ∧
      e.fragment set.names =
        { issues := [.problem what loc]
          shape := .constant
          body := markAt loc ++ [.text "None"] } := by
  unfold testReport? at h
  split at h
  · rename_i type id place loc
    split at h
    · rename_i htype
      cases h
      refine ⟨.untestable type, loc, rfl, rfl, ?_⟩
      rw [Expr.fragment, Fragment.typeTest, SemanticType.testProblem?,
        testForm_of_isUntestable set.names htype]
      rfl
    · cases h
  · cases h

theorem perform_firstUse (hargs : ∀ e ∈ args, (testReport? set e).isSome) (used : List Nat)
    (index : Nat) (p : Pass) :
    perform set (firstUse (fragments set.names args) used index) p =
      { pass := { p with
          diagnostics := p.diagnostics ++
            reportsAt set args (if index ∈ used then [] else [index]) } } := by
  unfold firstUse
  by_cases hused : index ∈ used
  · rw [if_pos hused, if_pos hused, perform_nil]
    simp [reportsAt]
  · rw [if_neg hused, if_neg hused, fragments_eq_map, List.getElem?_map]
    cases he : args[index]? with
    | none =>
      simp only [Option.map_none, perform_nil]
      simp [reportsAt, he]
    | some e =>
      obtain ⟨d, hd⟩ := Option.isSome_iff_exists.mp (hargs e (List.mem_of_getElem? he))
      obtain ⟨what, loc, hfatal, hdiagnostic, hfragment⟩ := fragment_of_testReport? hd
      simp only [Option.map_some, hfragment]
      rw [perform_singleton, Instr.perform, Pass.problem_eq, if_neg (by simp [hfatal]), hdiagnostic]
      simp [reportsAt, he, hd]

theorem reportsAt_append (set : Settings) (args : List Expr) (is js : List Nat) :
    reportsAt set args (is ++ js) = reportsAt set args is ++ reportsAt set args js :=
  List.filterMap_append

theorem perform_useAll (hargs : ∀ e ∈ args, (testReport? set e).isSome) (used indices : List Nat)
    (p : Pass) :
    perform set (useAll (fragments set.names args) used indices) p =
      { pass := { p with
          diagnostics := p.diagnostics ++ reportsAt set args (firstUses used indices) } } := by
  induction indices generalizing used p with
  | nil => simp [useAll, perform_nil, firstUses, List.removeAll, reportsAt]
  | cons index indices ih =>
    rw [useAll, perform_append, perform_firstUse hargs, firstUses_cons, reportsAt_append,
      ← List.append_assoc]
    exact ih (index :: used) _

/-! Parts of a template. -/

/-- The page with the parts of a template, where all references stand for one text. -/
def Page.addParts (unit text : String) : List Part → Page → Page
  | [], p => p
  | .text value :: parts, p =>
    addParts unit text parts (p.snippet unit (Text.splitLines value.toList))
  | .arg _ :: parts, p => addParts unit text parts (p.print unit text)

theorem diagnostics_markAt (set : Settings) (loc : Option Location) (p : Pass) :
    (perform set (markAt loc) p).pass.diagnostics = p.diagnostics := by
  cases loc with
  | none => rw [markAt, perform_nil]
  | some loc => rw [markAt, perform_singleton, Instr.perform, Pass.mark_eq]

/-- A reference lowers its argument if it is the first one to it, and prints `None` anyway. -/
theorem perform_argInstrs (hm : set.Unchecked)
    (hargs : ∀ e ∈ args, (testReport? set e).isSome) (used : List Nat) (index : Nat) (p : Pass) :
    ∃ q, perform set (argInstrs (fragments set.names args) used index) p = { pass := q } ∧
      q.diagnostics = p.diagnostics ++ reportsAt set args (if index ∈ used then [] else [index]) ∧
      q.page = p.page.print set.indent "None" := by
  have hlowered := perform_firstUse hargs used index p
  unfold argInstrs
  rw [fragments_eq_map] at hlowered ⊢
  rw [List.getElem?_map]
  cases he : args[index]? with
  | none =>
    refine ⟨_, perform_singleton set (.text "None") p, ?_, rfl⟩
    by_cases hused : index ∈ used <;> simp [reportsAt, he, hused]
  | some e =>
    obtain ⟨d, hd⟩ := Option.isSome_iff_exists.mp (hargs e (List.mem_of_getElem? he))
    obtain ⟨what, loc, -, -, hfragment⟩ := fragment_of_testReport? hd
    have hbody : (e.fragment set.names).operandBody = markAt loc ++ [.text "None"] := by
      rw [hfragment]
      rfl
    obtain ⟨q, hq, -, hpage⟩ := perform_markAt hm loc { p with
      diagnostics := p.diagnostics ++ reportsAt set args (if index ∈ used then [] else [index]) }
    have hdiagnostics := diagnostics_markAt set loc { p with
      diagnostics := p.diagnostics ++ reportsAt set args (if index ∈ used then [] else [index]) }
    rw [hq] at hdiagnostics
    refine ⟨{ q with page := q.page.print set.indent "None" }, ?_, hdiagnostics, ?_⟩
    · rw [Option.map_some]
      dsimp only
      rw [hbody]
      exact perform_append_eq_pass.mpr ⟨_, hlowered,
        perform_append_eq_pass.mpr ⟨q, hq, perform_singleton set (.text "None") q⟩⟩
    · rw [hpage]
      split
      · exact Page.print_startLine set.indent "None" p.page
      · rfl

/-- The parts of a template lower the arguments that were not used before them. -/
theorem perform_fill_parts (hm : set.Unchecked)
    (hargs : ∀ e ∈ args, (testReport? set e).isSome) (parts : List Part) (used : List Nat)
    (p : Pass) :
    ∃ q, perform set (fill (fragments set.names args) used parts) p = { pass := q } ∧
      q.diagnostics = p.diagnostics ++ reportsAt set args (firstUses used (argIndices parts)) ∧
      q.page = p.page.addParts set.indent "None" parts := by
  induction parts generalizing used p with
  | nil =>
    refine ⟨p, perform_nil set p, ?_, rfl⟩
    simp [argIndices, firstUses, List.removeAll, reportsAt]
  | cons part parts ih =>
    cases part with
    | text value =>
      obtain ⟨q, hq, hdiagnostics, hpage⟩ := ih used
        { p with page := p.page.snippet set.indent (Text.splitLines value.toList) }
      refine ⟨q, ?_, hdiagnostics, hpage⟩
      rw [fill, perform_append, perform_snippetLines]
      exact hq
    | arg index =>
      obtain ⟨q, hq, hlowered, hprinted⟩ := perform_argInstrs hm hargs used index p
      obtain ⟨r, hr, hdiagnostics, hpage⟩ := ih (index :: used) q
      refine ⟨r, ?_, ?_, ?_⟩
      · rw [fill_arg]
        exact perform_append_eq_pass.mpr ⟨q, hq, hr⟩
      · rw [hdiagnostics, hlowered, argIndices, firstUses_cons, reportsAt_append, List.append_assoc]
      · rw [hpage, hprinted]
        rfl

theorem argIndices_split (text : String) :
    argIndices (split text) = hits (scan reference? text.toList) := by
  have hconsChar : ∀ c parts, argIndices (consChar c parts) = argIndices parts := by
    intro c parts
    match parts with
    | [] => rfl
    | .text _ :: _ => rfl
    | .arg _ :: _ => rfl
  rw [split]
  induction scan reference? text.toList with
  | nil => rfl
  | cons t ts ih =>
    cases t with
    | char c => rw [joinChars, hconsChar, ih, hits]
    | hit index => rw [joinChars, argIndices, ih, hits]

/-- Every argument that there is counts as a constant. -/
theorem isConstantAt_of_testReport? (hargs : ∀ e ∈ args, (testReport? set e).isSome) :
    isConstantAt (fragments set.names args) = fun index => decide (index < args.length) := by
  funext index
  rw [isConstantAt, fragments_eq_map, List.getElem?_map]
  cases he : args[index]? with
  | none => simpa using List.getElem?_eq_none_iff.mp he
  | some e =>
    obtain ⟨d, hd⟩ := Option.isSome_iff_exists.mp (hargs e (List.mem_of_getElem? he))
    obtain ⟨what, loc, -, -, hfragment⟩ := fragment_of_testReport? hd
    obtain ⟨hlt, -⟩ := List.getElem?_eq_some_iff.mp he
    simp [hfragment, Shape.isConstant, hlt]

/-- The choices of a template lower their arguments first, and what is left of it the others. -/
theorem perform_snippet_uses (hm : set.Unchecked)
    (hargs : ∀ e ∈ args, (testReport? set e).isSome) (template : String) {p : Pass}
    (hcache : p.cache.Sound) :
    let tested := choiceIndices (expandSpreads args.length template.toList)
    let rewritten := expand args.length (fun index => decide (index < args.length)) template
    ∃ q, perform set (snippet template (fragments set.names args)) p = { pass := q } ∧
      q.diagnostics = p.diagnostics ++ reportsAt set args
        (tested ++ hits (scan reference? rewritten.toList)).eraseDups ∧
      q.page = p.page.addParts set.indent "None" (split rewritten) := by
  intro tested rewritten
  have hinstrs : snippet template (fragments set.names args) =
      useAll (fragments set.names args) [] tested ++
        [.template rewritten (fill (fragments set.names args) tested)] := by
    have hlength : (fragments set.names args).length = args.length := by
      rw [fragments_eq_map, List.length_map]
    rw [snippet, hlength, isConstantAt_of_testReport? hargs]
  have htested := perform_useAll hargs [] tested p
  obtain ⟨q, hq, hfilled, hpage⟩ := perform_fill_parts hm hargs (split rewritten) tested
    { p with
      diagnostics := p.diagnostics ++ reportsAt set args (firstUses [] tested)
      cache := (p.cache.split rewritten).2 }
  refine ⟨q, ?_, ?_, hpage⟩
  · rw [hinstrs]
    refine perform_append_eq_pass.mpr ⟨_, htested, ?_⟩
    rw [perform_singleton, Instr.perform, hcache.fst_split]
    exact hq
  · rw [hfilled, List.append_assoc, ← reportsAt_append, firstUses_append, argIndices_split]

/-- There is one report for each place where there is an argument. -/
theorem forall₂_reportsAt (hargs : ∀ e ∈ args, (testReport? set e).isSome) (indices : List Nat) :
    List.Forall₂ (fun index report => (args[index]?).bind (testReport? set) = some report ∧
        report.code = "PY001")
      (indices.filter (· < args.length)) (reportsAt set args indices) := by
  induction indices with
  | nil => exact .nil
  | cons index indices ih =>
    cases he : args[index]? with
    | none =>
      have hout : ¬ index < args.length := by simpa using List.getElem?_eq_none_iff.mp he
      simpa [reportsAt, he, hout] using ih
    | some e =>
      obtain ⟨hin, -⟩ := List.getElem?_eq_some_iff.mp he
      obtain ⟨d, hd⟩ := Option.isSome_iff_exists.mp (hargs e (List.mem_of_getElem? he))
      have hcons : reportsAt set args (index :: indices) = d :: reportsAt set args indices := by
        simp [reportsAt, he, hd]
      rw [List.filter_cons_of_pos (by simpa using hin), hcons]
      exact .cons ⟨by rw [he, Option.bind_some, hd], code_testReport? hd⟩ ih

/-- A snippet reports each of its arguments that it uses once: first those that decide the choices
of the template with its spreads expanded, then those that the rewritten template refers to, each
where it is used first. All references to arguments are printed alike. -/
theorem render_emit_firstUses (set : Settings) (template : String) {args : List Expr}
    (hargs : ∀ e ∈ args, (testReport? set e).isSome) (loc : Option Location) {p : Pass}
    (hkeeps : p.Keeps set ((Expr.emit template args loc).located set.names))
    (hcache : p.cache.Sound) :
    let rewritten := expand args.length (fun index => decide (index < args.length)) template
    ∃ (choices : List Choice) (references : List Nat) (reports : List Diagnostic) (q : Pass),
      (∀ found, Occurs IsChoice (expandSpreads args.length template.toList) found ↔
        found = choices) ∧
      (∀ found, Occurs IsReference rewritten.toList found ↔ found = references) ∧
      List.Forall₂ (fun index report => (args[index]?).bind (testReport? set) = some report ∧
          report.code = "PY001")
        ((choices.map (·.index) ++ references).eraseDups.filter (· < args.length)) reports ∧
      (Expr.emit template args loc).render set p = { pass := q } ∧
      q.diagnostics = p.diagnostics ++ reports ∧
      q.page = (if loc.isSome then p.page.startLine set.indent else p.page).addParts set.indent
        "None" (split rewritten) := by
  intro rewritten
  have hm := set.unchecked_withoutChecks
  rw [← testReport?_withoutChecks] at hargs ⊢
  rw [Expr.render_withoutChecks hkeeps, ← set.indent_withoutChecks]
  generalize set.withoutChecks = set at hm hargs ⊢
  obtain ⟨q, hq, hqcache, hqpage⟩ := perform_markAt hm loc p
  have hmarked := diagnostics_markAt set loc p
  rw [hq] at hmarked
  obtain ⟨r, hr, hdiagnostics, hpage⟩ :=
    perform_snippet_uses hm hargs template (hqcache ▸ hcache : q.cache.Sound)
  refine ⟨_, _, _, r, fun found => recognizes_choice.occurs_iff,
    fun found => recognizes_reference.occurs_iff, forall₂_reportsAt hargs _, ?_, ?_, ?_⟩
  · rw [Expr.render, Expr.fragment, Fragment.bare, Fragment.emit, List.nil_append]
    exact perform_append_eq_pass.mpr ⟨q, hq, hr⟩
  · rw [hdiagnostics, hmarked]
    rfl
  · rw [hpage, hqpage]

/-- The choice lowers the second argument before the first is printed, and a reference without an
argument reports nothing. -/
theorem render_emit_firstUses_choice :
    let args : List Expr :=
      [.typeTest (.option .string) (.name "x"), .typeTest (.genericParam "T") (.name "y")]
    let template := "f($0, \x7b\x7b$1 ? $0 : $2\x7d\x7d, $7, $1)"
    (∀ e ∈ args, (testReport? {} e).isSome) ∧
    ∃ q, (Expr.emit template args).render {} = { pass := q } ∧
      q.diagnostics = [Problem.diagnostic {} (.untestable (.genericParam "T")) none,
        Problem.diagnostic {} (.untestable (.option .string)) none] ∧
      q.page.pending = "f(None,  None , None, None)" := by
  intro args template
  have hargs : ∀ e ∈ args, (testReport? {} e).isSome := by decide
  obtain ⟨choices, references, reports, q, hchoices, hreferences, hreports, hq, hdiagnostics,
    hpage⟩ := render_emit_firstUses {} template hargs none (p := {})
      (Settings.unchecked_default.keeps _ _) Cache.sound_empty
  have htested : choices.map (·.index) = [1] := by
    rw [← (hchoices _).mp (recognizes_choice.occurs_hits _)]
    decide +kernel
  have hplaced : references = [0, 0, 7, 1] := by
    rw [← (hreferences _).mp (recognizes_reference.occurs_hits _)]
    decide +kernel
  have huses : ([1] ++ [0, 0, 7, 1]).eraseDups.filter (· < args.length) = [1, 0] := by decide
  rw [htested, hplaced, huses] at hreports
  refine ⟨hargs, q, hq, ?_, ?_⟩
  · rw [hdiagnostics]
    obtain _ | ⟨⟨hfirst, -⟩, _ | ⟨⟨hsecond, -⟩, ⟨⟩⟩⟩ := hreports
    cases hfirst
    cases hsecond
    rfl
  · rw [hpage]
    decide +kernel

end CodePrinter
