import CodePrinter.Proofs.RebuiltTrees

/-! Typed literals and type tests that are lowered before anything is printed.

Main statement: where problems are recovered from, a tree in which all of them are lowered first has
none left, and prints the same text and the same mappings (`render_lowered_eq`). -/
namespace CodePrinter

mutual

/-- No typed literal and no type test is left in an expression, printed or not. -/
def Expr.isLowered : Expr → Bool
  | .name _ _ | .constant _ _ | .unknown _ _ => true
  | .call func args keywords _ =>
    func.isLowered && exprsLowered args && keywordsLowered keywords
  | .attr value _ _ | .unary _ value _ | .starred value _ | .yieldFrom value _ => value.isLowered
  | .subscript left right _ | .binary left _ right _ | .named left right _ =>
    left.isLowered && right.isLowered
  | .boolean _ values _ | .tuple values _ | .list values _ | .set values _ | .emit _ values _ =>
    exprsLowered values
  | .compare left _ comparators _ => left.isLowered && exprsLowered comparators
  | .conditional test body orElse _ => test.isLowered && body.isLowered && orElse.isLowered
  | .lambda params body _ => params.isLowered && body.isLowered
  | .dict keys values _ => exprsLowered keys && exprsLowered values
  | .typedLiteral _ _ _ | .typeTest _ _ _ => false
  | .yield value _ => optionLowered value
  | .formattedValue value formatSpec _ => value.isLowered && optionLowered formatSpec

def exprsLowered : List Expr → Bool
  | [] => true
  | e :: es => e.isLowered && exprsLowered es

def optionLowered : Option Expr → Bool
  | none => true
  | some e => e.isLowered

def keywordsLowered : List Keyword → Bool
  | [] => true
  | .mk _ value :: ks => value.isLowered && keywordsLowered ks

def paramsLowered : List Param → Bool
  | [] => true
  | .mk _ hint :: ps => optionLowered hint && paramsLowered ps

def optionParamLowered : Option Param → Bool
  | none => true
  | some (.mk _ hint) => optionLowered hint

def Params.isLowered : Params → Bool
  | .mk posOnly regular varArg defaults =>
    paramsLowered posOnly && paramsLowered regular && optionParamLowered varArg &&
      exprsLowered defaults

end

mutual

def Stmt.isLowered : Stmt → Bool
  | .functionDef _ params body decorators returns _
  | .asyncFunctionDef _ params body decorators returns _ =>
    params.isLowered && stmtsLowered body && exprsLowered decorators && optionLowered returns
  | .classDef _ bases body decorators _ =>
    exprsLowered bases && stmtsLowered body && exprsLowered decorators
  | .conditional test body orElse _ => test.isLowered && stmtsLowered body && stmtsLowered orElse
  | .forLoop target iter body _ | .asyncFor target iter body _ =>
    target.isLowered && iter.isLowered && stmtsLowered body
  | .whileLoop test body _ => test.isLowered && stmtsLowered body
  | .tryBlock body handlers orElse finalBody _ =>
    stmtsLowered body && handlersLowered handlers && stmtsLowered orElse && stmtsLowered finalBody
  | .assign targets value _ => exprsLowered targets && value.isLowered
  | .returnValue value _ => optionLowered value
  | .raise value _ | .expr value _ => value.isLowered
  | .importNames _ _ | .importFrom _ _ _ | .pass _ | .breakLoop _ | .continueLoop _
  | .globalNames _ _ | .nonlocalNames _ _ | .unknown _ _ _ => true

def stmtsLowered : List Stmt → Bool
  | [] => true
  | s :: ss => s.isLowered && stmtsLowered ss

def handlersLowered : List Handler → Bool
  | [] => true
  | .mk body type _ _ :: hs => stmtsLowered body && optionLowered type && handlersLowered hs

end

def Tree.isLowered : Tree → Bool
  | .expr e => e.isLowered
  | .stmts ss => stmtsLowered ss

/-- Puts the expressions in place that typed literals and type tests are made into. One that cannot
be made is left as it stands. -/
def Settings.lowering (set : Settings) : Rebuild where
  loc := id
  literal type value loc :=
    match type.makeLiteral set value loc [] with
    | .ok (e, _) => e
    | .error _ => .typedLiteral type value loc
  test type value loc :=
    match type.makeTest set value loc [] with
    | .ok (e, _) => e
    | .error _ => .typeTest type value loc

def Tree.lowered (set : Settings) (t : Tree) : Tree := t.rebuild set.lowering

variable {set : Settings}

/-- Where problems are recovered from, every report is made good. -/
theorem Problem.report_of_recover (what : Problem) (fileName : Option String)
    (loc : Option Location) (ds : List Diagnostic) :
    ∃ ds', what.report .recover fileName loc ds = .ok ds' := by
  unfold Problem.report
  split <;> exact ⟨_, rfl⟩

theorem lowering_literal (h : set.policy = .recover) (type : SemanticType) (value : LiteralValue)
    (loc : Option Location) :
    set.lowering.literal type value loc = (type.lowerLiteral set.names value).1.toExpr loc := by
  simp only [Settings.lowering, SemanticType.makeLiteral, h]
  rcases type.lowerLiteral set.names value with ⟨form, _ | what⟩
  · rfl
  · obtain ⟨ds, hds⟩ := what.report_of_recover set.fileName loc []
    simp only [hds]
    rfl

theorem lowering_test (h : set.policy = .recover) (type : SemanticType) (value : Expr)
    (loc : Option Location) :
    set.lowering.test type value loc = (type.testForm set.names).toExpr set.names value loc := by
  simp only [Settings.lowering, SemanticType.makeTest, h]
  cases type.testProblem? set.names with
  | none => rfl
  | some what =>
    obtain ⟨ds, hds⟩ := what.report_of_recover set.fileName loc []
    simp only [hds]
    rfl

/-! No typed literal and no type test is left. -/

theorem exprsLowered_constants (values : List Constant) :
    exprsLowered (values.map fun c => .constant c) = true := by
  induction values with
  | nil => simp [exprsLowered]
  | cons c values ih => simp [exprsLowered, Expr.isLowered, ih]

theorem isLowered_literal (form : LiteralForm) (loc : Option Location) :
    (form.toExpr loc).isLowered = true := by
  cases form with
  | constant value => simp [LiteralForm.toExpr, Expr.isLowered]
  | construct callee member args =>
    cases member <;> simp [LiteralForm.toExpr, Expr.apply, Expr.reference, Expr.isLowered,
      exprsLowered_constants, keywordsLowered]
  | sequence items => simp [LiteralForm.toExpr, Expr.isLowered, exprsLowered_constants]

theorem isLowered_test (names : RuntimeNames) (form : TestForm) {value : Expr}
    (loc : Option Location) (h : value.isLowered = true) :
    (form.toExpr names value loc).isLowered = true := by
  cases form <;> simp [TestForm.toExpr, Expr.comparison, Expr.apply, Expr.noneValue, Expr.string,
    Expr.bool, Expr.isLowered, exprsLowered, keywordsLowered, h]

mutual

theorem Expr.isLowered_rebuild (hset : set.policy = .recover) :
    (e : Expr) → (e.rebuild set.lowering).isLowered = true
  | .name _ _ | .constant _ _ | .unknown _ _ => by simp [Expr.rebuild, Expr.isLowered]
  | .call func args keywords _ => by
    simp [Expr.rebuild, Expr.isLowered, func.isLowered_rebuild hset, exprsLowered_rebuild hset args,
      keywordsLowered_rebuild hset keywords]
  | .attr value _ _ | .unary _ value _ | .starred value _ | .yieldFrom value _ => by
    simp [Expr.rebuild, Expr.isLowered, value.isLowered_rebuild hset]
  | .subscript left right _ | .binary left _ right _ | .named left right _ => by
    simp [Expr.rebuild, Expr.isLowered, left.isLowered_rebuild hset, right.isLowered_rebuild hset]
  | .boolean _ values _ | .tuple values _ | .list values _ | .set values _ | .emit _ values _ => by
    simp [Expr.rebuild, Expr.isLowered, exprsLowered_rebuild hset values]
  | .compare left _ comparators _ => by
    simp [Expr.rebuild, Expr.isLowered, left.isLowered_rebuild hset,
      exprsLowered_rebuild hset comparators]
  | .conditional test body orElse _ => by
    simp [Expr.rebuild, Expr.isLowered, test.isLowered_rebuild hset, body.isLowered_rebuild hset,
      orElse.isLowered_rebuild hset]
  | .lambda params body _ => by
    simp [Expr.rebuild, Expr.isLowered, params.isLowered_rebuild hset, body.isLowered_rebuild hset]
  | .dict keys values _ => by
    simp [Expr.rebuild, Expr.isLowered, exprsLowered_rebuild hset keys,
      exprsLowered_rebuild hset values]
  | .typedLiteral type value loc => by
    rw [Expr.rebuild, lowering_literal hset]
    exact isLowered_literal _ loc
  | .typeTest type value loc => by
    rw [Expr.rebuild, lowering_test hset]
    exact isLowered_test set.names _ loc (value.isLowered_rebuild hset)
  | .yield value _ => by
    simp [Expr.rebuild, Expr.isLowered, optionLowered_rebuild hset value]
  | .formattedValue value formatSpec _ => by
    simp [Expr.rebuild, Expr.isLowered, value.isLowered_rebuild hset,
      optionLowered_rebuild hset formatSpec]

theorem exprsLowered_rebuild (hset : set.policy = .recover) :
    (es : List Expr) → exprsLowered (rebuildExprs set.lowering es) = true
  | [] => by simp [rebuildExprs, exprsLowered]
  | e :: es => by
    simp [rebuildExprs, exprsLowered, e.isLowered_rebuild hset, exprsLowered_rebuild hset es]

theorem optionLowered_rebuild (hset : set.policy = .recover) :
    (o : Option Expr) → optionLowered (rebuildOption set.lowering o) = true
  | none => by simp [rebuildOption, optionLowered]
  | some e => by simp [rebuildOption, optionLowered, e.isLowered_rebuild hset]

theorem keywordsLowered_rebuild (hset : set.policy = .recover) :
    (ks : List Keyword) → keywordsLowered (rebuildKeywords set.lowering ks) = true
  | [] => by simp [rebuildKeywords, keywordsLowered]
  | .mk _ value :: ks => by
    simp [rebuildKeywords, keywordsLowered, value.isLowered_rebuild hset,
      keywordsLowered_rebuild hset ks]

theorem paramsLowered_rebuild (hset : set.policy = .recover) :
    (ps : List Param) → paramsLowered (rebuildParams set.lowering ps) = true
  | [] => by simp [rebuildParams, paramsLowered]
  | .mk _ hint :: ps => by
    simp [rebuildParams, Param.rebuild, paramsLowered, optionLowered_rebuild hset hint,
      paramsLowered_rebuild hset ps]

theorem optionParamLowered_rebuild (hset : set.policy = .recover) :
    (o : Option Param) → optionParamLowered (rebuildOptionParam set.lowering o) = true
  | none => by simp [rebuildOptionParam, optionParamLowered]
  | some (.mk _ hint) => by
    simp [rebuildOptionParam, Param.rebuild, optionParamLowered, optionLowered_rebuild hset hint]

theorem Params.isLowered_rebuild (hset : set.policy = .recover) :
    (ps : Params) → (ps.rebuild set.lowering).isLowered = true
  | .mk posOnly regular varArg defaults => by
    simp [Params.rebuild, Params.isLowered, paramsLowered_rebuild hset posOnly,
      paramsLowered_rebuild hset regular, optionParamLowered_rebuild hset varArg,
      exprsLowered_rebuild hset defaults]

end

mutual

theorem Stmt.isLowered_rebuild (hset : set.policy = .recover) :
    (s : Stmt) → (s.rebuild set.lowering).isLowered = true
  | .functionDef _ params body decorators returns _
  | .asyncFunctionDef _ params body decorators returns _ => by
    simp [Stmt.rebuild, Stmt.isLowered, params.isLowered_rebuild hset,
      stmtsLowered_rebuild hset body, exprsLowered_rebuild hset decorators,
      optionLowered_rebuild hset returns]
  | .classDef _ bases body decorators _ => by
    simp [Stmt.rebuild, Stmt.isLowered, exprsLowered_rebuild hset bases,
      stmtsLowered_rebuild hset body, exprsLowered_rebuild hset decorators]
  | .conditional test body orElse _ => by
    simp [Stmt.rebuild, Stmt.isLowered, test.isLowered_rebuild hset,
      stmtsLowered_rebuild hset body, stmtsLowered_rebuild hset orElse]
  | .forLoop target iter body _ | .asyncFor target iter body _ => by
    simp [Stmt.rebuild, Stmt.isLowered, target.isLowered_rebuild hset,
      iter.isLowered_rebuild hset, stmtsLowered_rebuild hset body]
  | .whileLoop test body _ => by
    simp [Stmt.rebuild, Stmt.isLowered, test.isLowered_rebuild hset,
      stmtsLowered_rebuild hset body]
  | .tryBlock body handlers orElse finalBody _ => by
    simp [Stmt.rebuild, Stmt.isLowered, stmtsLowered_rebuild hset body,
      handlersLowered_rebuild hset handlers, stmtsLowered_rebuild hset orElse,
      stmtsLowered_rebuild hset finalBody]
  | .assign targets value _ => by
    simp [Stmt.rebuild, Stmt.isLowered, exprsLowered_rebuild hset targets,
      value.isLowered_rebuild hset]
  | .returnValue value _ => by
    simp [Stmt.rebuild, Stmt.isLowered, optionLowered_rebuild hset value]
  | .raise value _ | .expr value _ => by
    simp [Stmt.rebuild, Stmt.isLowered, value.isLowered_rebuild hset]
  | .importNames _ _ | .importFrom _ _ _ | .pass _ | .breakLoop _ | .continueLoop _
  | .globalNames _ _ | .nonlocalNames _ _ | .unknown _ _ _ => by
    simp [Stmt.rebuild, Stmt.isLowered]

theorem stmtsLowered_rebuild (hset : set.policy = .recover) :
    (ss : List Stmt) → stmtsLowered (rebuildStmts set.lowering ss) = true
  | [] => by simp [rebuildStmts, stmtsLowered]
  | s :: ss => by
    simp [rebuildStmts, stmtsLowered, s.isLowered_rebuild hset, stmtsLowered_rebuild hset ss]

theorem handlersLowered_rebuild (hset : set.policy = .recover) :
    (hs : List Handler) → handlersLowered (rebuildHandlers set.lowering hs) = true
  | [] => by simp [rebuildHandlers, handlersLowered]
  | .mk body type _ _ :: hs => by
    simp [rebuildHandlers, Handler.rebuild, handlersLowered, stmtsLowered_rebuild hset body,
      optionLowered_rebuild hset type, handlersLowered_rebuild hset hs]

end

theorem Tree.isLowered_lowered (hset : set.policy = .recover) (t : Tree) :
    (t.lowered set).isLowered = true := by
  cases t with
  | expr e => exact e.isLowered_rebuild hset
  | stmts ss => exact stmtsLowered_rebuild hset ss

/-! What is printed stays the same. -/

/-- Passes that differ in diagnostics at most. -/
abbrev Pass.SamePrint : Pass → Pass → Prop := Pass.Related Eq Eq

theorem congruent_eq (unit : String) : Page.Congruent unit Eq where
  hasText h := congrArg Page.hasText h
  print text h := congrArg (Page.print unit text) h
  newline h := congrArg Page.newline h
  endLine h := congrArg Page.endLine h
  indent h := congrArg (fun p => p.newline.indent) h
  dedent h := ⟨congrArg (fun p => p.newline.dedent) h, congrArg (fun p => p.endLine.dedent) h⟩

theorem Tracks.mark (set : Settings) (loc : Option Location) :
    Tracks set Pass.SamePrint (markAt loc) (markAt loc) := by
  cases loc with
  | none => exact nil _
  | some loc =>
    intro p q p' h hp
    rw [markAt, perform_singleton, Instr.perform, Pass.mark_eq] at hp ⊢
    rw [← h.page, ← h.mappings]
    obtain ⟨rfl, hfailure⟩ := Outcome.mk.inj hp
    exact ⟨_, congrArg _ hfailure, rfl, rfl, h.cache⟩

theorem Fragment.issues_literalForm (loc : Option Location) (form : LiteralForm) :
    (literalForm loc form).issues = [] := by
  cases form <;> rfl

theorem Fragment.issues_testForm (names : RuntimeNames) (f : Fragment) (loc : Option Location)
    (form : TestForm) : (testForm names f loc form).issues = [] := by
  cases form <;> rfl

/-- A node prints like what it is lowered to, but for the report of what is wrong with it. -/
theorem lowering_keeps (hset : set.policy = .recover) :
    set.lowering.Keeps set.names (Tracks set Pass.SamePrint) where
  mark := Tracks.mark set
  problem what loc := .problem what loc loc
  literal type value loc := by
    have hform := Fragment.Alike.literalForm (congruence_tracks (congruent_eq set.indent))
      (type.lowerLiteral set.names value).1 (Tracks.mark set loc)
    rw [lowering_literal hset, fragment_toExpr]
    refine ⟨?_, hform.shape, hform.body⟩
    rw [Fragment.issues_literalForm]
    exact .ofProblem_nil _ loc
  test type f e loc h := by
    have hform := Fragment.Alike.testForm (congruence_tracks (congruent_eq set.indent)) set.names
      (type.testForm set.names) (Tracks.mark set loc) h
    rw [lowering_test hset, fragment_testForm]
    refine ⟨?_, hform.shape, hform.body⟩
    rw [Fragment.issues_testForm]
    exact .ofProblem_nil _ loc

/-- It does not matter whether typed literals and type tests are lowered while a tree is printed or
before: nothing of them is left, and the text and the mappings are the same. -/
theorem render_lowered_eq (hset : set.policy = .recover) (t : Tree) (p : Pass)
    (hp : (t.render set p).failure = none) :
    (t.lowered set).isLowered = true ∧ ((t.lowered set).render set p).failure = none ∧
      ((t.lowered set).render set p).pass.page = (t.render set p).pass.page ∧
      ((t.lowered set).render set p).pass.mappings = (t.render set p).pass.mappings := by
  have hprinted : Tracks set Pass.SamePrint (t.instrs set) ((t.lowered set).instrs set) :=
    t.rebuild_alike (congruence_tracks (congruent_eq set.indent)) (lowering_keeps hset)
  simp only [Tree.render_eq] at hp ⊢
  obtain ⟨hfailure, hsame⟩ := hprinted.run ⟨rfl, rfl, rfl⟩ hp
  exact ⟨t.isLowered_lowered hset, hfailure, hsame.page.symm, hsame.mappings.symm⟩

/-- A type hint, a default that is no literal of its type, and a test in a snippet that uses it
twice. -/
theorem render_lowered_eq_placeholders :
    let set : Settings := { policy := .recover, maps := .keep }
    let t : Tree := .stmts [.functionDef "f"
      (.mk [] [.mk "x" (some (.typedLiteral .char (.string "c")))] none
        [.typedLiteral (.number .int32) (.string "many") (some (.span 1 8))])
      [.returnValue (some (.emit "g($0, $0)"
        [.typeTest (.option .any) (.name "x") (some (.span 2 4))]))] [] none]
    (t.render set {}).failure = none ∧
      (t.render set {}).pass.page.pending =
        "def f(x: \"c\" = None):\n    return g(None, None)\n\n" ∧
      (t.lowered set).isLowered = true ∧ ((t.lowered set).render set {}).failure = none ∧
      ((t.lowered set).render set {}).pass.page = (t.render set {}).pass.page ∧
      ((t.lowered set).render set {}).pass.mappings = (t.render set {}).pass.mappings := by
  intro set t
  have hp : (t.render set {}).failure = none := by decide +kernel
  exact ⟨hp, by decide +kernel, render_lowered_eq rfl t {} hp⟩

end CodePrinter
