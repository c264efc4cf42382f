import CodePrinter.Proofs.AlikeFragments

/-! Trees that are rebuilt node by node.

Main statement: if a congruence relates each location, each literal and each test to what takes its
place, then it relates what a tree and the rebuilt tree print (`Tree.rebuild_alike`). -/
namespace CodePrinter

/-- What takes the place of the locations, the typed literals and the type tests of a tree. -/
structure Rebuild where
  loc : Option Location → Option Location
  literal : SemanticType → LiteralValue → Option Location → Expr
  /-- The value of the test is rebuilt already. -/
  test : SemanticType → Expr → Option Location → Expr

mutual

/-- An expression that is rebuilt everywhere, also where nothing of it is printed. -/
def Expr.rebuild (b : Rebuild) : Expr → Expr
  | .name id loc => .name id (b.loc loc)
  | .constant value loc => .constant value (b.loc loc)
  | .call func args keywords loc =>
    .call (func.rebuild b) (rebuildExprs b args) (rebuildKeywords b keywords) (b.loc loc)
  | .attr value member loc => .attr (value.rebuild b) member (b.loc loc)
  | .subscript value slice loc => .subscript (value.rebuild b) (slice.rebuild b) (b.loc loc)
  | .binary left op right loc => .binary (left.rebuild b) op (right.rebuild b) (b.loc loc)
  | .unary op operand loc => .unary op (operand.rebuild b) (b.loc loc)
  | .boolean op values loc => .boolean op (rebuildExprs b values) (b.loc loc)
  | .compare left ops comparators loc =>
    .compare (left.rebuild b) ops (rebuildExprs b comparators) (b.loc loc)
  | .conditional test body orElse loc =>
    .conditional (test.rebuild b) (body.rebuild b) (orElse.rebuild b) (b.loc loc)
  | .lambda params body loc => .lambda (params.rebuild b) (body.rebuild b) (b.loc loc)
  | .tuple elements loc => .tuple (rebuildExprs b elements) (b.loc loc)
  | .list elements loc => .list (rebuildExprs b elements) (b.loc loc)
  | .set elements loc => .set (rebuildExprs b elements) (b.loc loc)
  | .dict keys values loc => .dict (rebuildExprs b keys) (rebuildExprs b values) (b.loc loc)
  | .named target value loc => .named (target.rebuild b) (value.rebuild b) (b.loc loc)
  | .starred value loc => .starred (value.rebuild b) (b.loc loc)
  | .emit template args loc => .emit template (rebuildExprs b args) (b.loc loc)
  | .typedLiteral type value loc => b.literal type value loc
  | .typeTest type value loc => b.test type (value.rebuild b) loc
  | .yield value loc => .yield (rebuildOption b value) (b.loc loc)
  | .yieldFrom value loc => .yieldFrom (value.rebuild b) (b.loc loc)
  | .formattedValue value formatSpec loc =>
    .formattedValue (value.rebuild b) (rebuildOption b formatSpec) (b.loc loc)
  | .unknown node loc => .unknown node (b.loc loc)

def rebuildExprs (b : Rebuild) : List Expr → List Expr
  | [] => []
  | e :: es => e.rebuild b :: rebuildExprs b es

def rebuildOption (b : Rebuild) : Option Expr → Option Expr
  | none => none
  | some e => some (e.rebuild b)

def rebuildKeywords (b : Rebuild) : List Keyword → List Keyword
  | [] => []
  | .mk name value :: ks => .mk name (value.rebuild b) :: rebuildKeywords b ks

def Param.rebuild (b : Rebuild) : Param → Param
  | .mk name hint => .mk name (rebuildOption b hint)

def rebuildParams (b : Rebuild) : List Param → List Param
  | [] => []
  | p :: ps => p.rebuild b :: rebuildParams b ps

def rebuildOptionParam (b : Rebuild) : Option Param → Option Param
  | none => none
  | some p => some (p.rebuild b)

def Params.rebuild (b : Rebuild) : Params → Params
  | .mk posOnly regular varArg defaults =>
    .mk (rebuildParams b posOnly) (rebuildParams b regular) (rebuildOptionParam b varArg)
      (rebuildExprs b defaults)

end

mutual

def Stmt.rebuild (b : Rebuild) : Stmt → Stmt
  | .functionDef name params body decorators returns loc =>
    .functionDef name (params.rebuild b) (rebuildStmts b body) (rebuildExprs b decorators)
      (rebuildOption b returns) (b.loc loc)
  | .asyncFunctionDef name params body decorators returns loc =>
    .asyncFunctionDef name (params.rebuild b) (rebuildStmts b body) (rebuildExprs b decorators)
      (rebuildOption b returns) (b.loc loc)
  | .classDef name bases body decorators loc =>
    .classDef name (rebuildExprs b bases) (rebuildStmts b body) (rebuildExprs b decorators)
      (b.loc loc)
  | .conditional test body orElse loc =>
    .conditional (test.rebuild b) (rebuildStmts b body) (rebuildStmts b orElse) (b.loc loc)
  | .forLoop target iter body loc =>
    .forLoop (target.rebuild b) (iter.rebuild b) (rebuildStmts b body) (b.loc loc)
  | .asyncFor target iter body loc =>
    .asyncFor (target.rebuild b) (iter.rebuild b) (rebuildStmts b body) (b.loc loc)
  | .whileLoop test body loc => .whileLoop (test.rebuild b) (rebuildStmts b body) (b.loc loc)
  | .tryBlock body handlers orElse finalBody loc =>
    .tryBlock (rebuildStmts b body) (rebuildHandlers b handlers) (rebuildStmts b orElse)
      (rebuildStmts b finalBody) (b.loc loc)
  | .importNames names loc => .importNames names (b.loc loc)
  | .importFrom module names loc => .importFrom module names (b.loc loc)
  | .assign targets value loc => .assign (rebuildExprs b targets) (value.rebuild b) (b.loc loc)
  | .returnValue value loc => .returnValue (rebuildOption b value) (b.loc loc)
  | .raise exception loc => .raise (exception.rebuild b) (b.loc loc)
  | .expr value loc => .expr (value.rebuild b) (b.loc loc)
  | .pass loc => .pass (b.loc loc)
  | .breakLoop loc => .breakLoop (b.loc loc)
  | .continueLoop loc => .continueLoop (b.loc loc)
  | .globalNames names loc => .globalNames names (b.loc loc)
  | .nonlocalNames names loc => .nonlocalNames names (b.loc loc)
  | .unknown kind node loc => .unknown kind node (b.loc loc)

def rebuildStmts (b : Rebuild) : List Stmt → List Stmt
  | [] => []
  | s :: ss => s.rebuild b :: rebuildStmts b ss

def Handler.rebuild (b : Rebuild) : Handler → Handler
  | .mk body type name loc =>
    .mk (rebuildStmts b body) (rebuildOption b type) name (b.loc loc)

def rebuildHandlers (b : Rebuild) : List Handler → List Handler
  | [] => []
  | h :: hs => h.rebuild b :: rebuildHandlers b hs

end

def Tree.rebuild (b : Rebuild) : Tree → Tree
  | .expr e => .expr (e.rebuild b)
  | .stmts ss => .stmts (rebuildStmts b ss)

/-- A relation holds between what a node prints and what is printed in its place. -/
structure Rebuild.Keeps (names : RuntimeNames) (r : List Instr → List Instr → Prop) (b : Rebuild) :
    Prop where
  mark (loc : Option Location) : r (markAt loc) (markAt (b.loc loc))
  problem (what : Problem) (loc : Option Location) :
    r [.problem what loc] [.problem what (b.loc loc)]
  literal (type : SemanticType) (value : LiteralValue) (loc : Option Location) :
    (Fragment.typedLiteral names type value loc).Alike r
      ((b.literal type value loc).fragment names)
  test (type : SemanticType) {f : Fragment} {e : Expr} (loc : Option Location) :
    f.Alike r (e.fragment names) →
    (Fragment.typeTest names type f loc).Alike r ((b.test type e loc).fragment names)

section Expressions

variable {r : List Instr → List Instr → Prop} {names : RuntimeNames} {b : Rebuild}

open Fragment

mutual

theorem Expr.rebuild_alike (hr : Congruence r) (hb : b.Keeps names r) :
    (e : Expr) → (e.fragment names).Alike r ((e.rebuild b).fragment names)
  | .name id loc => by
    simp only [Expr.rebuild, Expr.fragment]
    exact .name hr id (hb.mark loc)
  | .constant value loc => by
    simp only [Expr.rebuild, Expr.fragment]
    exact .constant hr value (hb.mark loc)
  | .call func args keywords loc => by
    simp only [Expr.rebuild, Expr.fragment]
    exact .call hr (hb.mark loc) (func.rebuild_alike hr hb) (exprs_alike hr hb args)
      (keywords_alike hr hb keywords)
  | .attr value member loc => by
    simp only [Expr.rebuild, Expr.fragment]
    exact .attr hr member (hb.mark loc) (value.rebuild_alike hr hb)
  | .subscript value slice loc => by
    simp only [Expr.rebuild, Expr.fragment]
    exact .subscript hr (hb.mark loc) (value.rebuild_alike hr hb) (slice.rebuild_alike hr hb)
  | .binary left op right loc => by
    simp only [Expr.rebuild, Expr.fragment]
    exact .binary hr op (hb.mark loc) (left.rebuild_alike hr hb) (right.rebuild_alike hr hb)
  | .unary op operand loc => by
    simp only [Expr.rebuild, Expr.fragment]
    exact .unary hr op (hb.mark loc) (operand.rebuild_alike hr hb)
  | .boolean op values loc => by
    simp only [Expr.rebuild, Expr.fragment]
    exact .boolean hr op (hb.mark loc) (exprs_alike hr hb values)
  | .compare left ops comparators loc => by
    simp only [Expr.rebuild, Expr.fragment]
    exact .compare hr ops (hb.mark loc) (left.rebuild_alike hr hb) (exprs_alike hr hb comparators)
  | .conditional test body orElse loc => by
    simp only [Expr.rebuild, Expr.fragment]
    exact .conditional hr (hb.mark loc) (test.rebuild_alike hr hb) (body.rebuild_alike hr hb)
      (orElse.rebuild_alike hr hb)
  | .lambda params body loc => by
    simp only [Expr.rebuild, Expr.fragment]
    exact .lambda hr (hb.mark loc) (params.rebuild_alike hr hb) (body.rebuild_alike hr hb)
  | .tuple elements loc => by
    simp only [Expr.rebuild, Expr.fragment]
    exact .tuple hr (hb.mark loc) (exprs_alike hr hb elements)
  | .list elements loc => by
    simp only [Expr.rebuild, Expr.fragment]
    exact .list hr (hb.mark loc) (exprs_alike hr hb elements)
  | .set elements loc => by
    simp only [Expr.rebuild, Expr.fragment]
    exact .set hr (hb.mark loc) (exprs_alike hr hb elements)
  | .dict keys values loc => by
    simp only [Expr.rebuild, Expr.fragment]
    exact .dict hr (hb.mark loc) (exprs_alike hr hb keys) (exprs_alike hr hb values)
  | .named target value loc => by
    simp only [Expr.rebuild, Expr.fragment]
    exact .named hr (hb.mark loc) (target.rebuild_alike hr hb) (value.rebuild_alike hr hb)
  | .starred value loc => by
    simp only [Expr.rebuild, Expr.fragment]
    exact .starred hr (hb.mark loc) (value.rebuild_alike hr hb)
  | .emit template args loc => by
    simp only [Expr.rebuild, Expr.fragment]
    exact .emit hr template (hb.mark loc) (exprs_alike hr hb args)
  | .typedLiteral type value loc => by
    rw [Expr.rebuild, Expr.fragment]
    exact hb.literal type value loc
  | .typeTest type value loc => by
    rw [Expr.rebuild, Expr.fragment]
    exact hb.test type loc (value.rebuild_alike hr hb)
  | .yield _ loc | .yieldFrom _ loc | .formattedValue _ _ loc => by
    simp only [Expr.rebuild, Expr.fragment]
    exact .unimplemented hr _ (hb.mark loc) fun what => hb.problem what loc
  | .unknown node loc => by
    simp only [Expr.rebuild, Expr.fragment]
    exact .unknown hr node (hb.mark loc)

theorem exprs_alike (hr : Congruence r) (hb : b.Keeps names r) : (es : List Expr) →
    List.Forall₂ (Alike r) (fragments names es) (fragments names (rebuildExprs b es))
  | [] => by
    simp only [rebuildExprs, fragments]
    exact .nil
  | e :: es => by
    simp only [rebuildExprs, fragments]
    exact .cons (e.rebuild_alike hr hb) (exprs_alike hr hb es)

theorem option_alike (hr : Congruence r) (hb : b.Keeps names r) : (o : Option Expr) →
    Option.Rel (Alike r) (optionFragment names o) (optionFragment names (rebuildOption b o))
  | none => by
    simp only [rebuildOption, optionFragment]
    exact .none
  | some e => by
    simp only [rebuildOption, optionFragment]
    exact .some (e.rebuild_alike hr hb)

theorem keywords_alike (hr : Congruence r) (hb : b.Keeps names r) : (ks : List Keyword) →
    List.Forall₂ (fun k k' => k.1 = k'.1 ∧ k.2.Alike r k'.2) (keywordFragments names ks)
      (keywordFragments names (rebuildKeywords b ks))
  | [] => by
    simp only [rebuildKeywords, keywordFragments]
    exact .nil
  | .mk name value :: ks => by
    simp only [rebuildKeywords, keywordFragments, Keyword.fragment]
    exact .cons ⟨rfl, value.rebuild_alike hr hb⟩ (keywords_alike hr hb ks)

theorem Param.rebuild_alike (hr : Congruence r) (hb : b.Keeps names r) :
    (p : Param) → (p.fragment names).Alike r ((p.rebuild b).fragment names)
  | .mk name hint => by
    simp only [Param.rebuild, Param.fragment]
    exact ⟨rfl, option_alike hr hb hint⟩

theorem params_alike (hr : Congruence r) (hb : b.Keeps names r) : (ps : List Param) →
    List.Forall₂ (ParamFragment.Alike r) (paramFragments names ps)
      (paramFragments names (rebuildParams b ps))
  | [] => by
    simp only [rebuildParams, paramFragments]
    exact .nil
  | p :: ps => by
    simp only [rebuildParams, paramFragments]
    exact .cons (p.rebuild_alike hr hb) (params_alike hr hb ps)

theorem optionParam_alike (hr : Congruence r) (hb : b.Keeps names r) : (o : Option Param) →
    Option.Rel (ParamFragment.Alike r) (optionParamFragment names o)
      (optionParamFragment names (rebuildOptionParam b o))
  | none => by
    simp only [rebuildOptionParam, optionParamFragment]
    exact .none
  | some p => by
    simp only [rebuildOptionParam, optionParamFragment]
    exact .some (p.rebuild_alike hr hb)

theorem Params.rebuild_alike (hr : Congruence r) (hb : b.Keeps names r) :
    (ps : Params) → (ps.fragment names).Alike r ((ps.rebuild b).fragment names)
  | .mk posOnly regular varArg defaults => by
    simp only [Params.rebuild, Params.fragment]
    exact ⟨params_alike hr hb posOnly, params_alike hr hb regular, optionParam_alike hr hb varArg,
      exprs_alike hr hb defaults⟩

end

end Expressions

/-! Statements. The indentation of a suite changes at the ends of lines, as the last instruction of
its statements ends one. -/

/-- Two lists of instructions that are related and end a line. -/
def Ended (r : List Instr → List Instr → Prop) (is js : List Instr) : Prop :=
  ∃ is' js', is = is' ++ [.endLine] ∧ js = js' ++ [.endLine] ∧ r is' js'

/-- Statements that print related instructions, one by one. -/
def StmtsAlike (set : Settings) (r : List Instr → List Instr → Prop) :
    List Stmt → List Stmt → Prop :=
  List.Forall₂ fun s s' => r (s.instrs set) (s'.instrs set)

variable {r : List Instr → List Instr → Prop} {set : Settings} {b : Rebuild}

namespace Ended

variable {is js : List Instr}

theorem suite (hr : Congruence r) (h : Ended r is js) : r (suite is) (suite js) := by
  obtain ⟨is', js', rfl, rfl, h⟩ := h
  simpa [CodePrinter.suite] using hr.nested (.inr rfl) h

theorem block (hr : Congruence r) (h : Ended r is js) : r (block is) (block js) :=
  hr.cons rfl (hr.append (h.suite hr) (hr.plain rfl))

end Ended

namespace StmtsAlike

variable {s s' : Stmt} {ss ss' : List Stmt}

theorem instrs (hr : Congruence r) (h : StmtsAlike set r ss ss') :
    r (stmtsInstrs set ss) (stmtsInstrs set ss') := by
  induction h with
  | nil => simpa only [stmtsInstrs] using hr.nil
  | cons h hrest ih =>
    rw [stmtsInstrs, stmtsInstrs]
    exact hr.append h (hr.cons rfl ih)

theorem ended (hr : Congruence r) (h : StmtsAlike set r (s :: ss) (s' :: ss')) :
    Ended r (stmtsInstrs set (s :: ss)) (stmtsInstrs set (s' :: ss')) := by
  obtain ⟨hs, hss⟩ := List.forall₂_cons.mp h
  clear h
  induction hss generalizing s s' with
  | nil => exact ⟨s.instrs set, s'.instrs set, by simp [stmtsInstrs], by simp [stmtsInstrs], hs⟩
  | @cons t t' ts ts' ht hts ih =>
    obtain ⟨is, js, hi, hj, hij⟩ := ih ht
    refine ⟨s.instrs set ++ .endLine :: is, s'.instrs set ++ .endLine :: js, ?_, ?_,
      hr.append hs (hr.cons rfl hij)⟩
    · rw [stmtsInstrs, hi]
      simp
    · rw [stmtsInstrs, hj]
      simp

/-- The statements of a suite, of which there may be none. -/
theorem orPass (hr : Congruence r) (h : StmtsAlike set r ss ss') :
    Ended r (orPass (stmtsInstrs set ss) ss.isEmpty)
      (orPass (stmtsInstrs set ss') ss'.isEmpty) := by
  cases h with
  | nil => exact ⟨[.text "pass"], [.text "pass"], rfl, rfl, hr.text "pass"⟩
  | cons hs hss => exact ended hr (.cons hs hss)

/-- A part of a statement that is left out if there is nothing in it. -/
theorem optional (hr : Congruence r) (header : String) (h : StmtsAlike set r ss ss') :
    r (if ss.isEmpty then [] else .text header :: block (stmtsInstrs set ss))
      (if ss'.isEmpty then [] else .text header :: block (stmtsInstrs set ss')) := by
  cases h with
  | nil => exact hr.nil
  | cons hs hss => exact hr.cons rfl ((ended hr (.cons hs hss)).block hr)

end StmtsAlike

namespace Congruence

variable {fs gs : List Fragment}

theorem optional (hr : Congruence r) (value : String) {o o' : Option Fragment} :
    Option.Rel (Fragment.Alike r) o o' →
    r (match o with | some f => .text value :: f.bare | none => [])
      (match o' with | some f => .text value :: f.bare | none => []) := by
  intro h
  cases h with
  | none => exact hr.nil
  | some h => exact hr.cons rfl (h.bare hr)

theorem asName (hr : Congruence r) (name : Option String) :
    r (match name with | some name => [.text " as ", .text name] | none => [])
      (match name with | some name => [.text " as ", .text name] | none => []) := by
  cases name with
  | none => exact hr.nil
  | some name => exact hr.cons rfl (hr.text name)

theorem decorators (hr : Congruence r) (h : List.Forall₂ (Fragment.Alike r) fs gs) :
    r (fs.flatMap decorator) (gs.flatMap decorator) :=
  hr.flatMap (fun _ _ h => hr.cons rfl (hr.append (h.bare hr) (hr.plain rfl))) h

theorem assignTargets (hr : Congruence r) (h : List.Forall₂ (Fragment.Alike r) fs gs) :
    r (fs.flatMap assignTarget) (gs.flatMap assignTarget) :=
  hr.flatMap (fun _ _ h => hr.append (h.bare hr) (hr.text " = ")) h

theorem aliases (hr : Congruence r) (names : List Alias) : r (aliases names) (aliases names) := by
  have hprint (a : Alias) : r a.print a.print := by
    unfold Alias.print
    split
    · exact ite Iff.rfl (hr.text _) (hr.cons rfl (hr.cons rfl (hr.text _)))
    · exact hr.text _
  have hprints : List.Forall₂ r (names.map Alias.print) (names.map Alias.print) := by
    refine List.forall₂_same.mpr fun is hi => ?_
    obtain ⟨a, -, rfl⟩ := List.mem_map.mp hi
    exact hprint a
  have hitems := hr.commaSeparated hprints
  exact ite Iff.rfl (hr.parenthesized hitems) hitems

theorem nameList (hr : Congruence r) (keyword : String) (names : List String) :
    r (nameList keyword names) (nameList keyword names) :=
  ite Iff.rfl hr.nil (hr.cons rfl (hr.text _))

end Congruence

mutual

theorem Stmt.rebuild_alike (hr : Congruence r) (hb : b.Keeps set.names r) :
    (s : Stmt) → r (s.instrs set) ((s.rebuild b).instrs set)
  | .functionDef name params body decorators returns loc => by
    have hname := hr.append (hr.append (hb.mark loc) (hr.decorators (exprs_alike hr hb decorators)))
      (hr.cons (i := .text "def ") rfl (hr.cons (i := .text name) rfl (hr.text "(")))
    have hparams := hr.append hname ((params.rebuild_alike hr hb).print hr true)
    have hreturns := hr.append (hr.append hparams (hr.text ")"))
      (hr.optional " -> " (option_alike hr hb returns))
    rw [Stmt.rebuild, Stmt.instrs.eq_def, Stmt.instrs.eq_def]
    exact hr.append hreturns (hr.cons rfl (((stmts_alike hr hb body).orPass hr).block hr))
  | .asyncFunctionDef _ _ _ _ _ loc | .asyncFor _ _ _ loc => by
    simp only [Stmt.rebuild, Stmt.instrs]
    exact hr.append (hb.mark loc) (hr.append (hb.problem _ loc) (hr.text "pass"))
  | .classDef name bases body decorators loc => by
    have hname := hr.append (hr.append (hb.mark loc) (hr.decorators (exprs_alike hr hb decorators)))
      (hr.cons (i := .text "class ") rfl (hr.text name))
    have hbases : r (if bases.isEmpty then []
        else parenthesized (commaSeparated ((fragments set.names bases).map Fragment.bare)))
        (if (rebuildExprs b bases).isEmpty then []
        else parenthesized
          (commaSeparated ((fragments set.names (rebuildExprs b bases)).map Fragment.bare))) := by
      have hitems := Fragment.Alike.bares hr (exprs_alike hr hb bases)
      refine Congruence.ite ?_ hr.nil (hr.parenthesized hitems)
      cases bases <;> simp [rebuildExprs]
    simp only [Stmt.rebuild, Stmt.instrs]
    exact hr.append (hr.append hname hbases)
      (hr.cons rfl (((stmts_alike hr hb body).orPass hr).suite hr))
  | .conditional test body orElse loc => by
    have htest := hr.append (hb.mark loc)
      (hr.cons (i := .text "if ") rfl ((test.rebuild_alike hr hb).bare hr))
    simp only [Stmt.rebuild, Stmt.instrs]
    exact hr.append (hr.append htest
      (hr.cons rfl (((stmts_alike hr hb body).orPass hr).block hr))) (else_alike hr hb orElse)
  | .forLoop target iter body loc => by
    have htarget := hr.append (hb.mark loc)
      (hr.cons (i := .text "for ") rfl ((target.rebuild_alike hr hb).bare hr))
    have hiter := hr.append htarget
      (hr.cons (i := .text " in ") rfl ((iter.rebuild_alike hr hb).bare hr))
    simp only [Stmt.rebuild, Stmt.instrs]
    exact hr.append hiter (hr.cons rfl (((stmts_alike hr hb body).orPass hr).suite hr))
  | .whileLoop test body loc => by
    have htest := hr.append (hb.mark loc)
      (hr.cons (i := .text "while ") rfl ((test.rebuild_alike hr hb).bare hr))
    simp only [Stmt.rebuild, Stmt.instrs]
    exact hr.append htest (hr.cons rfl (((stmts_alike hr hb body).orPass hr).suite hr))
  | .tryBlock body handlers orElse finalBody loc => by
    have hbody := hr.append (hb.mark loc)
      (hr.cons (i := .text "try:") rfl (((stmts_alike hr hb body).orPass hr).block hr))
    simp only [Stmt.rebuild, Stmt.instrs]
    exact hr.append (hr.append (hr.append hbody (handlers_alike hr hb handlers))
      ((stmts_alike hr hb orElse).optional hr "else:"))
      ((stmts_alike hr hb finalBody).optional hr "finally:")
  | .importNames names loc => by
    simp only [Stmt.rebuild, Stmt.instrs]
    exact hr.append (hb.mark loc) (Congruence.ite Iff.rfl hr.nil (hr.cons rfl (hr.aliases names)))
  | .importFrom module names loc => by
    simp only [Stmt.rebuild, Stmt.instrs]
    exact hr.append (hb.mark loc) (Congruence.ite Iff.rfl hr.nil
      (hr.append (hr.cons rfl (hr.textOr _ _)) (hr.cons rfl (hr.aliases names))))
  | .assign targets value loc => by
    simp only [Stmt.rebuild, Stmt.instrs]
    exact hr.append (hr.append (hb.mark loc) (hr.assignTargets (exprs_alike hr hb targets)))
      ((value.rebuild_alike hr hb).bare hr)
  | .returnValue value loc => by
    rw [Stmt.rebuild, Stmt.instrs.eq_def, Stmt.instrs.eq_def]
    exact hr.append (hb.mark loc) (hr.cons rfl (hr.optional " " (option_alike hr hb value)))
  | .raise exception loc => by
    simp only [Stmt.rebuild, Stmt.instrs]
    exact hr.append (hb.mark loc) (hr.cons rfl ((exception.rebuild_alike hr hb).bare hr))
  | .expr value loc => by
    simp only [Stmt.rebuild, Stmt.instrs]
    exact hr.append (hb.mark loc) ((value.rebuild_alike hr hb).bare hr)
  | .pass loc | .breakLoop loc | .continueLoop loc => by
    simp only [Stmt.rebuild, Stmt.instrs]
    exact hr.append (hb.mark loc) (hr.text _)
  | .globalNames names loc | .nonlocalNames names loc => by
    simp only [Stmt.rebuild, Stmt.instrs]
    exact hr.append (hb.mark loc) (hr.nameList _ names)
  | .unknown _ node loc => by
    simp only [Stmt.rebuild, Stmt.instrs]
    exact hr.append (hb.mark loc) (hr.plain rfl)

theorem stmts_alike (hr : Congruence r) (hb : b.Keeps set.names r) :
    (ss : List Stmt) → StmtsAlike set r ss (rebuildStmts b ss)
  | [] => by
    rw [rebuildStmts]
    exact .nil
  | s :: ss => by
    rw [rebuildStmts]
    exact .cons (s.rebuild_alike hr hb) (stmts_alike hr hb ss)

theorem else_alike (hr : Congruence r) (hb : b.Keeps set.names r) :
    (ss : List Stmt) → r (elseInstrs set ss) (elseInstrs set (rebuildStmts b ss))
  | [] => by
    simp only [rebuildStmts, elseInstrs]
    exact hr.nil
  | [s] => by
    have halone := StmtsAlike.ended hr (.cons (s.rebuild_alike hr hb) .nil)
    cases s with
    | pass loc =>
      simp only [rebuildStmts, Stmt.rebuild, elseInstrs]
      exact hr.nil
    | conditional test body orElse loc =>
      have htest := hr.append (hb.mark loc)
        (hr.cons (i := .text "elif ") rfl ((test.rebuild_alike hr hb).bare hr))
      simp only [rebuildStmts, Stmt.rebuild, elseInstrs]
      exact hr.append (hr.append htest
        (hr.cons rfl (((stmts_alike hr hb body).orPass hr).block hr))) (else_alike hr hb orElse)
    | _ =>
      simp only [rebuildStmts]
      rw [elseInstrs_eq _ _ (by simp) (by simp),
        elseInstrs_eq _ _ (by simp [Stmt.rebuild]) (by simp [Stmt.rebuild])]
      exact hr.cons rfl (halone.block hr)
  | s :: t :: ss => by
    have hall := StmtsAlike.ended hr (.cons (s.rebuild_alike hr hb) (stmts_alike hr hb (t :: ss)))
    simp only [rebuildStmts] at hall ⊢
    rw [elseInstrs_eq _ _ (by simp) (by simp), elseInstrs_eq _ _ (by simp) (by simp)]
    exact hr.cons rfl (hall.block hr)

theorem Handler.rebuild_alike (hr : Congruence r) (hb : b.Keeps set.names r) :
    (h : Handler) → r (h.instrs set) ((h.rebuild b).instrs set)
  | .mk body type name loc => by
    have htype := hr.append (hb.mark loc)
      (hr.cons (i := .text "except") rfl (hr.optional " " (option_alike hr hb type)))
    rw [Handler.rebuild, Handler.instrs.eq_def, Handler.instrs.eq_def]
    exact hr.append (hr.append htype (hr.asName name))
      (hr.cons rfl (((stmts_alike hr hb body).orPass hr).block hr))

theorem handlers_alike (hr : Congruence r) (hb : b.Keeps set.names r) :
    (hs : List Handler) → r (handlersInstrs set hs) (handlersInstrs set (rebuildHandlers b hs))
  | [] => by
    simp only [rebuildHandlers, handlersInstrs]
    exact hr.nil
  | h :: hs => by
    simp only [rebuildHandlers, handlersInstrs]
    exact hr.append (h.rebuild_alike hr hb) (handlers_alike hr hb hs)

end

/-- A tree and the rebuilt tree print what is related. -/
theorem Tree.rebuild_alike (hr : Congruence r) (hb : b.Keeps set.names r) (t : Tree) :
    r (t.instrs set) ((t.rebuild b).instrs set) := by
  cases t with
  | expr e => exact (e.rebuild_alike hr hb).bare hr
  | stmts ss => exact (stmts_alike hr hb ss).instrs hr

/-- Takes away every location. -/
def Rebuild.unlocated : Rebuild where
  loc _ := none
  literal type value _ := .typedLiteral type value none
  test type value _ := .typeTest type value none

/-- A congruence relates trees to those without locations if it makes nothing of a location. -/
theorem Congruence.keeps_unlocated {names : RuntimeNames} (hr : Congruence r)
    (hmark : ∀ loc, r (markAt loc) [])
    (hproblem : ∀ what loc, r [.problem what loc] [.problem what none]) :
    Rebuild.unlocated.Keeps names r := by
  have hissues (what : Option Problem) (loc : Option Location) :
      r (Fragment.ofProblem loc what) (Fragment.ofProblem none what) := by
    cases what with
    | none => exact hr.nil
    | some what => exact hproblem what loc
  have hnone (loc : Option Location) : r (markAt loc) (markAt none) := hmark loc
  refine ⟨hmark, hproblem, ?_, ?_⟩
  · intro type value loc
    have hform := Fragment.Alike.literalForm hr (type.lowerLiteral names value).1 (hnone loc)
    rw [Rebuild.unlocated, Expr.fragment]
    exact ⟨hissues _ loc, hform.shape, hform.body⟩
  · intro type f e loc h
    have hform := Fragment.Alike.testForm hr names (type.testForm names) (hnone loc) h
    rw [Rebuild.unlocated, Expr.fragment]
    exact ⟨hissues _ loc, hform.shape, hform.body⟩

end CodePrinter
