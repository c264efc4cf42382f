import CodePrinter.Print.Stmt

/-! Conditions on the names that a tree is printed with.

The parts of a tree that are never printed, such as the value of a `yield`, have no names here. -/
namespace CodePrinter

/-- All names of run-time helpers meet a condition. -/
def RuntimeNames.All (ok : String → Prop) (names : RuntimeNames) : Prop :=
  ok names.long ∧ ok names.longFromBits ∧ ok names.fround ∧ ok names.typeOf ∧ ok names.isArray ∧
    ok names.regex ∧ ok names.decimal ∧ ok names.bigInt

/-- The name that a literal of a type is printed with, if any, meets a condition. -/
def SemanticType.AllNames (ok : String → Prop) : SemanticType → Prop
  | .enum name _ => ok name
  | _ => True

def LiteralForm.AllNames (ok : String → Prop) : LiteralForm → Prop
  | .construct callee member _ => ok callee ∧ ∀ name ∈ member, ok name
  | _ => True

def TestForm.AllNames (ok : String → Prop) : TestForm → Prop
  | .instance className => ok className
  | _ => True

theorem ExtendedKind.literal?_allNames {ok : String → Prop} {names : RuntimeNames}
    {kind : ExtendedKind} {value : LiteralValue} {form : LiteralForm} (hr : names.All ok)
    (hf : kind.literal? names value = some form) : form.AllNames ok := by
  obtain ⟨hlong, hbits, -⟩ := hr
  cases kind with
  | bigint => cases hf
  | int64 | uint64 =>
    obtain ⟨n, -, rfl⟩ := Option.map_eq_some_iff.mp hf
    exact ⟨hlong, by simpa using hbits⟩
  | decimal =>
    obtain ⟨x, -, rfl⟩ := Option.map_eq_some_iff.mp hf
    trivial

theorem SemanticType.literal?_allNames {ok : String → Prop} {names : RuntimeNames}
    {type : SemanticType} {value : LiteralValue} {form : LiteralForm} (hr : names.All ok)
    (h : type.AllNames ok) (hf : type.literal? names value = some form) : form.AllNames ok := by
  have hfround : ok names.fround := hr.2.2.1
  unfold SemanticType.literal? at hf
  split at hf
  · exact ExtendedKind.literal?_allNames hr hf
  · obtain rfl := Option.some.inj hf
    exact ⟨hfround, by simp⟩
  all_goals grind [LiteralForm.AllNames, SemanticType.AllNames]

/-- The form of a literal has no names but those of its type and of run-time helpers. -/
theorem SemanticType.lowerLiteral_allNames {ok : String → Prop} {names : RuntimeNames}
    {type : SemanticType} (value : LiteralValue) (hr : names.All ok) (h : type.AllNames ok) :
    (type.lowerLiteral names value).1.AllNames ok := by
  unfold SemanticType.lowerLiteral
  split
  · rename_i form hf
    exact SemanticType.literal?_allNames hr h hf
  · trivial

theorem SemanticType.testForm_allNames {ok : String → Prop} {names : RuntimeNames}
    (type : SemanticType) (hr : names.All ok) : (type.testForm names).AllNames ok := by
  obtain ⟨hlong, -, -, -, -, hregex, hdecimal, hbig⟩ := hr
  cases type with
  | regex => exact hregex
  | extended kind => cases kind <;> assumption
  | _ => trivial

mutual

/-- All names in an expression meet a condition. -/
def Expr.AllNames (ok : String → Prop) : Expr → Prop
  | .name id _ => ok id
  | .constant _ _ => True
  | .call func args keywords _ =>
    func.AllNames ok ∧ exprsAllNames ok args ∧ keywordsAllNames ok keywords
  | .attr value member _ => value.AllNames ok ∧ ok member
  | .subscript value slice _ => value.AllNames ok ∧ slice.AllNames ok
  | .binary left _ right _ => left.AllNames ok ∧ right.AllNames ok
  | .unary _ operand _ => operand.AllNames ok
  | .boolean _ values _ => exprsAllNames ok values
  | .compare left _ comparators _ => left.AllNames ok ∧ exprsAllNames ok comparators
  | .conditional test body orElse _ =>
    test.AllNames ok ∧ body.AllNames ok ∧ orElse.AllNames ok
  | .lambda params body _ => params.AllNames ok ∧ body.AllNames ok
  | .tuple elements _ => exprsAllNames ok elements
  | .list elements _ => exprsAllNames ok elements
  | .set elements _ => exprsAllNames ok elements
  | .dict keys values _ => exprsAllNames ok keys ∧ exprsAllNames ok values
  | .named target value _ => target.AllNames ok ∧ value.AllNames ok
  | .starred value _ => value.AllNames ok
  | .emit _ args _ => exprsAllNames ok args
  | .typedLiteral type _ _ => type.AllNames ok
  | .typeTest _ value _ => value.AllNames ok
  | .yield _ _ => True
  | .yieldFrom _ _ => True
  | .formattedValue _ _ _ => True
  | .unknown _ _ => True

def exprsAllNames (ok : String → Prop) : List Expr → Prop
  | [] => True
  | e :: es => e.AllNames ok ∧ exprsAllNames ok es

def optionAllNames (ok : String → Prop) : Option Expr → Prop
  | none => True
  | some e => e.AllNames ok

def keywordsAllNames (ok : String → Prop) : List Keyword → Prop
  | [] => True
  | .mk name value :: ks => ok name ∧ value.AllNames ok ∧ keywordsAllNames ok ks

def Param.AllNames (ok : String → Prop) : Param → Prop
  | .mk name hint => ok name ∧ optionAllNames ok hint

def paramsAllNames (ok : String → Prop) : List Param → Prop
  | [] => True
  | p :: ps => p.AllNames ok ∧ paramsAllNames ok ps

def optionParamAllNames (ok : String → Prop) : Option Param → Prop
  | none => True
  | some p => p.AllNames ok

def Params.AllNames (ok : String → Prop) : Params → Prop
  | .mk posOnly regular varArg defaults =>
    paramsAllNames ok posOnly ∧ paramsAllNames ok regular ∧ optionParamAllNames ok varArg ∧
      exprsAllNames ok defaults

end

def Alias.AllNames (ok : String → Prop) (a : Alias) : Prop := ok a.name ∧ ∀ n ∈ a.asName, ok n

mutual

/-- All names in a statement, and the paths that its imports resolve to, meet a condition. -/
def Stmt.AllNames (set : Settings) (ok : String → Prop) : Stmt → Prop
  | .functionDef name params body decorators returns _ =>
    ok name ∧ params.AllNames ok ∧ stmtsAllNames set ok body ∧ exprsAllNames ok decorators ∧
      optionAllNames ok returns
  | .asyncFunctionDef _ _ _ _ _ _ => True
  | .classDef name bases body decorators _ =>
    ok name ∧ exprsAllNames ok bases ∧ stmtsAllNames set ok body ∧ exprsAllNames ok decorators
  | .conditional test body orElse _ =>
    test.AllNames ok ∧ stmtsAllNames set ok body ∧ stmtsAllNames set ok orElse
  | .forLoop target iter body _ =>
    target.AllNames ok ∧ iter.AllNames ok ∧ stmtsAllNames set ok body
  | .asyncFor _ _ _ _ => True
  | .whileLoop test body _ => test.AllNames ok ∧ stmtsAllNames set ok body
  | .tryBlock body handlers orElse finalBody _ =>
    stmtsAllNames set ok body ∧ handlersAllNames set ok handlers ∧ stmtsAllNames set ok orElse ∧
      stmtsAllNames set ok finalBody
  | .importNames names _ => ∀ a ∈ names, a.AllNames ok
  | .importFrom module names _ =>
    (∀ path, set.resolve (module.getD ".") = .ok path → ok path) ∧ ∀ a ∈ names, a.AllNames ok
  | .assign targets value _ => exprsAllNames ok targets ∧ value.AllNames ok
  | .returnValue value _ => optionAllNames ok value
  | .raise exception _ => exception.AllNames ok
  | .expr value _ => value.AllNames ok
  | .pass _ => True
  | .breakLoop _ => True
  | .continueLoop _ => True
  | .globalNames names _ => ∀ n ∈ names, ok n
  | .nonlocalNames names _ => ∀ n ∈ names, ok n
  | .unknown _ _ _ => True

def stmtsAllNames (set : Settings) (ok : String → Prop) : List Stmt → Prop
  | [] => True
  | s :: ss => s.AllNames set ok ∧ stmtsAllNames set ok ss

def Handler.AllNames (set : Settings) (ok : String → Prop) : Handler → Prop
  | .mk body type name _ =>
    stmtsAllNames set ok body ∧ optionAllNames ok type ∧ ∀ n ∈ name, ok n

def handlersAllNames (set : Settings) (ok : String → Prop) : List Handler → Prop
  | [] => True
  | h :: hs => h.AllNames set ok ∧ handlersAllNames set ok hs

end

section Any

variable {set : Settings} {ok : String → Prop}

theorem SemanticType.allNames_of_forall (h : ∀ name, ok name) (type : SemanticType) :
    type.AllNames ok := by
  cases type with
  | enum name _ => exact h name
  | _ => trivial

theorem Alias.allNames_of_forall (h : ∀ name, ok name) (a : Alias) : a.AllNames ok :=
  ⟨h a.name, fun n _ => h n⟩

mutual

/-- A condition that every name meets is met by those of every expression. -/
theorem Expr.allNames_of_forall (h : ∀ name, ok name) : (e : Expr) → e.AllNames ok
  | .name id _ => by rw [Expr.AllNames]; exact h id
  | .call func args keywords _ => by
    rw [Expr.AllNames]
    exact ⟨func.allNames_of_forall h, exprsAllNames_of_forall h args,
      keywordsAllNames_of_forall h keywords⟩
  | .attr value member _ => by
    rw [Expr.AllNames]
    exact ⟨value.allNames_of_forall h, h member⟩
  | .subscript left right _ | .binary left _ right _ | .named left right _ => by
    rw [Expr.AllNames]
    exact ⟨left.allNames_of_forall h, right.allNames_of_forall h⟩
  | .unary _ value _ | .starred value _ | .typeTest _ value _ => by
    rw [Expr.AllNames]
    exact value.allNames_of_forall h
  | .boolean _ values _ | .tuple values _ | .list values _ | .set values _ | .emit _ values _ => by
    rw [Expr.AllNames]
    exact exprsAllNames_of_forall h values
  | .compare left _ comparators _ => by
    rw [Expr.AllNames]
    exact ⟨left.allNames_of_forall h, exprsAllNames_of_forall h comparators⟩
  | .conditional test body orElse _ => by
    rw [Expr.AllNames]
    exact ⟨test.allNames_of_forall h, body.allNames_of_forall h, orElse.allNames_of_forall h⟩
  | .lambda params body _ => by
    rw [Expr.AllNames]
    exact ⟨params.allNames_of_forall h, body.allNames_of_forall h⟩
  | .dict keys values _ => by
    rw [Expr.AllNames]
    exact ⟨exprsAllNames_of_forall h keys, exprsAllNames_of_forall h values⟩
  | .typedLiteral type _ _ => by
    rw [Expr.AllNames]
    exact type.allNames_of_forall h
  | .constant _ _ | .yield _ _ | .yieldFrom _ _ | .formattedValue _ _ _ | .unknown _ _ => by
    rw [Expr.AllNames]
    trivial

theorem exprsAllNames_of_forall (h : ∀ name, ok name) : (es : List Expr) → exprsAllNames ok es
  | [] => by rw [exprsAllNames]; trivial
  | e :: es => by
    rw [exprsAllNames]
    exact ⟨e.allNames_of_forall h, exprsAllNames_of_forall h es⟩

theorem optionAllNames_of_forall (h : ∀ name, ok name) : (o : Option Expr) → optionAllNames ok o
  | none => by rw [optionAllNames]; trivial
  | some e => by rw [optionAllNames]; exact e.allNames_of_forall h

theorem keywordsAllNames_of_forall (h : ∀ name, ok name) : (ks : List Keyword) →
    keywordsAllNames ok ks
  | [] => by rw [keywordsAllNames]; trivial
  | .mk name value :: ks => by
    rw [keywordsAllNames]
    exact ⟨h name, value.allNames_of_forall h, keywordsAllNames_of_forall h ks⟩

theorem Param.allNames_of_forall (h : ∀ name, ok name) : (p : Param) → p.AllNames ok
  | .mk name hint => by
    rw [Param.AllNames]
    exact ⟨h name, optionAllNames_of_forall h hint⟩

theorem paramsAllNames_of_forall (h : ∀ name, ok name) : (ps : List Param) → paramsAllNames ok ps
  | [] => by rw [paramsAllNames]; trivial
  | p :: ps => by
    rw [paramsAllNames]
    exact ⟨p.allNames_of_forall h, paramsAllNames_of_forall h ps⟩

theorem optionParamAllNames_of_forall (h : ∀ name, ok name) : (o : Option Param) →
    optionParamAllNames ok o
  | none => by rw [optionParamAllNames]; trivial
  | some p => by rw [optionParamAllNames]; exact p.allNames_of_forall h

theorem Params.allNames_of_forall (h : ∀ name, ok name) : (ps : Params) → ps.AllNames ok
  | .mk posOnly regular varArg defaults => by
    rw [Params.AllNames]
    exact ⟨paramsAllNames_of_forall h posOnly, paramsAllNames_of_forall h regular,
      optionParamAllNames_of_forall h varArg, exprsAllNames_of_forall h defaults⟩

end

mutual

theorem Stmt.allNames_of_forall (h : ∀ name, ok name) : (s : Stmt) → s.AllNames set ok
  | .functionDef name params body decorators returns _ => by
    rw [Stmt.AllNames]
    exact ⟨h name, params.allNames_of_forall h, stmtsAllNames_of_forall h body,
      exprsAllNames_of_forall h decorators, optionAllNames_of_forall h returns⟩
  | .classDef name bases body decorators _ => by
    rw [Stmt.AllNames]
    exact ⟨h name, exprsAllNames_of_forall h bases, stmtsAllNames_of_forall h body,
      exprsAllNames_of_forall h decorators⟩
  | .conditional test body orElse _ => by
    rw [Stmt.AllNames]
    exact ⟨test.allNames_of_forall h, stmtsAllNames_of_forall h body,
      stmtsAllNames_of_forall h orElse⟩
  | .forLoop target iter body _ => by
    rw [Stmt.AllNames]
    exact ⟨target.allNames_of_forall h, iter.allNames_of_forall h, stmtsAllNames_of_forall h body⟩
  | .whileLoop test body _ => by
    rw [Stmt.AllNames]
    exact ⟨test.allNames_of_forall h, stmtsAllNames_of_forall h body⟩
  | .tryBlock body handlers orElse finalBody _ => by
    rw [Stmt.AllNames]
    exact ⟨stmtsAllNames_of_forall h body, handlersAllNames_of_forall h handlers,
      stmtsAllNames_of_forall h orElse, stmtsAllNames_of_forall h finalBody⟩
  | .importNames names _ => by
    rw [Stmt.AllNames]
    exact fun a _ => a.allNames_of_forall h
  | .importFrom _ names _ => by
    rw [Stmt.AllNames]
    exact ⟨fun path _ => h path, fun a _ => a.allNames_of_forall h⟩
  | .assign targets value _ => by
    rw [Stmt.AllNames]
    exact ⟨exprsAllNames_of_forall h targets, value.allNames_of_forall h⟩
  | .returnValue value _ => by
    rw [Stmt.AllNames]
    exact optionAllNames_of_forall h value
  | .raise value _ | .expr value _ => by
    rw [Stmt.AllNames]
    exact value.allNames_of_forall h
  | .globalNames _ _ | .nonlocalNames _ _ => by
    rw [Stmt.AllNames]
    exact fun n _ => h n
  | .asyncFunctionDef _ _ _ _ _ _ | .asyncFor _ _ _ _ | .pass _ | .breakLoop _
  | .continueLoop _ | .unknown _ _ _ => by
    rw [Stmt.AllNames]
    trivial

theorem stmtsAllNames_of_forall (h : ∀ name, ok name) : (ss : List Stmt) → stmtsAllNames set ok ss
  | [] => by rw [stmtsAllNames]; trivial
  | s :: ss => by
    rw [stmtsAllNames]
    exact ⟨s.allNames_of_forall h, stmtsAllNames_of_forall h ss⟩

theorem Handler.allNames_of_forall (h : ∀ name, ok name) : (handler : Handler) →
    handler.AllNames set ok
  | .mk body type _ _ => by
    rw [Handler.AllNames]
    exact ⟨stmtsAllNames_of_forall h body, optionAllNames_of_forall h type, fun n _ => h n⟩

theorem handlersAllNames_of_forall (h : ∀ name, ok name) : (hs : List Handler) →
    handlersAllNames set ok hs
  | [] => by rw [handlersAllNames]; trivial
  | handler :: hs => by
    rw [handlersAllNames]
    exact ⟨handler.allNames_of_forall h, handlersAllNames_of_forall h hs⟩

end

end Any

theorem stmtsAllNames_iff {set : Settings} {ok : String → Prop} {ss : List Stmt} :
    stmtsAllNames set ok ss ↔ ∀ s ∈ ss, s.AllNames set ok := by
  induction ss with
  | nil => simp [stmtsAllNames]
  | cons s ss ih => simp [stmtsAllNames, ih]

end CodePrinter
