import CodePrinter.Print.Lowered
import CodePrinter.Print.Params
import CodePrinter.Print.Snippet

/-! Printing of expressions. -/
namespace CodePrinter

mutual

/-- A printed expression. Typed literals and type tests are lowered on the way. -/
def Expr.fragment (names : RuntimeNames) : Expr → Fragment
  | .name id loc => .name id loc
  | .constant value loc => .constant value loc
  | .call func args keywords loc =>
    .call (func.fragment names) (fragments names args) (keywordFragments names keywords) loc
  | .attr value member loc => .attr (value.fragment names) member loc
  | .subscript value slice loc => .subscript (value.fragment names) (slice.fragment names) loc
  | .binary left op right loc => .binary (left.fragment names) op (right.fragment names) loc
  | .unary op operand loc => .unary op (operand.fragment names) loc
  | .boolean op values loc => .boolean op (fragments names values) loc
  | .compare left ops comparators loc =>
    .compare (left.fragment names) ops (fragments names comparators) loc
  | .conditional test body orElse loc =>
    .conditional (test.fragment names) (body.fragment names) (orElse.fragment names) loc
  | .lambda params body loc => .lambda (params.fragment names) (body.fragment names) loc
  | .tuple elements loc => .tuple (fragments names elements) loc
  | .list elements loc => .list (fragments names elements) loc
  | .set elements loc => .set (fragments names elements) loc
  | .dict keys values loc => .dict (fragments names keys) (fragments names values) loc
  | .named target value loc => .named (target.fragment names) (value.fragment names) loc
  | .starred value loc => .starred (value.fragment names) loc
  | .emit template args loc => .emit template (fragments names args) loc
  | .typedLiteral type value loc => .typedLiteral names type value loc
  | .typeTest type value loc => .typeTest names type (value.fragment names) loc
  | .yield _ loc => .unimplemented "yield" loc
  | .yieldFrom _ loc => .unimplemented "yield from" loc
  | .formattedValue _ _ loc => .unimplemented "Formatted value" loc
  | .unknown node loc => .unknown node loc

def fragments (names : RuntimeNames) : List Expr → List Fragment
  | [] => []
  | e :: es => e.fragment names :: fragments names es

def optionFragment (names : RuntimeNames) : Option Expr → Option Fragment
  | none => none
  | some e => some (e.fragment names)

def Keyword.fragment (names : RuntimeNames) : Keyword → String × Fragment
  | .mk name value => (name, value.fragment names)

def keywordFragments (names : RuntimeNames) : List Keyword → List (String × Fragment)
  | [] => []
  | k :: ks => k.fragment names :: keywordFragments names ks

def Param.fragment (names : RuntimeNames) : Param → ParamFragment
  | .mk name hint => { name, hint := optionFragment names hint }

def paramFragments (names : RuntimeNames) : List Param → List ParamFragment
  | [] => []
  | p :: ps => p.fragment names :: paramFragments names ps

def optionParamFragment (names : RuntimeNames) : Option Param → Option ParamFragment
  | none => none
  | some p => some (p.fragment names)

/-- The printed parameters of a function. -/
def Params.fragment (names : RuntimeNames) : Params → ParamsFragment
  | .mk posOnly regular varArg defaults =>
    { posOnly := paramFragments names posOnly
      regular := paramFragments names regular
      varArg := optionParamFragment names varArg
      defaults := fragments names defaults }

end

/-- Prints an expression where nothing around it can bind to its parts. -/
def Expr.render (set : Settings) (e : Expr) (pass : Pass := {}) : Outcome :=
  perform set (e.fragment set.names).bare pass

theorem fragments_eq_map (names : RuntimeNames) (es : List Expr) :
    fragments names es = es.map (·.fragment names) := by
  induction es with
  | nil => simp [fragments]
  | cons e es ih => simp [fragments, ih]

theorem paramFragments_eq_map (names : RuntimeNames) (ps : List Param) :
    paramFragments names ps = ps.map (·.fragment names) := by
  induction ps with
  | nil => simp [paramFragments]
  | cons p ps ih => simp [paramFragments, ih]

theorem keywordFragments_eq_map (names : RuntimeNames) (ks : List Keyword) :
    keywordFragments names ks = ks.map (·.fragment names) := by
  induction ks with
  | nil => simp [keywordFragments]
  | cons k ks ih => simp [keywordFragments, ih]

/-- A lowered literal prints like the typed literal that it comes from. -/
theorem fragment_toExpr (names : RuntimeNames) (loc : Option Location) (form : LiteralForm) :
    (form.toExpr loc).fragment names = Fragment.literalForm loc form := by
  cases form with
  | constant value => simp [LiteralForm.toExpr, Expr.fragment, Fragment.literalForm]
  | construct callee member args =>
    cases member <;> simp [LiteralForm.toExpr, Expr.apply, Expr.reference, Expr.fragment,
      fragments_eq_map, keywordFragments_eq_map, Fragment.literalForm, Fragment.reference,
      Function.comp_def]
  | sequence items =>
    simp [LiteralForm.toExpr, Expr.fragment, fragments_eq_map, Fragment.literalForm,
      Function.comp_def]

/-- A lowered type test prints like the test that it comes from. -/
theorem fragment_testForm (names : RuntimeNames) (value : Expr) (loc : Option Location)
    (form : TestForm) :
    (form.toExpr names value loc).fragment names =
      Fragment.testForm names (value.fragment names) loc form := by
  cases form <;> simp [TestForm.toExpr, Expr.comparison, Expr.apply, Expr.noneValue, Expr.string,
    Expr.bool, Expr.fragment, fragments_eq_map, keywordFragments_eq_map, Fragment.testForm]

end CodePrinter
