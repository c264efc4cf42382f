import CodePrinter.Problem
import CodePrinter.Settings
import CodePrinter.Syntax.Expr

/-! Type tests as plain expressions. -/
namespace CodePrinter

/-- How a value is tested for a type at run time. -/
inductive TestForm where
  | always
  | isNone
  | primitive (name : String)
  | instance (className : String)
  | sequence
  | impossible

def TestForm.toExpr (names : RuntimeNames) (value : Expr) (loc : Option Location) :
    TestForm → Expr
  | .always => .bool true loc
  | .isNone => .comparison value .noneValue .eq loc
  | .primitive name =>
    .comparison (.apply (.name names.typeOf) [value]) (.string name) .eq loc
  | .instance className => .apply (.name "isinstance") [value, .name className] loc
  | .sequence => .apply (.name names.isArray) [value] loc
  | .impossible => .noneValue loc

/-- The class of the boxed numbers of an extended kind. -/
def ExtendedKind.className (names : RuntimeNames) : ExtendedKind → String
  | .int64 => names.long
  | .uint64 => names.long
  | .decimal => names.decimal
  | .bigint => names.bigInt

def SemanticType.testForm (names : RuntimeNames) : SemanticType → TestForm
  | .any => .always
  | .unit => .isNone
  | .boolean => .primitive "boolean"
  | .char => .primitive "string"
  | .string => .primitive "string"
  | .regex => .instance names.regex
  | .number _ => .primitive "number"
  | .enum _ _ => .primitive "number"
  | .extended kind => .instance (kind.className names)
  | .function _ _ => .primitive "function"
  | .array _ => .sequence
  | .tuple _ => .sequence
  | .list _ => .sequence
  | .declared _ _ => .impossible
  | .option _ => .impossible
  | .genericParam _ => .impossible
  | .erasedUnion _ => .impossible

/-- What is wrong with testing a type, if anything. -/
def SemanticType.testProblem? (names : RuntimeNames) (type : SemanticType) : Option Problem :=
  match type.testForm names with
  | .impossible => some (.untestable type)
  | _ => none

/-- The expression that tests a value for a type, and the diagnostics after making it. -/
def SemanticType.makeTest (set : Settings) (type : SemanticType) (value : Expr)
    (loc : Option Location) (ds : List Diagnostic) : Except CompileError (Expr × List Diagnostic) :=
  let test := (type.testForm set.names).toExpr set.names value loc
  match type.testProblem? set.names with
  | none => .ok (test, ds)
  | some problem => (problem.report set.policy set.fileName loc ds).map fun ds => (test, ds)

end CodePrinter
