import CodePrinter.Failure
import CodePrinter.SemanticType

/-! What can be wrong with a tree. -/
namespace CodePrinter

inductive Problem where
  /-- A type that no run-time test exists for. -/
  | untestable (type : SemanticType)
  /-- A literal value that its type does not have. -/
  | mismatch (type : SemanticType) (value : LiteralValue)
  /-- An enumeration over 64-bit numbers. -/
  | wideEnum
  /-- A construct that cannot be printed. -/
  | unimplemented (construct : String)

namespace Problem

def untestableCode : String := "PY001"

def mismatchCode : String := "PY002"

def unimplementedCode : String := "PY003"

def code : Problem → String
  | .untestable _ => untestableCode
  | .mismatch _ _ => mismatchCode
  | .wideEnum => mismatchCode
  | .unimplemented _ => unimplementedCode

def message : Problem → String
  | .untestable (.declared entity genericArgs) =>
    "Cannot type test declared type " ++ (SemanticType.declared entity genericArgs).format ++
      ": records, unions, interfaces and classes have no runtime test"
  | .untestable type =>
    "Cannot type test " ++ type.format ++
      ": options, generic parameters and erased unions have no runtime test"
  | .mismatch type value => "Unexpected type " ++ type.format ++ ", literal " ++ value.describe
  | .wideEnum => "int64 enums are not supported"
  | .unimplemented construct => construct ++ " is not supported yet"

def stage : Problem → Stage
  | .unimplemented _ => .print
  | _ => .builder

/-- A missing run-time test is reported and never stops a pass. -/
def isFatal : Problem → Bool
  | .untestable _ => false
  | _ => true

/-- Reports a problem at a place, under a policy. -/
def report (policy : FailurePolicy) (fileName : Option String) (p : Problem)
    (loc : Option Location) (ds : List Diagnostic) : Except CompileError (List Diagnostic) :=
  (if p.isFatal then policy else .recover).report p.stage p.code p.message loc fileName ds

end Problem

end CodePrinter
