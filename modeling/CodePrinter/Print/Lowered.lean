import CodePrinter.Lowering.Literal
import CodePrinter.Lowering.Test
import CodePrinter.Print.Fragment

/-! Printed typed literals and type tests, in the forms that they are lowered to. -/
namespace CodePrinter.Fragment

def ofProblem (loc : Option Location) : Option Problem → List Instr
  | none => []
  | some what => [.problem what loc]

def reference (module : String) : (member : Option String) → Fragment
  | none => name module none
  | some member => attr (name module none) member none

def literalForm (loc : Option Location) : LiteralForm → Fragment
  | .constant value => constant value loc
  | .construct callee member args =>
    call (reference callee member) (args.map fun c => constant c none) [] loc
  | .sequence items => list (items.map fun c => constant c none) loc

def typedLiteral (names : RuntimeNames) (type : SemanticType) (value : LiteralValue)
    (loc : Option Location) : Fragment :=
  let (form, problem) := type.lowerLiteral names value
  { literalForm loc form with issues := ofProblem loc problem }

def testForm (names : RuntimeNames) (value : Fragment) (loc : Option Location) :
    TestForm → Fragment
  | .always => constant (.bool true) loc
  | .isNone => compare value [.eq] [constant .none none] loc
  | .primitive primitive =>
    compare (call (name names.typeOf none) [value] [] none) [.eq]
      [constant (.string primitive) none] loc
  | .instance className =>
    call (name "isinstance" none) [value, name className none] [] loc
  | .sequence => call (name names.isArray none) [value] [] loc
  | .impossible => constant .none loc

def typeTest (names : RuntimeNames) (type : SemanticType) (value : Fragment)
    (loc : Option Location) : Fragment :=
  { testForm names value loc (type.testForm names) with
    issues := ofProblem loc (type.testProblem? names) }

end CodePrinter.Fragment
