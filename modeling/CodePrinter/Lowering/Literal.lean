import CodePrinter.Problem
import CodePrinter.Settings
import CodePrinter.Syntax.Expr
import CodePrinter.Text.Blank

/-! Typed literals as plain expressions. -/
namespace CodePrinter

/-- What a typed literal becomes. -/
inductive LiteralForm where
  | constant (value : Constant)
  /-- A call of a helper, or of a member of it. -/
  | construct (callee : String) (member : Option String) (args : List Constant)
  | sequence (items : List Constant)

namespace LiteralForm

def toExpr (loc : Option Location) : LiteralForm → Expr
  | .constant value => .constant value loc
  | .construct callee member args =>
    .apply (.reference callee member) (args.map fun c => .constant c) loc
  | .sequence items => .list (items.map fun c => .constant c) loc

/-- The lower and the upper 32 bits of the two's complement pattern of an integer. -/
def limbs (n : Int) : Nat × Nat :=
  let bits := (n % 0x10000000000000000).toNat
  (bits % 0x100000000, bits / 0x100000000)

/-- A 64-bit integer, built from its two halves. -/
def long (names : RuntimeNames) (n : Int) (unsigned : Bool) : LiteralForm :=
  let (low, high) := limbs n
  .construct names.long (some names.longFromBits)
    [.number (.ofInt low) .float64, .number (.ofInt high) .float64, .bool unsigned]

/-- A number that is rounded to single precision at run time. -/
def single (names : RuntimeNames) (x : Double) : LiteralForm :=
  .construct names.fround none [.number x .float32]

end LiteralForm

namespace NumberKind

/-- An integer kind holds the integers within its bounds. -/
def holds (kind : NumberKind) (x : Double) : Bool :=
  match kind.bounds?, x.toInt? with
  | some (least, greatest), some n => least ≤ n && n ≤ greatest
  | _, _ => false

end NumberKind

namespace LiteralValue

/-- The integer that a value stands for: an unbounded one, or a number that is a safe integer. -/
def toInt? : LiteralValue → Option Int
  | .bigint n => some n
  | .number x => x.toSafeInt?
  | _ => none

/-- The number that a decimal is printed as; digits beyond a double are lost. -/
def toDecimal? : LiteralValue → Option Double
  | .number x => some x
  | .string s => Double.ofNumeral? (Text.trim s.toList)
  | _ => none

end LiteralValue

namespace ExtendedKind

/-- The bounds of a 64-bit kind. -/
def bounds? : ExtendedKind → Option (Int × Int)
  | .int64 => some (-0x8000000000000000, 0x7FFFFFFFFFFFFFFF)
  | .uint64 => some (0, 0xFFFFFFFFFFFFFFFF)
  | .decimal => none
  | .bigint => none

/-- A 64-bit kind holds the integers within its bounds. -/
def holds (kind : ExtendedKind) (n : Int) : Bool :=
  match kind.bounds? with
  | some (least, greatest) => least ≤ n && n ≤ greatest
  | none => false

/-- A literal of an extended kind, if the value is one of that kind. -/
def literal? (names : RuntimeNames) (value : LiteralValue) : ExtendedKind → Option LiteralForm
  | .int64 => (value.toInt?.filter int64.holds).map fun n => LiteralForm.long names n false
  | .uint64 => (value.toInt?.filter uint64.holds).map fun n => LiteralForm.long names n true
  | .decimal => value.toDecimal?.map fun x => .constant (.number x .float64)
  | .bigint => none

end ExtendedKind

/-- The form of a literal of a type, if the value is one of that type. -/
def SemanticType.literal? (names : RuntimeNames) : SemanticType → LiteralValue → Option LiteralForm
  | .extended kind, value => kind.literal? names value
  | .number .float32, .number x => some (LiteralForm.single names x)
  | .number .float64, .number x => some (.constant (.number x .float64))
  | .number kind, .number x => if kind.holds x then some (.constant (.number x kind)) else none
  | .boolean, .boolean b => some (.constant (.bool b))
  | .string, .string s => some (.constant (.string s))
  | .char, .string s => if s.toList.length = 1 then some (.constant (.string s)) else none
  | .enum name kind, .number x =>
    if x.toInt?.isSome then some (.construct name none [.number x kind]) else none
  | .unit, _ => some (.constant .none)
  | .array (.number kind), .buffer _ values =>
    some (.sequence (values.map fun n => .number (.ofInt n) kind))
  | _, _ => none

/-- What is wrong with a literal that has no form. -/
def SemanticType.literalProblem : SemanticType → LiteralValue → Problem
  | .enum _ _, .bigint _ => .wideEnum
  | type, value => .mismatch type value

/-- A lowered literal: its form, or a placeholder and what is wrong. -/
def SemanticType.lowerLiteral (names : RuntimeNames) (type : SemanticType) (value : LiteralValue) :
    LiteralForm × Option Problem :=
  match type.literal? names value with
  | some form => (form, none)
  | none => (.constant .none, some (type.literalProblem value))

/-- The expression of a literal and the diagnostics after making it. -/
def SemanticType.makeLiteral (set : Settings) (type : SemanticType) (value : LiteralValue)
    (loc : Option Location) (ds : List Diagnostic) : Except CompileError (Expr × List Diagnostic) :=
  match type.lowerLiteral set.names value with
  | (form, none) => .ok (form.toExpr loc, ds)
  | (form, some problem) =>
    (problem.report set.policy set.fileName loc ds).map fun ds => (form.toExpr loc, ds)

end CodePrinter
