import CodePrinter.Fault

/-! Constants and their Python spelling. -/
namespace CodePrinter

/-- The kind of a number decides whether it is written as an integer or as a float. -/
inductive NumberKind where
  | int8
  | uint8
  | int16
  | uint16
  | int32
  | uint32
  | float32
  | float64
  deriving DecidableEq

namespace NumberKind

def name : NumberKind → String
  | .int8 => "int8"
  | .uint8 => "uint8"
  | .int16 => "int16"
  | .uint16 => "uint16"
  | .int32 => "int32"
  | .uint32 => "uint32"
  | .float32 => "float32"
  | .float64 => "float64"

def all : List NumberKind :=
  [.int8, .uint8, .int16, .uint16, .int32, .uint32, .float32, .float64]

def ofName? (name : String) : Option NumberKind := all.find? (·.name = name)

/-- The least and the greatest number of an integer kind. -/
def bounds? : NumberKind → Option (Int × Int)
  | .int8 => some (-0x80, 0x7F)
  | .uint8 => some (0, 0xFF)
  | .int16 => some (-0x8000, 0x7FFF)
  | .uint16 => some (0, 0xFFFF)
  | .int32 => some (-0x80000000, 0x7FFFFFFF)
  | .uint32 => some (0, 0xFFFFFFFF)
  | .float32 => none
  | .float64 => none

def isFloat (kind : NumberKind) : Bool := kind.bounds?.isNone

end NumberKind

inductive Constant where
  | bool (value : Bool)
  | string (value : String)
  | number (value : Double) (kind : NumberKind)
  | none
  | unknown (node : Data)

/-- A Python float literal, with a sign if the number has one, or a call of `float` for a number
that has no literal. -/
def Double.floatText : Double → String
  | .nan => "float(\"nan\")"
  | .infinite negative => if negative then "float(\"-inf\")" else "float(\"inf\")"
  | .finite negative significand scale canonical =>
    if negative && significand = 0 then "-0.0"
    else
      let text := (Double.finite negative significand scale canonical).numeral
      if text.toList.any (fun c => c = '.' || c = 'e') then text else text ++ ".0"

namespace Constant

/-- The spelling of a number of a given kind. -/
def numberText (value : Double) (kind : NumberKind) : String :=
  if kind.isFloat then value.floatText else value.numeral

def text : Constant → Except Fault String
  | .bool value => .ok (if value then "True" else "False")
  | .string value => .ok ("\"" ++ Text.escape value ++ "\"")
  | .number value kind => .ok (numberText value kind)
  | .none => .ok "None"
  | .unknown node => .error (.ofNode .unknownConstant node)

/-- A negative number would bind wrongly as an operand, as in `-1 ** 2`. -/
def isNegativeNumber : Constant → Bool
  | .number value _ => value.isNegative
  | _ => false

def isNumber : Constant → Bool
  | .number _ _ => true
  | _ => false

end Constant

end CodePrinter
