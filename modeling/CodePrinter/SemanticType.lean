import CodePrinter.Constant

/-! Types of the program that a tree was made from, and the values of its literals. -/
namespace CodePrinter

/-- Numbers that the target has no plain constant for. -/
inductive ExtendedKind where
  | int64
  | uint64
  | decimal
  | bigint
  deriving DecidableEq

def ExtendedKind.name : ExtendedKind → String
  | .int64 => "int64"
  | .uint64 => "uint64"
  | .decimal => "decimal"
  | .bigint => "bigint"

def ExtendedKind.all : List ExtendedKind := [.int64, .uint64, .decimal, .bigint]

def ExtendedKind.ofName? (name : String) : Option ExtendedKind := all.find? (·.name = name)

inductive SemanticType where
  | any
  | unit
  | boolean
  | char
  | string
  | regex
  | number (kind : NumberKind)
  | extended (kind : ExtendedKind)
  | enum (name : String) (kind : NumberKind := .int32)
  | function (args : List SemanticType) (returns : SemanticType)
  | array (element : SemanticType)
  | tuple (elements : List SemanticType)
  | list (element : SemanticType)
  | option (inner : SemanticType)
  | genericParam (name : String)
  | erasedUnion (alternatives : List SemanticType)
  | declared (entity : String) (genericArgs : List SemanticType)

namespace SemanticType

mutual

/-- The text of a type in messages. -/
def format : SemanticType → String
  | .any => "any"
  | .unit => "unit"
  | .boolean => "boolean"
  | .char => "char"
  | .string => "string"
  | .regex => "regex"
  | .number kind => kind.name
  | .extended kind => kind.name
  | .enum name _ => "enum " ++ name
  | .function args returns => "(" ++ ", ".intercalate (formatAll args) ++ ") -> " ++ returns.format
  | .array element => element.format ++ "[]"
  | .tuple elements => "(" ++ " * ".intercalate (formatAll elements) ++ ")"
  | .list element => "list<" ++ element.format ++ ">"
  | .option inner => inner.format ++ " option"
  | .genericParam name => "'" ++ name
  | .erasedUnion alternatives => " | ".intercalate (formatAll alternatives)
  | .declared entity genericArgs =>
    if genericArgs.isEmpty then entity
    else entity ++ "<" ++ ", ".intercalate (formatAll genericArgs) ++ ">"

def formatAll : List SemanticType → List String
  | [] => []
  | type :: types => type.format :: formatAll types

end

/-- The types that are told by their name alone. -/
def atoms : List SemanticType := [.any, .unit, .boolean, .char, .string, .regex]

def ofName? (name : String) : Option SemanticType := atoms.find? (·.format = name)

end SemanticType

/-- The value of a literal, before it is turned into an expression. -/
inductive LiteralValue where
  | null
  | missing
  | boolean (value : Bool)
  | string (value : String)
  | number (value : Double)
  | bigint (value : Int)
  | buffer (kind : BufferKind) (values : List Int)

/-- The text of a literal value in messages. -/
def LiteralValue.describe : LiteralValue → String
  | .null => "null"
  | .missing => "undefined"
  | .boolean value => if value then "true" else "false"
  | .string value => Json.quote value
  | .number value => value.numeral
  | .bigint value => toString value ++ "n"
  | .buffer kind values => kind.name ++ "(" ++ toString values.length ++ ")"

end CodePrinter
