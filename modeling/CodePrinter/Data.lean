import CodePrinter.Json

/-! Data of no fixed shape: what a node of no known kind holds, and trees laid open for
inspection. -/
namespace CodePrinter

/-- The element type of a raw buffer of small integers. -/
inductive BufferKind where
  | uint8
  | int8
  | uint16
  | int16
  deriving DecidableEq

def BufferKind.name : BufferKind → String
  | .uint8 => "Uint8Array"
  | .int8 => "Int8Array"
  | .uint16 => "Uint16Array"
  | .int16 => "Int16Array"

def BufferKind.all : List BufferKind := [.uint8, .int8, .uint16, .int16]

def BufferKind.ofName? (name : String) : Option BufferKind := all.find? (·.name = name)

/-- A value as a node can hold it. It has more kinds than JSON; the fields of an object are in the
order in which they were added. -/
inductive Data where
  | null
  /-- The value of a field that is not there. -/
  | missing
  | bool (value : Bool)
  | number (value : Double)
  | bigint (value : Int)
  | string (value : String)
  | buffer (kind : BufferKind) (values : List Int)
  | array (items : List Data)
  | object (fields : List (String × Data))
  deriving Inhabited

namespace Data

def ofInt (n : Int) : Data := .number (Double.ofInt n)

def ofOption : Option Data → Data
  | none => .missing
  | some value => value

/-- A value, unless it is missing. -/
def toOption : Data → Option Data
  | .missing => none
  | value => some value

/-- An optional text. -/
def ofText? (text : Option String) : Data := ofOption (text.map .string)

def ofTexts (texts : List String) : Data := .array (texts.map .string)

mutual

/-- Every JSON value is data. -/
def ofJson : Json → Data
  | .null => .null
  | .bool value => .bool value
  | .number value => .number value
  | .string value => .string value
  | .array items => .array (ofItems items)
  | .object fields => .object (ofFields fields)

def ofItems : List Json → List Data
  | [] => []
  | item :: items => ofJson item :: ofItems items

def ofFields : List (String × Json) → List (String × Data)
  | [] => []
  | (key, value) :: fields => (key, ofJson value) :: ofFields fields

end

/-- The value of a field, if it is there. -/
def field? (key : String) : Data → Option Data
  | .object fields => (fields.lookup key).bind toOption
  | _ => none

/-- Fields with one of them set: in its place if it is there, else at the end. -/
def setField (key : String) (value : Data) : List (String × Data) → List (String × Data)
  | [] => [(key, value)]
  | (k, v) :: fields =>
    if k = key then (k, value) :: fields else (k, v) :: setField key value fields

/-- An object with one field set. -/
def withField (data : Data) (key : String) (value : Data) : Data :=
  match data with
  | .object fields => .object (setField key value fields)
  | other => other

/-- The index that a key denotes: a numeral below `2 ^ 32 - 1` without leading zeros. -/
def index? (key : String) : Option Nat :=
  let digits := key.toList
  let index := Decimal.ofDigits digits
  if digits.all Decimal.isDigit && Nat.toDigits 10 index = digits && index < 0xFFFFFFFF then
    some index
  else none

/-- The fields as they are written: those whose keys are indices come first, in numeric order. -/
def writtenOrder (fields : List (String × Json)) : List (String × Json) :=
  (fields.filter fun f => (index? f.1).isSome).mergeSort
      (fun a b => (index? a.1).getD 0 ≤ (index? b.1).getD 0) ++
    fields.filter fun f => (index? f.1).isNone

mutual

/-- The JSON form of a value. A missing field is left out, a missing item is null, and a buffer is
an object from its indices. An unbounded integer has no JSON form. -/
def toJson? : Data → Option Json
  | .null => some .null
  | .missing => some .null
  | .bool value => some (.bool value)
  | .number value => some (.number value)
  | .bigint _ => none
  | .string value => some (.string value)
  | .buffer _ values => some (.object (values.mapIdx fun i n => (toString i, .ofInt n)))
  | .array items => (itemsJson? items).map .array
  | .object fields => (fieldsJson? fields).map fun fields => .object (writtenOrder fields)

def itemsJson? : List Data → Option (List Json)
  | [] => some []
  | item :: items =>
    match item.toJson?, itemsJson? items with
    | some json, some rest => some (json :: rest)
    | _, _ => none

def fieldsJson? : List (String × Data) → Option (List (String × Json))
  | [] => some []
  | (_, .missing) :: fields => fieldsJson? fields
  | (key, value) :: fields =>
    match value.toJson?, fieldsJson? fields with
    | some json, some rest => some ((key, json) :: rest)
    | _, _ => none

end

end Data

end CodePrinter
