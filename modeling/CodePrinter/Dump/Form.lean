import CodePrinter.Dump.Value

/-! The forms of nodes laid open as data: the fields of each kind, in order. A form is filled with
data that stays as it is. -/
namespace CodePrinter

/-- A field of a form. -/
structure Slot where
  key : String
  /-- What stands in the field when no value is given. -/
  fallback : Data

namespace Slot

def single (key : String) : Slot := { key, fallback := .missing }

/-- A list, empty when none is given. -/
def list (key : String) : Slot := { key, fallback := .array [] }

def loc : Slot := single "loc"

def fill (slot : Slot) : Data → String × Data
  | .missing => (slot.key, slot.fallback)
  | value => (slot.key, value)

/-- Slots filled by position; those past the last value get none. -/
def fillAll : List Slot → List Data → List (String × Data)
  | [], _ => []
  | slot :: slots, values => slot.fill (values.headD .missing) :: fillAll slots values.tail

/-- The slots of expressions and statements by kind. -/
def nodes : List (String × List Slot) :=
  [("name", [single "id", loc]), ("constant", [single "value", loc]),
    ("call", [single "func", list "args", list "keywords", loc]),
    ("attribute", [single "value", single "attr", loc]),
    ("subscript", [single "value", single "slice", loc]),
    ("binOp", [single "left", single "op", single "right", loc]),
    ("unaryOp", [single "op", single "operand", loc]),
    ("boolOp", [single "op", single "values", loc]),
    ("compare", [single "left", single "ops", single "comparators", loc]),
    ("ifExp", [single "test", single "body", single "orElse", loc]),
    ("lambda", [single "args", single "body", loc]), ("tuple", [single "elements", loc]),
    ("list", [single "elements", loc]), ("set", [single "elements", loc]),
    ("dict", [single "keys", single "values", loc]),
    ("namedExpr", [single "target", single "value", loc]), ("starred", [single "value", loc]),
    ("emit", [single "value", list "args", loc]),
    ("typedLiteral", [single "type", single "value", loc]),
    ("typeTest", [single "type", single "value", loc]),
    ("functionDef", [single "name", single "args", single "body", list "decoratorList",
      single "returns", loc]),
    ("classDef", [single "name", single "bases", single "body", list "decoratorList", loc]),
    ("if", [single "test", single "body", list "orElse", loc]),
    ("for", [single "target", single "iter", single "body", loc]),
    ("while", [single "test", single "body", loc]),
    ("try", [single "body", single "handlers", list "orElse", list "finalBody", loc]),
    ("import", [single "names", loc]), ("importFrom", [single "module", single "names", loc]),
    ("assign", [single "targets", single "value", loc]), ("return", [single "value", loc]),
    ("raise", [single "exception", loc]), ("expr", [single "value", loc]),
    ("global", [single "names"]), ("nonlocal", [single "names"])]

/-- The slots of types by kind. -/
def types : List (String × List Slot) :=
  [("number", [single "numberKind"]), ("extendedNumber", [single "numberKind"]),
    ("enum", [single "name", { key := "numberKind", fallback := .string NumberKind.int32.name }]),
    ("array", [single "element"]), ("list", [single "element"]), ("tuple", [single "elements"]),
    ("option", [single "inner"]), ("function", [single "args", single "returns"]),
    ("declared", [single "entity", list "genericArgs"])]

/-- The slots of the parts of nodes, which have no kind of their own. -/
def parts : List (String × List Slot) :=
  [("keyword", [single "arg", single "value"]), ("alias", [single "name", single "asName"]),
    ("arg", [single "arg", single "annotation"]),
    ("args", [list "posOnlyArgs", list "args", single "varArg", list "defaults"]),
    ("handler", [single "type", single "name", single "body", loc]),
    ("module", [single "body"])]

end Slot

/-- A node of a kind, filled by position. -/
def Data.node? (forms : List (String × List Slot)) (kind : String) (values : List Data) :
    Option Data :=
  (forms.lookup kind).map fun slots => .node kind (Slot.fillAll slots values)

/-- A part of a node, filled by position. -/
def Data.part? (name : String) (values : List Data) : Option Data :=
  (Slot.parts.lookup name).map fun slots => .object (Slot.fillAll slots values)

end CodePrinter
