import CodePrinter.SemanticType

/-! Constants, types and literal values laid open as data, for inspection. -/
namespace CodePrinter

def Constant.dump : Constant → Data
  | .bool value => .object [("type", .string "bool"), ("value", .bool value)]
  | .string value => .object [("type", .string "string"), ("value", .string value)]
  | .number value kind =>
    .object [("type", .string "number"), ("value", .number value),
      ("numberKind", .string kind.name)]
  | .none => .object [("type", .string "none")]
  | .unknown node => node

/-- A node with its kind as the first field. -/
def Data.node (kind : String) (fields : List (String × Data)) : Data :=
  .object (("kind", .string kind) :: fields)

namespace SemanticType

mutual

def dump : SemanticType → Data
  | .any => .node "any" []
  | .unit => .node "unit" []
  | .boolean => .node "boolean" []
  | .char => .node "char" []
  | .string => .node "string" []
  | .regex => .node "regex" []
  | .number kind => .node "number" [("numberKind", .string kind.name)]
  | .extended kind => .node "extendedNumber" [("numberKind", .string kind.name)]
  | .enum name kind => .node "enum" [("name", .string name), ("numberKind", .string kind.name)]
  | .function args returns =>
    .node "function" [("args", .array (dumpAll args)), ("returns", returns.dump)]
  | .array element => .node "array" [("element", element.dump)]
  | .tuple elements => .node "tuple" [("elements", .array (dumpAll elements))]
  | .list element => .node "list" [("element", element.dump)]
  | .option inner => .node "option" [("inner", inner.dump)]
  | .genericParam name => .node "genericParam" [("name", .string name)]
  | .erasedUnion alternatives =>
    .node "erasedUnion" [("alternatives", .array (dumpAll alternatives))]
  | .declared entity genericArgs =>
    .node "declared" [("entity", .string entity), ("genericArgs", .array (dumpAll genericArgs))]

def dumpAll : List SemanticType → List Data
  | [] => []
  | type :: types => type.dump :: dumpAll types

end

end SemanticType

def LiteralValue.dump : LiteralValue → Data
  | .null => .null
  | .missing => .missing
  | .boolean value => .bool value
  | .string value => .string value
  | .number value => .number value
  | .bigint value => .bigint value
  | .buffer kind values => .buffer kind values

end CodePrinter
