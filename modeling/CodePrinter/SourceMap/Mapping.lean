import CodePrinter.Location

/-! Mappings from places in printed text to places in the program it was made from. -/
namespace CodePrinter

structure Mapping where
  generated : Position
  origin : Position
  name : Option String
  deriving DecidableEq

/-- What becomes of the mappings of a pass. -/
inductive MapPolicy where
  | discard
  | keep
  /-- Only what a version 3 map of the named source can hold is kept; else the pass stops. -/
  | checked (source : String)
  deriving DecidableEq

namespace Mapping

/-- A version 3 map holds a mapping of a named source with both positions in range. -/
def fits (source : String) (m : Mapping) : Bool :=
  0 < m.generated.line && 0 ≤ m.generated.column && 0 < m.origin.line &&
    0 ≤ m.origin.column && source ≠ ""

end Mapping

def Position.toJson (p : Position) : Json :=
  .object [("line", .ofInt p.line), ("column", .ofInt p.column)]

/-- A mapping as JSON, for messages. -/
def Mapping.toJson (source : String) (m : Mapping) : Json :=
  .record [("generated", some m.generated.toJson), ("source", some (.string source)),
    ("original", some m.origin.toJson), ("name", m.name.map .string)]

end CodePrinter
