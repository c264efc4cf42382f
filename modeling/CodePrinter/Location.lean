import CodePrinter.Data

/-! Places in the program that a tree was made from. -/
namespace CodePrinter

/-- Lines count from 1, columns from 0. -/
structure Position where
  line : Int
  column : Int
  deriving DecidableEq

/-- The place of a node, and the identifier that stands there if it is one. -/
structure Location where
  start : Position
  stop : Position
  identifier : Option String := none
  deriving DecidableEq

/-- A place on one line, empty unless it is given an end. -/
def Location.span (line column : Int) (endColumn : Option Int := none)
    (identifier : Option String := none) : Location :=
  { start := { line, column }
    stop := { line, column := endColumn.getD column }
    identifier }

def Position.toData (p : Position) : Data :=
  .object [("line", .ofInt p.line), ("column", .ofInt p.column)]

def Location.toData (loc : Location) : Data :=
  .object [("start", loc.start.toData), ("end", loc.stop.toData),
    ("identifierName", .ofText? loc.identifier)]

end CodePrinter
