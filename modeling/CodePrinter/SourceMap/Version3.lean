import CodePrinter.SourceMap.Package
import CodePrinter.SourceMap.Vlq
import CodePrinter.Text.Units

/-! Version 3 maps of one source, and the package that writes them. -/
namespace CodePrinter

namespace Mapping

def compareNames : Option String → Option String → Ordering
  | none, none => .eq
  | none, some _ => .lt
  | some _, none => .gt
  | some a, some b => Text.compareUnits a b

/-- The order of generated positions. -/
def compareGenerated (a b : Mapping) : Ordering :=
  (compare a.generated.line b.generated.line).then
    (compare a.generated.column b.generated.column)

/-- The order of mappings of one source: by generated position, then position of origin, then
name. -/
def order (a b : Mapping) : Ordering :=
  (compareGenerated a b).then <| (compare a.origin.line b.origin.line).then <|
    (compare a.origin.column b.origin.column).then (compareNames a.name b.name)

/-- The generated positions never go back. -/
def isOrdered : List Mapping → Bool
  | a :: b :: ms => (compareGenerated a b).isLE && isOrdered (b :: ms)
  | _ => true

/-- The mappings as a map lists them: as they were added if that was in order, else sorted. -/
def arranged (ms : List Mapping) : List Mapping :=
  if isOrdered ms then ms else ms.mergeSort fun a b => (order a b).isLE

/-- The names of mappings, each where it is first used. -/
def names (ms : List Mapping) : List String := (ms.filterMap (·.name)).eraseDups

end Mapping

/-- The fields that the next segment of a map is written relative to. -/
structure Cursor where
  line : Int := 1
  column : Int := 0
  originLine : Int := 0
  originColumn : Int := 0
  name : Int := 0
  deriving DecidableEq

namespace Cursor

/-- The place of a name, if a mapping has one. -/
def nameIndex? (names : List String) (m : Mapping) : Option Int :=
  m.name.map fun name => (names.idxOf name : Int)

/-- The cursor after a mapping. -/
def advance (names : List String) (c : Cursor) (m : Mapping) : Cursor :=
  { line := m.generated.line
    column := m.generated.column
    originLine := m.origin.line - 1
    originColumn := m.origin.column
    name := (nameIndex? names m).getD c.name }

/-- The cursor at the start of a later line. -/
def toLine (c : Cursor) (line : Int) : Cursor := { c with line, column := 0 }

/-- A mapping relative to a cursor on its line. The second field is the index of the source, which
never changes. -/
def segment (names : List String) (c : Cursor) (m : Mapping) : List Char :=
  Vlq.encode (m.generated.column - c.column) ++ Vlq.encode 0 ++
    Vlq.encode (m.origin.line - 1 - c.originLine) ++
    Vlq.encode (m.origin.column - c.originColumn) ++
    match nameIndex? names m with
    | some index => Vlq.encode (index - c.name)
    | none => []

end Cursor

/-- The segments of mappings. Semicolons lead to the line of a mapping, and a comma stands between
two on one line; a mapping equal to the one before it on its line is left out. -/
def encodeMappings (names : List String) :
    (previous : Option Mapping) → Cursor → List Mapping → List Char
  | _, _, [] => []
  | previous, c, m :: ms =>
    if m.generated.line ≠ c.line then
      List.replicate (m.generated.line - c.line).toNat ';' ++
        (c.toLine m.generated.line).segment names m ++
        encodeMappings names (some m) (c.advance names m) ms
    else if previous = some m then encodeMappings names (some m) c ms
    else (if previous.isSome then [','] else []) ++ c.segment names m ++
      encodeMappings names (some m) (c.advance names m) ms

/-- A map of one source, which is known from the first mapping on. -/
structure Version3 where
  file : String
  source : String := ""
  /-- The mappings that were accepted, in the order in which they were added. -/
  mappings : List Mapping := []

namespace Version3

def add (source : String) (m : Mapping) (map : Version3) : Version3 × Option Failure :=
  if m.fits source then ({ map with source, mappings := map.mappings ++ [m] }, none)
  else (map, some (.fault (.invalidMapping source m)))

def sources (map : Version3) : List String := if map.mappings.isEmpty then [] else [map.source]

def names (map : Version3) : List String := Mapping.names map.mappings

def encoded (map : Version3) : String :=
  String.ofList (encodeMappings map.names none {} (Mapping.arranged map.mappings))

def toJson (map : Version3) : Json :=
  .object [("version", .ofInt 3), ("sources", .array (map.sources.map .string)),
    ("names", .array (map.names.map .string)), ("mappings", .string map.encoded),
    ("file", .string map.file)]

def text (map : Version3) : String := map.toJson.compact

def package : MapPackage Version3 := { create := fun file => { file }, add, json := toJson, text }

end Version3

end CodePrinter
