import CodePrinter.Dump.Value
import CodePrinter.Failure
import CodePrinter.Lowering.Names

/-! Diagnostics, notes, mappings and names laid open as data, for inspection. -/
namespace CodePrinter

def Diagnostic.dump (d : Diagnostic) : Data :=
  .object [("severity", .string d.severity.label), ("code", .string d.code),
    ("message", .string d.message), ("loc", .ofOption (d.loc.map Location.toData)),
    ("fileName", .ofText? d.fileName)]

def Note.dump (note : Note) : Data :=
  .object [("message", .string note.message), ("loc", .ofOption (note.loc.map Location.toData))]

/-- A mapping without a name has the null name. -/
def Mapping.dump (m : Mapping) : Data :=
  .object [("generated", m.generated.toData), ("original", m.origin.toData),
    ("name", (m.name.map Data.string).getD .null)]

def RuntimeNames.dump (names : RuntimeNames) : Data :=
  .object [("long", .string names.long), ("longFromBits", .string names.longFromBits),
    ("fround", .string names.fround), ("typeOf", .string names.typeOf),
    ("isArray", .string names.isArray), ("regex", .string names.regex),
    ("decimal", .string names.decimal), ("bigInt", .string names.bigInt)]

end CodePrinter
