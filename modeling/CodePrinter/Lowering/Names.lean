/-! Names of the helpers that printed programs call at run time. -/
namespace CodePrinter

structure RuntimeNames where
  /-- The class of 64-bit integers. -/
  long : String := "Long"
  /-- The constructor of that class from two halves and a sign flag. -/
  longFromBits : String := "from_bits"
  /-- Rounds a number to single precision. -/
  fround : String := "fround"
  /-- Names the primitive type of a value. -/
  typeOf : String := "type_of"
  /-- Tells whether a value is a sequence. -/
  isArray : String := "is_array"
  regex : String := "RegExp"
  decimal : String := "Decimal"
  bigInt : String := "BigInt"
  deriving DecidableEq

/-- The standard names, but for those that are given by the name of their field. -/
def RuntimeNames.ofLookup (given : String → Option String) : RuntimeNames :=
  let standard : RuntimeNames := {}
  { long := (given "long").getD standard.long
    longFromBits := (given "longFromBits").getD standard.longFromBits
    fround := (given "fround").getD standard.fround
    typeOf := (given "typeOf").getD standard.typeOf
    isArray := (given "isArray").getD standard.isArray
    regex := (given "regex").getD standard.regex
    decimal := (given "decimal").getD standard.decimal
    bigInt := (given "bigInt").getD standard.bigInt }

end CodePrinter
