import CodePrinter.Double.Basic

/-! Decimal numerals and the doubles nearest to them. -/
namespace CodePrinter

/-- The number `±digits * 10 ^ exponent`. -/
structure Decimal where
  negative : Bool
  digits : Nat
  exponent : Int
  deriving DecidableEq

namespace Decimal

/-- The double nearest to a decimal. -/
def toDouble (d : Decimal) : Double :=
  Double.nearest d.negative (d.digits * Double.unitsPerOne * Nat.pow 10 d.exponent.toNat)
    (Nat.pow 10 (-d.exponent).toNat)

/-- A decimal with the same nearest double and an exponent in proportion to its digits: what is
beyond the largest double stays there, and what is far below the least one becomes zero. -/
def bounded (d : Decimal) : Decimal :=
  if d.digits = 0 then { d with exponent := 0 }
  else if 400 < d.exponent then { d with exponent := 400 }
  else if d.exponent + d.digits.log2 < -400 then { d with digits := 0, exponent := 0 }
  else d

def isDigit (c : Char) : Bool := '0' ≤ c && c ≤ '9'

def digitValue (c : Char) : Nat := c.toNat - 0x30

/-- The number that a run of digits denotes, after the digits already read. -/
def digitsFrom (value : Nat) (cs : List Char) : Nat :=
  cs.foldl (fun n c => n * 10 + digitValue c) value

/-- The number that a run of digits denotes. -/
def ofDigits (cs : List Char) : Nat := digitsFrom 0 cs

/-- An optional sign, and whether it was a minus. -/
def readSign : List Char → Bool × List Char
  | '-' :: cs => (true, cs)
  | '+' :: cs => (false, cs)
  | cs => (false, cs)

/-- The exponent part of a numeral, up to the end of the text; nothing counts as zero. -/
def readExponent? : List Char → Option Int
  | [] => some 0
  | e :: cs =>
    if e = 'e' || e = 'E' then
      let (negative, ds) := readSign cs
      if ds.isEmpty || !ds.all isDigit then none
      else some (if negative then -(ofDigits ds : Int) else ofDigits ds)
    else none

/-- The digits after the point, where there is one, and what follows. -/
def readFraction : List Char → List Char × List Char
  | '.' :: cs => (cs.takeWhile isDigit, cs.dropWhile isDigit)
  | cs => ([], cs)

/-- The decimal that a numeral denotes: an optional sign, digits with at most one point among or
around them, and an optional exponent. -/
def read? (cs : List Char) : Option Decimal :=
  let (negative, unsigned) := readSign cs
  let whole := unsigned.takeWhile isDigit
  let (fraction, rest) := readFraction (unsigned.dropWhile isDigit)
  if whole.isEmpty && fraction.isEmpty then none
  else (readExponent? rest).map fun exponent =>
    { negative, digits := digitsFrom (ofDigits whole) fraction
      exponent := exponent - fraction.length }

end Decimal

/-- The double nearest to the number that a numeral denotes. -/
def Double.ofNumeral? (cs : List Char) : Option Double :=
  (Decimal.read? cs).map fun d => d.bounded.toDouble

/-- The double that a text denotes: a numeral, or the name of a number that has none. -/
def Double.ofText? (text : String) : Option Double :=
  if text = "NaN" then some .nan
  else if text = "Infinity" then some (.infinite false)
  else if text = "-Infinity" then some (.infinite true)
  else ofNumeral? text.toList

end CodePrinter
