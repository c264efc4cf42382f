import CodePrinter.Double.Decimal

/-! The shortest decimal that reads back as a given double, and its written form. -/
namespace CodePrinter

namespace Double

/-- A number of decimal places that holds every finite double exactly. -/
def places : Nat := 1074

/-- The magnitude of a double in units of `10 ^ -places`. -/
def scaledUp (significand scale : Nat) : Nat := significand * Nat.pow 2 scale * Nat.pow 5 places

/-- The least number of digits, from `count` on, that is enough for `n`. -/
def lengthFrom (n : Nat) : (fuel count : Nat) → Nat
  | 0, count => count
  | fuel + 1, count => if n < Nat.pow 10 count then count else lengthFrom n fuel (count + 1)

/-- The number of decimal digits of a positive number. Since `10 ^ 1233 < 2 ^ 4096`, the search
begins with too few digits. -/
def decimalLength (n : Nat) : Nat := lengthFrom n (n.log2 + 1) (n.log2 * 1233 / 4096)

/-- A decimal reads back as the double of a significand and a scale. -/
def readsAs (significand scale digits : Nat) (exponent : Int) : Bool :=
  nearestParts (digits * unitsPerOne * Nat.pow 10 exponent.toNat)
    (Nat.pow 10 (-exponent).toNat) = (significand, scale)

/-- Of a number and the next one, the one that reads back; of two the nearer one, and of two at the
same distance the even one. The exact value lies `rest` parts of `whole` above the first. -/
def nearerOf (below rest whole : Nat) : (belowReads aboveReads : Bool) → Option Nat
  | false, false => none
  | true, false => some below
  | false, true => some (below + 1)
  | true, true =>
    if 2 * rest < whole then some below
    else if whole < 2 * rest then some (below + 1)
    else some (below + below % 2)

/-- The neighbour of a double that reads back as it, on the grid that `dropped` places of its exact
decimal leave. -/
def neighbour? (significand scale dropped : Nat) : Option (Nat × Int) :=
  let exact := scaledUp significand scale
  let exponent : Int := dropped - places
  let below := exact / Nat.pow 10 dropped
  let digits? := nearerOf below (exact % Nat.pow 10 dropped) (Nat.pow 10 dropped)
    (readsAs significand scale below exponent) (readsAs significand scale (below + 1) exponent)
  digits?.map fun digits => (digits, exponent)

/-- The digits and the exponent of the shortest decimal that reads back as a double. Seventeen
digits are enough. -/
def shortest (significand scale : Nat) : Nat × Int :=
  let length := decimalLength (scaledUp significand scale)
  ((List.range' 1 17).findSome? fun count => neighbour? significand scale (length - count)).getD
    (scaledUp significand scale, -places)

end Double

/-- Where the point of a numeral stands decides its form. -/
structure NumeralForm where
  /-- With more digits than this before the point, an exponent is written. -/
  wholeLimit : Int
  /-- With this many zeros or more between the point and the first digit, an exponent is written. -/
  zeroLimit : Int

/-- Numbers from `10 ^ -6` up to `10 ^ 21` are written without an exponent. -/
def Double.numeralForm : NumeralForm := { wholeLimit := 21, zeroLimit := 6 }

/-- The written form of `0.digits * 10 ^ point`. -/
def NumeralForm.write (form : NumeralForm) (digits : List Char) (point : Int) : List Char :=
  if digits.length ≤ point && point ≤ form.wholeLimit then
    digits ++ List.replicate (point - digits.length).toNat '0'
  else if 0 < point && point ≤ form.wholeLimit then
    digits.take point.toNat ++ '.' :: digits.drop point.toNat
  else if -form.zeroLimit < point && point ≤ 0 then
    '0' :: '.' :: List.replicate (-point).toNat '0' ++ digits
  else
    let fraction := if digits.length ≤ 1 then [] else '.' :: digits.drop 1
    let sign := if point - 1 < 0 then '-' else '+'
    digits.take 1 ++ fraction ++ 'e' :: sign :: Nat.toDigits 10 (point - 1).natAbs

namespace Double

/-- The digits without the zeros they end with. -/
def dropZeros (digits : List Char) : List Char := (digits.reverse.dropWhile (· = '0')).reverse

/-- The numeral of a positive magnitude. -/
def magnitudeChars (significand scale : Nat) : List Char :=
  let decimal := shortest significand scale
  let chars := Nat.toDigits 10 decimal.1
  numeralForm.write (dropZeros chars) (chars.length + decimal.2)

/-- The shortest numeral of a double; the sign of a zero is not written. -/
def numeral : Double → String
  | .nan => "NaN"
  | .infinite negative => if negative then "-Infinity" else "Infinity"
  | .finite negative significand scale _ =>
    if significand = 0 then "0"
    else
      let chars := magnitudeChars significand scale
      String.ofList (if negative then '-' :: chars else chars)

end Double

end CodePrinter
