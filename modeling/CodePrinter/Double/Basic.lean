/-! IEEE 754 double-precision numbers, as exact integers times a power of two. -/
namespace CodePrinter

/-- A significand below `2 ^ 53` and a scale fit a double: the leading bit is set, unless the
scale is the least one. -/
def IsCanonical (significand scale : Nat) : Prop :=
  significand < 0x20000000000000 ∧ scale ≤ 2045 ∧
    (scale = 0 ∨ 0x10000000000000 ≤ significand)

instance (significand scale : Nat) : Decidable (IsCanonical significand scale) :=
  inferInstanceAs (Decidable (_ ∧ _ ∧ _))

/-- A double-precision number. The magnitude of a finite one is `significand * 2 ^ scale` units
of `2 ^ -1074`; zero has a sign. -/
inductive Double where
  | nan
  | infinite (negative : Bool)
  | finite (negative : Bool) (significand scale : Nat) (canonical : IsCanonical significand scale)
  deriving DecidableEq

namespace Double

/-- The unit of magnitude is `1 / unitsPerOne`. -/
def unitsPerOne : Nat := Nat.pow 2 1074

def zero (negative : Bool) : Double := .finite negative 0 0 (by decide)

instance : Inhabited Double := ⟨zero false⟩

/-- The quotient `n / d` rounded to the nearest integer, a half going to the even one. -/
def divNearest (n d : Nat) : Nat :=
  let q := n / d
  let r := n % d
  if 2 * r < d then q else if d < 2 * r then q + 1 else q + q % 2

/-- The significand and the scale of the double nearest to `n / d` units. The scale is the least
that leaves 53 bits before the point. -/
def nearestParts (n d : Nat) : Nat × Nat :=
  let scale := (n / d).log2 + 1 - 53
  let significand := divNearest n (d * Nat.pow 2 scale)
  if significand = 0x20000000000000 then (0x10000000000000, scale + 1) else (significand, scale)

/-- The double nearest to `±n / d` units; beyond the largest finite one it is infinite. -/
def nearest (negative : Bool) (n d : Nat) : Double :=
  let (significand, scale) := nearestParts n d
  if h : IsCanonical significand scale then .finite negative significand scale h
  else .infinite negative

/-- The double nearest to an integer. -/
def ofInt (n : Int) : Double := nearest (n < 0) (n.natAbs * unitsPerOne) 1

def signed (negative : Bool) (n : Nat) : Int := if negative then -(n : Int) else n

/-- The integer that a double is equal to, if any. -/
def toInt? : Double → Option Int
  | .finite negative significand scale _ =>
    let units := significand * Nat.pow 2 scale
    if units % unitsPerOne = 0 then some (signed negative (units / unitsPerOne)) else none
  | _ => none

/-- The integer that a double is equal to, where every neighbouring integer is a double too. -/
def toSafeInt? (x : Double) : Option Int :=
  x.toInt?.filter fun n => n.natAbs < 0x20000000000000

/-- The sign is minus, that of a zero included. -/
def isNegative : Double → Bool
  | .nan => false
  | .infinite negative => negative
  | .finite negative _ _ _ => negative

def isZero : Double → Bool
  | .finite _ significand _ _ => significand = 0
  | _ => false

end Double

end CodePrinter
