import CodePrinter.Proofs.IntegerNumerals
import Mathlib.Algebra.Order.Field.Power
import Mathlib.Data.Rat.Cast.Order
import Mathlib.Tactic.FieldSimp
import Mathlib.Tactic.Linarith
import Mathlib.Tactic.Positivity

/-! Rounding to the nearest double.

Main statement: the double that is computed for a decimal is the one nearest to it, and of two at
the same distance the one with the even significand (`Decimal.roundsTo_iff`). -/
namespace CodePrinter

namespace Double

variable {q t : ℚ} {k m n m' e e' s d significand scale : Nat}

/-! The nearest integer. -/

/-- An integer is the nearest one to a number, and the even one of two. -/
structure IsRounded (t : ℚ) (n : Nat) : Prop where
  le_half : |t - n| ≤ 1 / 2
  even_of_half : |t - n| = 1 / 2 → 2 ∣ n

theorem IsRounded.of_lt_half (h : |t - n| < 1 / 2) : IsRounded t n :=
  ⟨h.le, fun heq => absurd heq h.ne⟩

theorem isRounded_divNearest (n : Nat) (hd : 0 < d) : IsRounded (n / d) (divNearest n d) := by
  have hpos : (0 : ℚ) < d := Nat.cast_pos.mpr hd
  have hsplit : (n : ℚ) / d = (n / d : Nat) + (n % d : Nat) / d := by
    have hn : (n : ℚ) = (d * (n / d) + n % d : Nat) := by rw [Nat.div_add_mod]
    rw [hn]
    push_cast
    field_simp
  have hnonneg : (0 : ℚ) ≤ (n % d : Nat) / d := div_nonneg (Nat.cast_nonneg _) hpos.le
  have hone : ((n % d : Nat) : ℚ) / d < 1 := by
    rw [div_lt_one hpos]
    exact_mod_cast Nat.mod_lt n hd
  rw [hsplit]
  simp only [divNearest]
  split_ifs with hless hmore
  · have hr : ((n % d : Nat) : ℚ) / d < 1 / 2 := by
      rw [div_lt_iff₀ hpos]
      have : (2 * (n % d : Nat) : ℚ) < d := by exact_mod_cast hless
      linarith
    refine .of_lt_half ?_
    rw [add_sub_cancel_left, abs_of_nonneg hnonneg]
    exact hr
  · have hr : 1 / 2 < ((n % d : Nat) : ℚ) / d := by
      rw [lt_div_iff₀ hpos]
      have : (d : ℚ) < 2 * (n % d : Nat) := by exact_mod_cast hmore
      linarith
    refine .of_lt_half ?_
    rw [Nat.cast_add_one, abs_of_nonpos (by linarith)]
    linarith
  · have hr : ((n % d : Nat) : ℚ) / d = 1 / 2 := by
      rw [div_eq_iff hpos.ne']
      have : (2 * (n % d : Nat) : ℚ) = d := by
        exact_mod_cast show 2 * (n % d) = d by omega
      linarith
    rw [hr]
    refine ⟨?_, fun _ => by omega⟩
    rcases Nat.mod_two_eq_zero_or_one (n / d) with hq | hq
    · rw [hq, Nat.add_zero, add_sub_cancel_left, abs_of_nonneg (by norm_num)]
    · rw [hq, Nat.cast_add_one, abs_of_nonpos (by linarith)]
      linarith

namespace IsRounded

/-- Two integers are one or more apart. -/
theorem one_le_add (t : ℚ) (h : k ≠ n) : 1 ≤ |t - n| + |t - k| := by
  have hone : (1 : ℚ) ≤ |(k : ℚ) - n| := by
    exact_mod_cast Int.one_le_abs (show (k : ℤ) - n ≠ 0 by omega)
  have htri := abs_sub_le (k : ℚ) t n
  rw [abs_sub_comm (k : ℚ) t] at htri
  linarith

theorem le (h : IsRounded t n) (k : Nat) : |t - n| ≤ |t - k| := by
  by_cases hk : k = n
  · rw [hk]
  · linarith [h.le_half, one_le_add t hk]

theorem eq_or_even (h : IsRounded t n) (heq : |t - n| = |t - k|) : k = n ∨ 2 ∣ n := by
  by_cases hk : k = n
  · exact .inl hk
  · exact .inr (h.even_of_half (by linarith [h.le_half, one_le_add t hk]))

theorem le_of_le (h : IsRounded t n) (hk : t ≤ k) : n ≤ k := by
  by_contra hlt
  have hcast : (k : ℚ) < n := by exact_mod_cast Nat.lt_of_not_le hlt
  have hle := h.le k
  rw [abs_of_nonpos (by linarith), abs_of_nonpos (by linarith)] at hle
  linarith

theorem ge_of_ge (h : IsRounded t n) (hk : k ≤ t) : k ≤ n := by
  by_contra hlt
  have hcast : (n : ℚ) < k := by exact_mod_cast Nat.lt_of_not_le hlt
  have hle := h.le k
  rw [abs_of_nonneg (by linarith), abs_of_nonneg (by linarith)] at hle
  linarith

end IsRounded

/-! The nearest floating-point number. -/

/-- Of all numbers of units `m * 2 ^ e` with no more than 53 bits in `m`, the nearest one to `q`
has this significand and scale, and of two at the same distance it is the one with the even
significand. The leading bit is set, unless the scale is the least one. There is no greatest
scale. -/
structure IsNearest (q : ℚ) (significand scale : Nat) : Prop where
  lt : significand < 2 ^ 53
  normal : scale = 0 ∨ 2 ^ 52 ≤ significand
  le : ∀ m e : Nat, m < 2 ^ 53 → |q - significand * 2 ^ scale| ≤ |q - m * 2 ^ e|
  even : ∀ m e : Nat, m < 2 ^ 53 → |q - significand * 2 ^ scale| = |q - m * 2 ^ e| →
    m * 2 ^ e = significand * 2 ^ scale ∨ 2 ∣ significand

theorem abs_sub_mul_two_pow (q : ℚ) (k s : Nat) :
    |q - k * 2 ^ s| = |q / 2 ^ s - k| * 2 ^ s := by
  have hpos : (0 : ℚ) < 2 ^ s := by positivity
  have hsub : q - k * 2 ^ s = (q / 2 ^ s - k) * 2 ^ s := by
    rw [sub_mul, div_mul_cancel₀ _ hpos.ne']
  rw [hsub, abs_mul, abs_of_pos hpos]

/-- Rounding to a multiple of `2 ^ s` gives a nearest number if there are no more than 53 bits
before the point. -/
theorem IsRounded.nearest (h : IsRounded (q / 2 ^ s) n) (hlow : s = 0 ∨ 2 ^ 52 * 2 ^ s ≤ q)
    (hm : m < 2 ^ 53) :
    |q - n * 2 ^ s| ≤ |q - m * 2 ^ e| ∧
      (|q - n * 2 ^ s| = |q - m * 2 ^ e| → m * 2 ^ e = n * 2 ^ s ∨ 2 ∣ n) := by
  have hpos : (0 : ℚ) < 2 ^ s := by positivity
  rcases Nat.lt_or_ge e s with he | he
  · -- All numbers with a lower scale are below the least one with this scale.
    have hq : 2 ^ 52 * 2 ^ s ≤ q := hlow.resolve_left (by omega)
    have hless : (m * 2 ^ e : ℚ) < 2 ^ 52 * 2 ^ s := by
      have hpow : 2 ^ 53 * 2 ^ e ≤ 2 ^ 52 * 2 ^ s := by
        rw [← Nat.pow_add, ← Nat.pow_add]
        exact Nat.pow_le_pow_right (by decide) (by omega)
      have hmul := Nat.mul_lt_mul_of_pos_right hm (Nat.two_pow_pos e)
      exact_mod_cast Nat.lt_of_lt_of_le hmul hpow
    have hle := mul_le_mul_of_nonneg_right (h.le (2 ^ 52)) hpos.le
    rw [← abs_sub_mul_two_pow, ← abs_sub_mul_two_pow] at hle
    rw [Nat.cast_pow, Nat.cast_ofNat,
      abs_of_nonneg (show 0 ≤ q - 2 ^ 52 * 2 ^ s by linarith)] at hle
    rw [abs_of_nonneg (show 0 ≤ q - m * 2 ^ e by linarith)]
    exact ⟨by linarith, fun heq => by linarith⟩
  · obtain ⟨j, rfl⟩ := Nat.exists_eq_add_of_le' he
    have hvalue : (m * 2 ^ (j + s) : ℚ) = (m * 2 ^ j : Nat) * 2 ^ s := by
      push_cast
      ring
    rw [hvalue, abs_sub_mul_two_pow, abs_sub_mul_two_pow]
    refine ⟨mul_le_mul_of_nonneg_right (h.le _) hpos.le, ?_⟩
    intro heq
    rcases h.eq_or_even (mul_right_cancel₀ hpos.ne' heq) with hn | hn
    · left
      rw [Nat.pow_add, ← Nat.mul_assoc, hn]
    · exact .inr hn

/-- The scale leaves 53 bits before the point, or fewer if it is the least one. -/
theorem scale_bounds (n : Nat) (hd : 0 < d) (hs : (n / d).log2 - 52 = s) :
    (s = 0 ∨ (2 ^ 52 * 2 ^ s : ℚ) ≤ n / d) ∧ (n / d : ℚ) ≤ 2 ^ 53 * 2 ^ s := by
  have hpos : (0 : ℚ) < d := Nat.cast_pos.mpr hd
  constructor
  · by_cases hzero : s = 0
    · exact .inl hzero
    · right
      have hne : n / d ≠ 0 := by
        intro h
        rw [h, Nat.log2_zero] at hs
        omega
      have hle : 2 ^ (52 + s) ≤ n / d := (Nat.le_log2 hne).mp (by omega)
      rw [le_div_iff₀ hpos, ← pow_add]
      exact_mod_cast (Nat.le_div_iff_mul_le hd).mp hle
  · have hlt : n / d < 2 ^ (53 + s) :=
      Nat.lt_of_lt_of_le Nat.lt_log2_self (Nat.pow_le_pow_right (by decide) (by omega))
    rw [div_le_iff₀ hpos, ← pow_add]
    exact_mod_cast ((Nat.div_lt_iff_lt_mul hd).mp hlt).le

theorem isNearest_nearestParts (n : Nat) (hd : 0 < d) :
    IsNearest (n / d) (nearestParts n d).1 (nearestParts n d).2 := by
  have hscale : (n / d).log2 + 1 - 53 = (n / d).log2 - 52 := by omega
  simp only [nearestParts, hscale, Nat.pow_eq]
  generalize hs : (n / d).log2 - 52 = s
  obtain ⟨hlow, hhigh⟩ := scale_bounds n hd hs
  have hpos : (0 : ℚ) < 2 ^ s := by positivity
  have hround : IsRounded ((n / d : ℚ) / 2 ^ s) (divNearest n (d * 2 ^ s)) := by
    have h := isRounded_divNearest n (Nat.mul_pos hd (Nat.two_pow_pos s))
    rwa [Nat.cast_mul, Nat.cast_pow, Nat.cast_ofNat, ← div_div] at h
  generalize divNearest n (d * 2 ^ s) = significand at hround
  have hle : significand ≤ 2 ^ 53 := by
    refine hround.le_of_le ?_
    rw [div_le_iff₀ hpos]
    exact_mod_cast hhigh
  split_ifs with hover
  · -- The significand has one bit too many, but it is a power of two.
    have hvalue : ((0x10000000000000 : Nat) : ℚ) * 2 ^ (s + 1) = significand * 2 ^ s := by
      rw [hover, pow_succ]
      push_cast
      ring
    have hlt : 0x10000000000000 < 2 ^ 53 := by decide
    have heven : 2 ∣ 0x10000000000000 := by decide
    refine ⟨hlt, .inr (Nat.le_refl _), ?_, fun _ _ _ _ => .inr heven⟩
    intro m e hm
    rw [hvalue]
    exact (hround.nearest hlow hm).1
  · refine ⟨by omega, ?_, fun m e hm => (hround.nearest hlow hm).1,
      fun m e hm => (hround.nearest hlow hm).2⟩
    rcases hlow with hzero | hq
    · exact .inl hzero
    · right
      refine hround.ge_of_ge ?_
      rw [le_div_iff₀ hpos]
      exact_mod_cast hq

/-- A number of units has one significand and one scale only. -/
theorem eq_of_units_eq (hm : m < 2 ^ 53) (he : e = 0 ∨ 2 ^ 52 ≤ m) (hm' : m' < 2 ^ 53)
    (he' : e' = 0 ∨ 2 ^ 52 ≤ m') (h : m * 2 ^ e = m' * 2 ^ e') : m = m' ∧ e = e' := by
  wlog hle : e ≤ e' generalizing m e m' e'
  · obtain ⟨hsig, hscale⟩ := this hm' he' hm he h.symm (by omega)
    exact ⟨hsig.symm, hscale.symm⟩
  obtain ⟨j, rfl⟩ := Nat.exists_eq_add_of_le' hle
  rw [Nat.pow_add, ← Nat.mul_assoc] at h
  have hsig : m = m' * 2 ^ j := Nat.eq_of_mul_eq_mul_right (Nat.two_pow_pos e) h
  cases j with
  | zero => exact ⟨by simpa using hsig, by omega⟩
  | succ j =>
    have hbit : 2 ^ 52 ≤ m' := he'.resolve_left (by omega)
    have hmul := Nat.mul_le_mul hbit (Nat.pow_le_pow_right (show 0 < 2 by decide)
      (Nat.le_add_left 1 j))
    omega

/-- The next number of units after one with a set leading bit is that of the next significand. -/
theorem succ_units_le (he : e = 0 ∨ 2 ^ 52 ≤ m) (hm' : m' < 2 ^ 53)
    (h : m * 2 ^ e < m' * 2 ^ e') : (m + 1) * 2 ^ e ≤ m' * 2 ^ e' := by
  rcases Nat.lt_or_ge e' e with hlt | hge
  · have hm : 2 ^ 52 ≤ m := he.resolve_left (by omega)
    have hpow : 2 ^ 53 * 2 ^ e' ≤ 2 ^ 52 * 2 ^ e := by
      rw [← Nat.pow_add, ← Nat.pow_add]
      exact Nat.pow_le_pow_right (by decide) (by omega)
    have hbelow := Nat.mul_lt_mul_of_pos_right hm' (Nat.two_pow_pos e')
    have habove := Nat.mul_le_mul_right (2 ^ e) hm
    omega
  · obtain ⟨j, rfl⟩ := Nat.exists_eq_add_of_le' hge
    rw [Nat.pow_add, ← Nat.mul_assoc] at h ⊢
    exact Nat.mul_le_mul_right _ (Nat.lt_of_mul_lt_mul_right h)

/-- Between two numbers at the same distance, every number is nearer than they are. -/
theorem eq_of_between {a b c : ℚ} (hab : a < b) (hbc : b ≤ c) (heq : |q - a| = |q - c|)
    (hle : |q - a| ≤ |q - b|) : b = c := by
  have hmiddle : q - a = c - q := by
    rcases abs_eq_abs.mp heq with h | h <;> linarith
  rw [abs_of_nonneg (show 0 ≤ q - a by linarith)] at hle
  rcases abs_cases (q - b) with ⟨h, -⟩ | ⟨h, -⟩ <;> linarith

namespace IsNearest

/-- Two nearest numbers would be neighbours with even significands. -/
theorem not_units_lt (h : IsNearest q m e) (h' : IsNearest q m' e') :
    ¬ m * 2 ^ e < m' * 2 ^ e' := by
  intro hlt
  have heq := le_antisymm (h.le m' e' h'.lt) (h'.le m e h.lt)
  have heven : 2 ∣ m := (h.even m' e' h'.lt heq).resolve_left (by omega)
  have heven' : 2 ∣ m' := (h'.even m e h.lt heq.symm).resolve_left (by omega)
  have hnext : m + 1 < 2 ^ 53 := by
    have := h.lt
    omega
  have hbetween := succ_units_le h.normal h'.lt hlt
  have hle := h.le (m + 1) e hnext
  have hfirst : (m * 2 ^ e : ℚ) < (m + 1 : Nat) * 2 ^ e := by
    exact_mod_cast Nat.mul_lt_mul_of_pos_right (Nat.lt_succ_self m) (Nat.two_pow_pos e)
  have hsecond : ((m + 1 : Nat) * 2 ^ e : ℚ) ≤ m' * 2 ^ e' := by exact_mod_cast hbetween
  have hend := eq_of_between hfirst hsecond heq hle
  obtain ⟨hsig, -⟩ := eq_of_units_eq hnext (h.normal.imp_right (by omega)) h'.lt h'.normal
    (by exact_mod_cast hend)
  omega

theorem unique (h : IsNearest q m e) (h' : IsNearest q m' e') : m = m' ∧ e = e' := by
  have hlow := h.not_units_lt h'
  have hhigh := h'.not_units_lt h
  exact eq_of_units_eq h.lt h.normal h'.lt h'.normal (by omega)

end IsNearest

theorem nearestParts_eq_iff (hd : 0 < d) :
    nearestParts n d = (significand, scale) ↔ IsNearest (n / d) significand scale := by
  constructor
  · intro h
    have hnearest := isNearest_nearestParts n hd
    rwa [h] at hnearest
  · intro h
    obtain ⟨hsig, hscale⟩ := (isNearest_nearestParts n hd).unique h
    exact Prod.ext hsig hscale

/-- A double is the nearest one to itself. -/
theorem isNearest_self (h : IsCanonical significand scale) :
    IsNearest (significand * 2 ^ scale) significand scale := by
  refine ⟨h.1, h.2.2, ?_, ?_⟩
  · intro m e _
    rw [sub_self, abs_zero]
    exact abs_nonneg _
  · intro m e _ heq
    rw [sub_self, abs_zero, eq_comm, abs_eq_zero, sub_eq_zero] at heq
    left
    exact_mod_cast heq.symm

def isFinite : Double → Bool
  | .finite _ _ _ _ => true
  | _ => false

/-- A double is the nearest one to `±q` units. What is nearest to a number with a scale beyond
those of doubles is infinite. -/
def Rounds (negative : Bool) (q : ℚ) : Double → Prop
  | .nan => False
  | .infinite sign =>
    sign = negative ∧ ∃ significand scale, IsNearest q significand scale ∧ 2045 < scale
  | .finite sign significand scale _ => sign = negative ∧ IsNearest q significand scale

/-- The double that is computed is the nearest one, and there is no other. -/
theorem rounds_iff (negative : Bool) (n : Nat) (hd : 0 < d) (x : Double) :
    Rounds negative (n / d) x ↔ nearest negative n d = x := by
  have hnearest := isNearest_nearestParts n hd
  simp only [nearest]
  generalize nearestParts n d = parts at hnearest
  obtain ⟨significand, scale⟩ := parts
  have hcanonical : IsCanonical significand scale ↔ scale ≤ 2045 :=
    ⟨fun h => h.2.1, fun h => ⟨hnearest.lt, h, hnearest.normal⟩⟩
  cases x with
  | nan =>
    constructor
    · rintro ⟨⟩
    · intro h
      split at h <;> cases h
  | infinite sign =>
    constructor
    · rintro ⟨rfl, significand', scale', h, hscale⟩
      obtain ⟨rfl, rfl⟩ := hnearest.unique h
      rw [dif_neg (by rw [hcanonical]; omega)]
    · intro h
      split at h
      · cases h
      · rename_i hnot
        cases h
        rw [hcanonical] at hnot
        exact ⟨rfl, significand, scale, hnearest, by omega⟩
  | finite sign significand' scale' canonical =>
    constructor
    · rintro ⟨rfl, h⟩
      obtain ⟨rfl, rfl⟩ := hnearest.unique h
      rw [dif_pos canonical]
    · intro h
      split at h
      · cases h
        exact ⟨rfl, hnearest⟩
      · cases h

end Double

namespace Decimal

def magnitude (d : Decimal) : ℚ := d.digits * 10 ^ d.exponent

/-- The magnitude in the units of doubles. -/
def units (d : Decimal) : ℚ := d.magnitude * Double.unitsPerOne

theorem units_congr {d d' : Decimal} (h : d.magnitude = d'.magnitude) : d.units = d'.units := by
  rw [units, units, h]

/-- A double is the nearest one to a decimal. -/
def RoundsTo (d : Decimal) (x : Double) : Prop := Double.Rounds d.negative d.units x

theorem units_eq_div (d : Decimal) :
    d.units = (d.digits * Double.unitsPerOne * Nat.pow 10 d.exponent.toNat : Nat) /
      (Nat.pow 10 (-d.exponent).toNat : Nat) := by
  have hpow : (10 : ℚ) ^ d.exponent = 10 ^ d.exponent.toNat / 10 ^ (-d.exponent).toNat := by
    rw [← zpow_natCast, ← zpow_natCast, ← zpow_sub₀ (by norm_num)]
    congr 1
    omega
  rw [units, magnitude, hpow, Nat.pow_eq, Nat.pow_eq, Nat.cast_mul, Nat.cast_mul, Nat.cast_pow,
    Nat.cast_pow, Nat.cast_ofNat]
  ring

theorem roundsTo_iff (d : Decimal) (x : Double) : d.RoundsTo x ↔ d.toDouble = x := by
  have hpos : 0 < Nat.pow 10 (-d.exponent).toNat := Nat.pow_pos (by decide)
  rw [RoundsTo, units_eq_div, Double.rounds_iff _ _ hpos, toDouble]

end Decimal

end CodePrinter
