import CodePrinter.Double.Shortest
import Mathlib.Algebra.Order.Ring.Nat
import Mathlib.Tactic.Ring

/-! Numerals, above all those of integers.

Main statements: an integer that is not beyond `2 ^ 53` is written as its decimal digits
(`toList_numeral`), and no numeral is empty (`numeral_ne_empty`). -/
namespace CodePrinter.Double

variable {a k m n significand scale : Nat}

theorem log2_mul_two_pow (hm : m ≠ 0) (a : Nat) : (m * 2 ^ a).log2 = m.log2 + a := by
  have hpos : m * 2 ^ a ≠ 0 := Nat.mul_ne_zero hm (Nat.pos_iff_ne_zero.mp (Nat.two_pow_pos a))
  rw [Nat.log2_eq_iff hpos]
  obtain ⟨hlow, hhigh⟩ := (Nat.log2_eq_iff hm).mp rfl
  have hright : m.log2 + a + 1 = m.log2 + 1 + a := by omega
  rw [hright, Nat.pow_add, Nat.pow_add]
  exact ⟨Nat.mul_le_mul_right _ hlow, Nat.mul_lt_mul_of_pos_right hhigh (Nat.two_pow_pos a)⟩

/-- A number of units that its scale divides is a double. -/
theorem nearestParts_of_dvd (hd : 2 ^ (n.log2 - 52) ∣ n) :
    nearestParts n 1 = (n / 2 ^ (n.log2 - 52), n.log2 - 52) := by
  have hscale : n.log2 + 1 - 53 = n.log2 - 52 := by omega
  have hpos : 0 < 2 ^ (n.log2 - 52) := Nat.two_pow_pos _
  have hlt : n / 2 ^ (n.log2 - 52) < 0x20000000000000 := by
    rw [Nat.div_lt_iff_lt_mul hpos]
    have hself : n < 2 ^ (n.log2 + 1) := Nat.lt_log2_self
    have hle : 2 ^ (n.log2 + 1) ≤ 2 ^ 53 * 2 ^ (n.log2 - 52) := by
      rw [← Nat.pow_add]
      exact Nat.pow_le_pow_right (by decide) (by omega)
    exact Nat.lt_of_lt_of_le hself hle
  have hdiv : divNearest n (1 * Nat.pow 2 (n.log2 - 52)) = n / 2 ^ (n.log2 - 52) := by
    have hmod : n % 2 ^ (n.log2 - 52) = 0 := Nat.mod_eq_zero_of_dvd hd
    rw [Nat.one_mul, divNearest]
    simp only [Nat.pow_eq, hmod, Nat.mul_zero, hpos, if_true]
  unfold nearestParts
  simp only [Nat.div_one, hscale, hdiv]
  rw [if_neg (Nat.ne_of_lt hlt)]

/-- A double is the nearest one to itself. -/
theorem nearestParts_self (hc : IsCanonical significand scale) (hs : significand ≠ 0) :
    nearestParts (significand * 2 ^ scale) 1 = (significand, scale) := by
  have hpos : 0 < 2 ^ scale := Nat.two_pow_pos scale
  have hlog := log2_mul_two_pow hs scale
  have hlt : significand.log2 < 53 := (Nat.log2_lt hs).mpr hc.1
  have hscale : (significand * 2 ^ scale).log2 - 52 = scale := by
    rcases hc.2.2 with rfl | hlow
    · omega
    · have : 52 ≤ significand.log2 := (Nat.le_log2 hs).mpr hlow
      omega
  rw [nearestParts_of_dvd (by rw [hscale]; exact Nat.dvd_mul_left _ _), hscale,
    Nat.mul_div_cancel _ hpos]

theorem le_scale_nearestParts (n : Nat) : n.log2 - 52 ≤ (nearestParts n 1).2 := by
  unfold nearestParts
  simp only [Nat.div_one]
  split <;> simp only <;> omega

/-- Of the integers, only `k` is read as the double that is `k`, if that has no more than 53
bits. -/
theorem eq_of_nearestParts (hc : IsCanonical significand scale) (hs : significand ≠ 0)
    (hk : significand * 2 ^ scale = k * 2 ^ a) (hlt : k < 0x20000000000000)
    (h : nearestParts (m * 2 ^ a) 1 = (significand, scale)) : m = k := by
  have hpos : 0 < 2 ^ a := Nat.two_pow_pos a
  have hm : m ≠ 0 := by
    rintro rfl
    rw [Nat.zero_mul] at h
    have hzero : nearestParts 0 1 = (0, 0) := by decide
    rw [hzero] at h
    exact hs (congrArg Prod.fst h).symm
  have hlog := log2_mul_two_pow hm a
  have hlow := le_scale_nearestParts (m * 2 ^ a)
  rw [h] at hlow
  by_cases hbig : m < 0x20000000000000
  · have hbits : m.log2 < 53 := (Nat.log2_lt hm).mpr hbig
    have hdvd : 2 ^ ((m * 2 ^ a).log2 - 52) ∣ m * 2 ^ a :=
      Dvd.dvd.mul_left (Nat.pow_dvd_pow 2 (by omega)) m
    rw [nearestParts_of_dvd hdvd] at h
    obtain ⟨rfl, rfl⟩ := Prod.mk.inj h
    rw [Nat.div_mul_cancel hdvd] at hk
    exact Nat.eq_of_mul_eq_mul_right hpos hk
  · have hbits : 53 ≤ m.log2 := (Nat.le_log2 hm).mpr (by omega)
    have hscale : a + 1 ≤ scale := by simp only at hlow; omega
    have hsig : 0x10000000000000 ≤ significand := by
      rcases hc.2.2 with rfl | hsig
      · omega
      · exact hsig
    have hle : 2 ^ (a + 1) ≤ 2 ^ scale := Nat.pow_le_pow_right (by decide) hscale
    have hprod : 0x10000000000000 * 2 ^ (a + 1) ≤ k * 2 ^ a := hk ▸ Nat.mul_le_mul hsig hle
    have hsplit : 0x10000000000000 * 2 ^ (a + 1) = 0x20000000000000 * 2 ^ a := by
      rw [Nat.pow_succ]
      ring
    rw [hsplit] at hprod
    have := Nat.le_of_mul_le_mul_right hprod hpos
    omega

theorem lt_ten_pow_lengthFrom {fuel count : Nat} (h : n < 10 ^ (count + fuel)) :
    n < 10 ^ lengthFrom n fuel count := by
  induction fuel generalizing count with
  | zero => simpa [lengthFrom] using h
  | succ fuel ih =>
    rw [lengthFrom]
    split
    · assumption
    · refine ih ?_
      rwa [Nat.add_assoc, Nat.add_comm 1]

theorem lengthFrom_le {fuel count bound : Nat} (hc : count ≤ bound) (h : n < 10 ^ bound) :
    lengthFrom n fuel count ≤ bound := by
  induction fuel generalizing count with
  | zero => simpa [lengthFrom] using hc
  | succ fuel ih =>
    rw [lengthFrom]
    split
    · exact hc
    · rename_i hge
      refine ih (Nat.lt_of_le_of_ne hc ?_)
      rintro rfl
      exact hge h

theorem lt_ten_pow_decimalLength (n : Nat) : n < 10 ^ decimalLength n := by
  refine lt_ten_pow_lengthFrom ?_
  calc n < 2 ^ (n.log2 + 1) := Nat.lt_log2_self
    _ ≤ 10 ^ (n.log2 + 1) := Nat.pow_le_pow_left (by decide) _
    _ ≤ 10 ^ (n.log2 * 1233 / 4096 + (n.log2 + 1)) :=
      Nat.pow_le_pow_right (by decide) (Nat.le_add_left _ _)

theorem decimalLength_le {bound : Nat} (hb : n.log2 * 1233 / 4096 ≤ bound)
    (h : n < 10 ^ bound) : decimalLength n ≤ bound :=
  lengthFrom_le hb h

theorem log2_mul_lt {x y b : Nat} (hx : x < 2 ^ a) (hy : y < 2 ^ b) (hne : x * y ≠ 0) :
    (x * y).log2 < a + b := by
  rw [Nat.log2_lt hne, Nat.pow_add]
  exact Nat.mul_lt_mul'' hx hy

theorem mul_lt_ten_pow_add {bound : Nat} (hk : k < 10 ^ bound) (a : Nat) :
    k * 10 ^ a < 10 ^ (a + bound) := by
  rw [Nat.pow_add, Nat.mul_comm]
  exact Nat.mul_lt_mul_of_pos_left hk (Nat.pow_pos (by decide))

/-- The places of an integer are those after the point and no more than seventeen before it. -/
theorem decimalLength_scaledUp (hk : k ≠ 0) (hlt : k < 0x20000000000000) :
    places < decimalLength (k * 10 ^ places) ∧ decimalLength (k * 10 ^ places) ≤ places + 17 := by
  have hpos : 0 < 10 ^ places := Nat.pow_pos (by decide)
  constructor
  · have hself := lt_ten_pow_decimalLength (k * 10 ^ places)
    have hle : 10 ^ places ≤ k * 10 ^ places := Nat.le_mul_of_pos_left _ (Nat.pos_of_ne_zero hk)
    exact (Nat.pow_lt_pow_iff_right (by decide)).mp (Nat.lt_of_le_of_lt hle hself)
  · have hne : k * 10 ^ places ≠ 0 := Nat.mul_ne_zero hk (Nat.pos_iff_ne_zero.mp hpos)
    have hten : 10 ^ places < 2 ^ 3568 := by decide +kernel
    have hbits := log2_mul_lt (show k < 2 ^ 53 from hlt) hten hne
    have hplaces : places = 1074 := rfl
    exact decimalLength_le (by omega) (mul_lt_ten_pow_add (by omega) places)

theorem unitsPerOne_eq : unitsPerOne = 2 ^ places := by
  unfold unitsPerOne
  have hplaces : 1074 = places := rfl
  rw [hplaces, Nat.pow_eq]

/-- A double is a positive integer of no more than 53 bits. -/
structure IsInteger (significand scale k : Nat) : Prop where
  canonical : IsCanonical significand scale
  ne_zero : significand ≠ 0
  units : significand * 2 ^ scale = k * 2 ^ places
  lt : k < 0x20000000000000

namespace IsInteger

variable {digits e dropped : Nat}

theorem pos (h : IsInteger significand scale k) : k ≠ 0 := by
  rintro rfl
  have hz := h.units
  rw [Nat.zero_mul] at hz
  rcases Nat.mul_eq_zero.mp hz with hs | hs
  · exact h.ne_zero hs
  · exact absurd hs (Nat.pos_iff_ne_zero.mp (Nat.two_pow_pos scale))

theorem readsAs_iff (h : IsInteger significand scale k) :
    readsAs significand scale digits (e : Int) = true ↔ digits * 10 ^ e = k := by
  have harg : digits * unitsPerOne * Nat.pow 10 (e : Int).toNat =
      digits * 10 ^ e * 2 ^ places := by
    rw [unitsPerOne_eq, Int.toNat_natCast, Nat.pow_eq, Nat.mul_right_comm]
  have hone : Nat.pow 10 (-(e : Int)).toNat = 1 := by simp
  rw [readsAs, harg, hone, decide_eq_true_eq]
  constructor
  · exact eq_of_nearestParts h.canonical h.ne_zero h.units h.lt
  · rintro rfl
    rw [← h.units]
    exact nearestParts_self h.canonical h.ne_zero

theorem scaledUp_eq (h : IsInteger significand scale k) :
    scaledUp significand scale = k * 10 ^ places := by
  have hten : (10 : Nat) = 2 * 5 := rfl
  rw [scaledUp, Nat.pow_eq, Nat.pow_eq, h.units, hten, Nat.mul_pow, Nat.mul_assoc]

theorem of_nearerOf {below rest whole : Nat} {belowReads aboveReads : Bool}
    (h : nearerOf below rest whole belowReads aboveReads = some digits) :
    digits = below ∧ belowReads = true ∨ digits = below + 1 ∧ aboveReads = true := by
  cases belowReads <;> cases aboveReads
  · cases h
  · cases h
    exact .inr ⟨rfl, rfl⟩
  · cases h
    exact .inl ⟨rfl, rfl⟩
  · simp only [nearerOf] at h
    split_ifs at h <;> cases h
    · exact .inl ⟨rfl, rfl⟩
    · exact .inr ⟨rfl, rfl⟩
    · rcases Nat.mod_two_eq_zero_or_one below with heven | hodd
      · exact .inl ⟨by omega, rfl⟩
      · exact .inr ⟨by omega, rfl⟩

/-- A neighbour on a grid of integers is the integer itself. -/
theorem of_neighbour? (h : IsInteger significand scale k) {x : Nat × Int}
    (hx : neighbour? significand scale (places + e) = some x) :
    x.2 = (e : Int) ∧ x.1 * 10 ^ e = k := by
  have hexponent : ((places + e : Nat) : Int) - places = (e : Int) := by push_cast; ring
  simp only [neighbour?, hexponent, Option.map_eq_some_iff] at hx
  obtain ⟨digits, hdigits, rfl⟩ := hx
  refine ⟨rfl, ?_⟩
  rcases of_nearerOf hdigits with ⟨hd, hread⟩ | ⟨hd, hread⟩
  · rw [← hd] at hread
    exact h.readsAs_iff.mp hread
  · rw [← hd] at hread
    exact h.readsAs_iff.mp hread

theorem neighbour?_places (h : IsInteger significand scale k) :
    neighbour? significand scale places = some (k, 0) := by
  have hpos : 0 < 10 ^ places := Nat.pow_pos (by decide)
  have hread : readsAs significand scale k 0 = true := by
    have hiff : readsAs significand scale k ((0 : Nat) : Int) = true ↔ k * 10 ^ 0 = k :=
      h.readsAs_iff
    simpa using hiff
  simp only [neighbour?, h.scaledUp_eq, Nat.pow_eq, Nat.mul_div_cancel _ hpos, Nat.mul_mod_left,
    Int.sub_self, hread]
  cases readsAs significand scale (k + 1) 0 <;> simp [nearerOf, hpos]

/-- The shortest decimal of an integer is the integer, perhaps without zeros at its end. -/
theorem shortest_eq (h : IsInteger significand scale k) :
    ∃ digits e : Nat, shortest significand scale = (digits, (e : Int)) ∧ digits * 10 ^ e = k := by
  obtain ⟨hlow, hhigh⟩ := decimalLength_scaledUp h.pos h.lt
  rw [← h.scaledUp_eq] at hlow hhigh
  let search := fun count =>
    neighbour? significand scale (decimalLength (scaledUp significand scale) - count)
  obtain ⟨length, hlength⟩ := Nat.exists_eq_add_of_lt hlow
  -- The search ends at the number of digits of the integer, if not before it.
  have hsplit : List.range' 1 17 = List.range' 1 (length + 1) ++ List.range' (length + 2)
      (16 - length) := by
    have hsum : 17 = length + 1 + (16 - length) := by omega
    rw [hsum, ← List.range'_append]
    congr 2
    omega
  have hfound : search (length + 1) = some (k, 0) := by
    have hdropped : decimalLength (scaledUp significand scale) - (length + 1) = places := by omega
    simp only [search, hdropped, h.neighbour?_places]
  obtain ⟨x, hx⟩ : ∃ x, (List.range' 1 (length + 1)).findSome? search = some x := by
    rw [← Option.isSome_iff_exists, List.findSome?_isSome_iff]
    exact ⟨length + 1, by simp [List.mem_range'_1], by simp [hfound]⟩
  obtain ⟨count, hcount, hsearch⟩ := List.exists_of_findSome?_eq_some hx
  rw [List.mem_range'_1] at hcount
  have hdropped : decimalLength (scaledUp significand scale) - count =
      places + (length + 1 - count) := by omega
  simp only [search, hdropped] at hsearch
  obtain ⟨hexponent, hvalue⟩ := h.of_neighbour? hsearch
  refine ⟨x.1, length + 1 - count, ?_, hvalue⟩
  have hall : (List.range' 1 17).findSome? search = some x := by
    rw [hsplit, List.findSome?_append, hx]
    rfl
  change ((List.range' 1 17).findSome? search).getD _ = _
  rw [hall, Option.getD_some, ← hexponent]

end IsInteger

theorem toDigits_mul_ten (hm : m ≠ 0) : Nat.toDigits 10 (m * 10) = Nat.toDigits 10 m ++ ['0'] := by
  rw [Nat.toDigits_of_base_le (by decide) (by omega), Nat.mul_div_cancel _ (by decide),
    Nat.mul_mod_left]
  rfl

theorem toDigits_mul_ten_pow (hm : m ≠ 0) (e : Nat) :
    Nat.toDigits 10 (m * 10 ^ e) = Nat.toDigits 10 m ++ List.replicate e '0' := by
  induction e with
  | zero => simp
  | succ e ih =>
    have hne : m * 10 ^ e ≠ 0 :=
      Nat.mul_ne_zero hm (Nat.pos_iff_ne_zero.mp (Nat.pow_pos (by decide)))
    rw [Nat.pow_succ, ← Nat.mul_assoc, toDigits_mul_ten hne, ih, List.append_assoc,
      List.replicate_succ']

/-- Zeros at the end can be dropped and put back. -/
theorem dropZeros_append (cs : List Char) :
    ∃ zeros, cs = dropZeros cs ++ List.replicate zeros '0' := by
  refine ⟨(cs.reverse.takeWhile (· = '0')).length, ?_⟩
  have hzeros : cs.reverse.takeWhile (· = '0') =
      List.replicate (cs.reverse.takeWhile (· = '0')).length '0' := by
    rw [List.eq_replicate_iff]
    refine ⟨rfl, ?_⟩
    intro c hc
    simpa using List.all_eq_true.mp List.all_takeWhile c hc
  have hsplit := List.takeWhile_append_dropWhile (p := (· = '0')) (l := cs.reverse)
  rw [hzeros] at hsplit
  have hreverse := congrArg List.reverse hsplit
  rw [List.reverse_append, List.reverse_reverse, List.reverse_replicate] at hreverse
  exact hreverse.symm

theorem magnitudeChars_eq (h : IsInteger significand scale k) :
    magnitudeChars significand scale = Nat.toDigits 10 k := by
  obtain ⟨digits, e, hshortest, hk⟩ := h.shortest_eq
  have hdigits : digits ≠ 0 := by
    rintro rfl
    exact h.pos (by rw [← hk, Nat.zero_mul])
  have hwhole : Nat.toDigits 10 k = Nat.toDigits 10 digits ++ List.replicate e '0' := by
    rw [← hk, toDigits_mul_ten_pow hdigits]
  have hlength : (Nat.toDigits 10 digits).length + e ≤ 21 := by
    have hlt := h.lt
    have hle : (Nat.toDigits 10 k).length ≤ 21 :=
      (Nat.length_toDigits_le_iff (by decide) (by decide)).mpr (by omega)
    simpa [hwhole] using hle
  obtain ⟨zeros, hzeros⟩ := dropZeros_append (Nat.toDigits 10 digits)
  have hcount := congrArg List.length hzeros
  rw [List.length_append, List.length_replicate] at hcount
  rw [magnitudeChars, hshortest, NumeralForm.write, if_pos, hwhole]
  · have hpad : (((Nat.toDigits 10 digits).length : Int) + e -
        (dropZeros (Nat.toDigits 10 digits)).length).toNat = zeros + e := by omega
    rw [hpad, ← List.replicate_append_replicate, ← List.append_assoc, ← hzeros]
  · have hlimit : numeralForm.wholeLimit = 21 := rfl
    rw [hlimit, Bool.and_eq_true, decide_eq_true_eq, decide_eq_true_eq]
    dsimp only
    omega

/-- What a double that is a natural number is made of. -/
theorem of_toSafeInt? {x : Double} (h : x.toSafeInt? = some (n : Int)) :
    x.isZero = true ∧ n = 0 ∨ ∃ significand scale canonical,
      x = .finite false significand scale canonical ∧ IsInteger significand scale n := by
  cases x with
  | nan | infinite => cases h
  | finite negative significand scale canonical =>
    simp only [toSafeInt?, toInt?, Nat.pow_eq, Option.filter_eq_some_iff, decide_eq_true_eq] at h
    obtain ⟨hint, hlt⟩ := h
    split at hint
    · rename_i hmod
      rw [Option.some.injEq] at hint
      have hunits := Nat.div_mul_cancel (Nat.dvd_of_mod_eq_zero hmod)
      by_cases hs : significand = 0
      · subst hs
        refine .inl ⟨rfl, ?_⟩
        rw [Nat.zero_mul, Nat.zero_div] at hint
        cases negative <;> simp [signed] at hint <;> omega
      · have hne : significand * 2 ^ scale / unitsPerOne ≠ 0 := by
          intro hzero
          rw [hzero, Nat.zero_mul] at hunits
          exact absurd hunits.symm
            (Nat.mul_ne_zero hs (Nat.pos_iff_ne_zero.mp (Nat.two_pow_pos scale)))
        obtain rfl : negative = false := by
          cases negative with
          | false => rfl
          | true =>
            generalize significand * 2 ^ scale / unitsPerOne = q at hint hne
            simp only [signed, if_true] at hint
            omega
        simp only [signed, Bool.false_eq_true, if_false, Int.natCast_inj] at hint
        rw [hint, unitsPerOne_eq] at hunits
        exact .inr ⟨significand, scale, canonical, rfl, canonical, hs, hunits.symm, by omega⟩
    · cases hint

theorem nearest_of_parts {negative : Bool} {d : Nat}
    (h : nearestParts n d = (significand, scale)) (hc : IsCanonical significand scale) :
    nearest negative n d = .finite negative significand scale hc := by
  simp [nearest, h, hc]

theorem ofInt_eq_nearest (n : Nat) : ofInt n = nearest false (n * unitsPerOne) 1 := by
  have hsign : decide ((n : Int) < 0) = false := by simp
  rw [ofInt, hsign, Int.natAbs_natCast]

/-- A double that is a natural number is the double of that number, if it is not a negative
zero. -/
theorem ofInt_natCast {x : Double} (h : x.toSafeInt? = some (n : Int)) :
    ofInt n = if x.isZero then zero false else x := by
  rw [ofInt_eq_nearest]
  rcases of_toSafeInt? h with ⟨hzero, hn⟩ | ⟨significand, scale, canonical, rfl, hint⟩
  · have hnearest : nearest false 0 1 = zero false := by decide
    rw [if_pos hzero, hn, Nat.zero_mul, hnearest]
  · have hparts : nearestParts (n * unitsPerOne) 1 = (significand, scale) := by
      rw [unitsPerOne_eq, ← hint.units]
      exact nearestParts_self canonical hint.ne_zero
    rw [if_neg (by simpa [isZero] using hint.ne_zero)]
    exact nearest_of_parts hparts canonical

/-- A natural number of no more than 53 bits is written as its digits. -/
theorem toList_numeral {x : Double} (h : x.toSafeInt? = some (n : Int)) :
    x.numeral.toList = Nat.toDigits 10 n := by
  rcases of_toSafeInt? h with ⟨hzero, rfl⟩ | ⟨significand, scale, canonical, rfl, hint⟩
  · cases x with
    | nan | infinite => cases hzero
    | finite negative significand scale canonical =>
      rw [numeral, if_pos (by simpa [isZero] using hzero)]
      rfl
  · rw [numeral, if_neg hint.ne_zero]
    simp [magnitudeChars_eq hint]

theorem toDigits_ne_replicate (hn : n ≠ 0) (zeros : Nat) :
    Nat.toDigits 10 n ≠ List.replicate zeros '0' := by
  intro h
  have hvalue := Nat.ofDigitChars_ten_toDigits (n := n)
  rw [h] at hvalue
  have hzero : Nat.ofDigitChars 10 (List.replicate zeros '0') 0 = 0 := by
    rw [Nat.ofDigitChars_eq_foldl]
    clear h hvalue
    induction zeros with
    | zero => rfl
    | succ zeros ih => exact ih
  exact hn (hvalue.symm.trans hzero)

theorem dropZeros_toDigits_ne_nil (hn : n ≠ 0) : dropZeros (Nat.toDigits 10 n) ≠ [] := by
  intro hnil
  obtain ⟨zeros, hzeros⟩ := dropZeros_append (Nat.toDigits 10 n)
  rw [hnil, List.nil_append] at hzeros
  exact toDigits_ne_replicate hn zeros hzeros

theorem readsAs_zero (hs : significand ≠ 0) (exponent : Int) :
    readsAs significand scale 0 exponent = false := by
  have hparts (d : Nat) : (nearestParts 0 d).1 = 0 := by
    simp [nearestParts, divNearest]
  simp only [readsAs, Nat.zero_mul, decide_eq_false_iff_not]
  intro h
  exact hs ((congrArg Prod.fst h).symm.trans (hparts _))

theorem nearerOf_ne_zero {below rest whole digits : Nat} {belowReads aboveReads : Bool}
    (hb : below = 0 → belowReads = false)
    (h : nearerOf below rest whole belowReads aboveReads = some digits) : digits ≠ 0 := by
  have hsome : belowReads = true → below ≠ 0 := by
    rintro rfl hzero
    cases hb hzero
  revert h
  unfold nearerOf
  split
  · simp
  · intro h
    cases h
    exact hsome rfl
  · intro h
    cases h
    simp
  · have hbelow := hsome rfl
    split
    · rintro ⟨⟩
      exact hbelow
    · split <;> rintro ⟨⟩ <;> omega

theorem scaledUp_ne_zero (hs : significand ≠ 0) : scaledUp significand scale ≠ 0 := by
  have hpos (b e : Nat) (hb : 0 < b) : Nat.pow b e ≠ 0 := (Nat.pow_pos hb).ne'
  unfold scaledUp
  generalize places = e
  exact Nat.mul_ne_zero (Nat.mul_ne_zero hs (hpos 2 scale (by decide))) (hpos 5 e (by decide))

theorem neighbour?_ne_zero (hs : significand ≠ 0) {dropped : Nat} {x : Nat × Int}
    (h : neighbour? significand scale dropped = some x) : x.1 ≠ 0 := by
  obtain ⟨digits, hdigits, rfl⟩ := Option.map_eq_some_iff.mp h
  refine nearerOf_ne_zero ?_ hdigits
  intro hzero
  rw [hzero]
  exact readsAs_zero hs _

/-- The shortest decimal is a neighbour of the exact one, or the exact one itself. -/
theorem shortest_cases {motive : Nat × Int → Prop}
    (exact : motive (scaledUp significand scale, -places))
    (neighbour : ∀ dropped x, neighbour? significand scale dropped = some x → motive x) :
    motive (shortest significand scale) := by
  let search := fun count =>
    neighbour? significand scale (decimalLength (scaledUp significand scale) - count)
  have hshortest : shortest significand scale = ((List.range' 1 17).findSome? search).getD
      (scaledUp significand scale, -places) := rfl
  rw [hshortest]
  cases hfind : (List.range' 1 17).findSome? search with
  | none => exact exact
  | some x =>
    obtain ⟨count, -, hx⟩ := List.exists_of_findSome?_eq_some hfind
    exact neighbour _ x hx

/-- The shortest digits of a positive magnitude are not those of zero. -/
theorem shortest_ne_zero (hs : significand ≠ 0) : (shortest significand scale).1 ≠ 0 :=
  shortest_cases (motive := fun x => x.1 ≠ 0) (scaledUp_ne_zero hs)
    fun _ _ hx => neighbour?_ne_zero hs hx

theorem write_ne_nil (form : NumeralForm) {digits : List Char} (hd : digits ≠ []) (point : Int) :
    form.write digits point ≠ [] := by
  unfold NumeralForm.write
  split
  · simp [hd]
  · split
    · simp
    · split <;> simp

/-- Every number is written somehow. -/
theorem numeral_ne_empty (x : Double) : x.numeral ≠ "" := by
  cases x with
  | nan => decide
  | infinite negative => cases negative <;> decide
  | finite negative significand scale canonical =>
    rw [numeral]
    split
    · decide
    · rename_i hs
      have hchars : magnitudeChars significand scale ≠ [] :=
        write_ne_nil _ (dropZeros_toDigits_ne_nil (shortest_ne_zero hs)) _
      intro he
      have hlist := congrArg String.toList he
      cases negative <;> simp [hchars] at hlist

end CodePrinter.Double
