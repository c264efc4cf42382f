import CodePrinter.Constant
import CodePrinter.Proofs.NearestDoubles
import CodePrinter.Proofs.Python.Spelling

/-! Numerals of doubles, with and without a point or an exponent.

Main statements: a numeral made of digits, perhaps a point and more digits, and perhaps an exponent
is read as the decimal it stands for (`NumeralParts.read?_chars`), every numeral of a finite double
has such parts and rounds to the double (`Double.exists_parts_numeral`), the text of a float has a
point or an exponent among them (`Double.exists_parts_floatText`), and an integer of no more than 53
bits is written as its decimal numeral (`Double.numeral_eq_toString`). -/
namespace CodePrinter

namespace Decimal

theorem digitsFrom_append (n : Nat) (cs ds : List Char) :
    digitsFrom n (cs ++ ds) = digitsFrom (digitsFrom n cs) ds := by
  rw [digitsFrom, List.foldl_append]
  rfl

theorem digitsFrom_zeros (n k : Nat) : digitsFrom n (List.replicate k '0') = n * 10 ^ k := by
  induction k generalizing n with
  | zero => rw [Nat.pow_zero, Nat.mul_one]; rfl
  | succ k ih =>
    have hstep : digitsFrom n (List.replicate (k + 1) '0') =
        digitsFrom (n * 10) (List.replicate k '0') := rfl
    rw [hstep, ih, Nat.pow_succ]
    ring

theorem ofDigits_append_zeros (cs : List Char) (k : Nat) :
    ofDigits (cs ++ List.replicate k '0') = ofDigits cs * 10 ^ k := by
  rw [ofDigits, digitsFrom_append, digitsFrom_zeros]
  rfl

theorem ofDigits_zeros_append (k : Nat) (cs : List Char) :
    ofDigits (List.replicate k '0' ++ cs) = ofDigits cs := by
  rw [ofDigits, digitsFrom_append, digitsFrom_zeros, Nat.zero_mul]
  rfl

end Decimal

/-- The parts of a numeral without a sign: the digits before the point, those after it, where there
is a point, and the exponent, where one is written. -/
structure NumeralParts where
  whole : List Char
  fraction : List Char
  exponent : Option Int
  whole_ne_nil : whole ≠ []
  isDigit_whole : ∀ c ∈ whole, Decimal.isDigit c = true
  isDigit_fraction : ∀ c ∈ fraction, Decimal.isDigit c = true

namespace NumeralParts

def pointChars (fraction : List Char) : List Char :=
  if fraction.isEmpty then [] else '.' :: fraction

def exponentChars : Option Int → List Char
  | none => []
  | some e => 'e' :: (if e < 0 then '-' else '+') :: Nat.toDigits 10 e.natAbs

def chars (p : NumeralParts) : List Char :=
  p.whole ++ (pointChars p.fraction ++ exponentChars p.exponent)

/-- There is a point or an exponent. -/
def IsFloat (p : NumeralParts) : Prop := p.fraction ≠ [] ∨ p.exponent.isSome = true

def decimal (negative : Bool) (p : NumeralParts) : Decimal :=
  { negative, digits := Decimal.ofDigits (p.whole ++ p.fraction)
    exponent := p.exponent.getD 0 - p.fraction.length }

/-- A numeral has no sign but a minus. -/
def signChars (negative : Bool) : List Char := if negative then ['-'] else []

theorem readExponent?_exponentChars (exponent : Option Int) :
    Decimal.readExponent? (exponentChars exponent) = some (exponent.getD 0) := by
  cases exponent with
  | none => rfl
  | some e =>
    have hsign : Decimal.readSign ((if e < 0 then '-' else '+') :: Nat.toDigits 10 e.natAbs) =
        (decide (e < 0), Nat.toDigits 10 e.natAbs) := by
      by_cases he : e < 0
      · rw [if_pos he, decide_eq_true he]
        rfl
      · rw [if_neg he, decide_eq_false he]
        rfl
    have hall : (Nat.toDigits 10 e.natAbs).all Decimal.isDigit = true :=
      List.all_eq_true.mpr fun _ => Python.isDigit_of_mem_toDigits
    have hne : (Nat.toDigits 10 e.natAbs).isEmpty = false := by
      simp
    simp only [exponentChars, Decimal.readExponent?, hsign, hall, hne, Python.ofDigits_toDigits]
    by_cases he : e < 0
    · simp [he, abs_of_neg he]
    · simp [he, abs_of_nonneg (Int.not_lt.mp he)]

theorem readSign_chars (negative : Bool) (p : NumeralParts) :
    Decimal.readSign (signChars negative ++ p.chars) = (negative, p.chars) := by
  cases negative with
  | true => rfl
  | false =>
    obtain ⟨c, cs, hwhole⟩ := List.exists_cons_of_ne_nil p.whole_ne_nil
    have hdigit := p.isDigit_whole c (by simp [hwhole])
    rw [chars, hwhole, signChars, if_neg (by decide), List.nil_append, List.cons_append,
      Decimal.readSign]
    · rintro ds ⟨⟩
      cases hdigit
    · rintro ds ⟨⟩
      cases hdigit

/-- The digits of a run end before a character that is none. -/
theorem span_digits {ds rest : List Char} (hds : ∀ c ∈ ds, Decimal.isDigit c = true)
    (hrest : ∀ c ∈ rest.head?, Decimal.isDigit c = false) :
    (ds ++ rest).takeWhile Decimal.isDigit = ds ∧
      (ds ++ rest).dropWhile Decimal.isDigit = rest := by
  rw [List.takeWhile_append_of_pos hds, List.dropWhile_append_of_pos hds]
  cases rest with
  | nil => simp
  | cons c rest => simp [hrest c rfl]

/-- An exponent does not begin like a number. -/
theorem head?_exponentChars (exponent : Option Int) :
    ∀ c ∈ (exponentChars exponent).head?, c = 'e' := by
  cases exponent <;> simp [exponentChars]

theorem readFraction_chars (p : NumeralParts) :
    Decimal.readFraction (pointChars p.fraction ++ exponentChars p.exponent) =
      (p.fraction, exponentChars p.exponent) := by
  have hhead := head?_exponentChars p.exponent
  by_cases hf : p.fraction = []
  · rw [hf]
    generalize exponentChars p.exponent = cs at hhead
    simp only [pointChars, List.isEmpty_nil, if_true, List.nil_append]
    rw [Decimal.readFraction]
    rintro ds rfl
    exact absurd (hhead '.' rfl) (by decide)
  · have hmark : Decimal.isDigit 'e' = false := rfl
    have hspan := span_digits p.isDigit_fraction fun c hc => hhead c hc ▸ hmark
    simp [pointChars, hf, Decimal.readFraction, hspan]

/-- A numeral is read as what its parts say. -/
theorem read?_chars (negative : Bool) (p : NumeralParts) :
    Decimal.read? (signChars negative ++ p.chars) = some (p.decimal negative) := by
  have hhead : ∀ c ∈ (pointChars p.fraction ++ exponentChars p.exponent).head?,
      Decimal.isDigit c = false := by
    unfold pointChars
    split
    · intro c hc
      rw [head?_exponentChars p.exponent c hc]
      rfl
    · rintro c ⟨⟩
      rfl
  obtain ⟨htake, hdrop⟩ := span_digits p.isDigit_whole hhead
  have hwhole : p.whole.isEmpty = false := by simpa using p.whole_ne_nil
  simp only [Decimal.read?, readSign_chars]
  rw [chars, htake, hdrop, readFraction_chars]
  simp [hwhole, readExponent?_exponentChars, decimal, Decimal.ofDigits, Decimal.digitsFrom_append]

variable {ds : List Char} {k : Nat} {z : Int}

/-- Digits with a point after the first `k`, if there are more, make a numeral. -/
theorem exists_cut (exponent : Option Int) (hne : ds ≠ []) (hk : k ≠ 0)
    (hds : ∀ c ∈ ds, Decimal.isDigit c = true)
    (hz : exponent.getD 0 - (ds.length - k : Nat) = z) :
    ∃ p : NumeralParts,
      p.chars = ds.take k ++ (pointChars (ds.drop k) ++ exponentChars exponent) ∧
      (p.decimal false).magnitude = Decimal.ofDigits ds * 10 ^ z := by
  refine ⟨⟨ds.take k, ds.drop k, exponent, by simp [hne, hk],
    fun c hc => hds c (List.mem_of_mem_take hc), fun c hc => hds c (List.mem_of_mem_drop hc)⟩,
    rfl, ?_⟩
  simp only [Decimal.magnitude, decimal, List.take_append_drop, List.length_drop, hz]

theorem isDigit_of_mem_zeros {c : Char} (h : c ∈ List.replicate k '0') :
    Decimal.isDigit c = true := by
  rw [List.eq_of_mem_replicate h]
  rfl

theorem isDigit_of_mem_zero : ∀ c ∈ ['0'], Decimal.isDigit c = true :=
  fun _ => isDigit_of_mem_zeros (k := 1)

/-- Zeros after the digits of an integer. -/
theorem exists_padded (hne : ds ≠ []) (hds : ∀ c ∈ ds, Decimal.isDigit c = true) (k : Nat) :
    ∃ p : NumeralParts, p.chars = ds ++ List.replicate k '0' ∧
      (p.decimal false).magnitude = Decimal.ofDigits ds * 10 ^ (k : Int) := by
  have hall := List.forall_mem_append.mpr ⟨hds, fun _ => isDigit_of_mem_zeros (k := k)⟩
  obtain ⟨p, hchars, hvalue⟩ := exists_cut (k := (ds ++ List.replicate k '0').length) (z := 0)
    none (by simp [hne]) (by simp [hne]) hall (by simp)
  refine ⟨p, hchars.trans ?_, hvalue.trans ?_⟩
  · rw [List.take_length, List.drop_length]
    simp [pointChars, exponentChars]
  · rw [Decimal.ofDigits_append_zeros]
    simp

/-- Zeros between the point and the digits. -/
theorem exists_small (hne : ds ≠ []) (hds : ∀ c ∈ ds, Decimal.isDigit c = true) (k : Nat) :
    ∃ p : NumeralParts, p.chars = '0' :: '.' :: List.replicate k '0' ++ ds ∧
      (p.decimal false).magnitude = Decimal.ofDigits ds * 10 ^ (-(k : Int) - ds.length) := by
  have hall := List.forall_mem_append.mpr ⟨fun _ => isDigit_of_mem_zeros (k := k + 1), hds⟩
  obtain ⟨p, hchars, hvalue⟩ := exists_cut (z := -(k : Int) - ds.length) none (by simp)
    Nat.one_ne_zero hall (by simp; omega)
  refine ⟨p, hchars.trans ?_, hvalue.trans ?_⟩
  · simp [pointChars, exponentChars, hne, List.replicate_succ]
  · rw [Decimal.ofDigits_zeros_append]

end NumeralParts

/-- What is written for digits and a point is a numeral of `0.digits * 10 ^ point`. -/
theorem NumeralForm.exists_parts_write (form : NumeralForm) {digits : List Char}
    (hne : digits ≠ []) (hdigits : ∀ c ∈ digits, Decimal.isDigit c = true) (point : Int) :
    ∃ p : NumeralParts, p.chars = form.write digits point ∧
      (p.decimal false).magnitude = Decimal.ofDigits digits * 10 ^ (point - digits.length) := by
  have hpos := List.length_pos_iff.mpr hne
  by_cases hinteger : (digits.length ≤ point && point ≤ form.wholeLimit) = true
  · rw [NumeralForm.write, if_pos hinteger]
    simp only [Bool.and_eq_true, decide_eq_true_eq] at hinteger
    obtain ⟨k, hk⟩ := Int.eq_ofNat_of_zero_le (show 0 ≤ point - digits.length by omega)
    rw [hk, Int.toNat_natCast]
    exact NumeralParts.exists_padded hne hdigits k
  by_cases hpoint : (0 < point && point ≤ form.wholeLimit) = true
  · rw [NumeralForm.write, if_neg hinteger, if_pos hpoint]
    simp only [Bool.and_eq_true, decide_eq_true_eq] at hinteger hpoint
    have hless : point.toNat < digits.length := by omega
    obtain ⟨p, hchars, hvalue⟩ := NumeralParts.exists_cut (z := point - digits.length) none hne
      (show point.toNat ≠ 0 by omega) hdigits (by rw [Option.getD_none]; omega)
    refine ⟨p, hchars.trans ?_, hvalue⟩
    simp [NumeralParts.pointChars, NumeralParts.exponentChars, hless]
  by_cases hsmall : (-form.zeroLimit < point && point ≤ 0) = true
  · rw [NumeralForm.write, if_neg hinteger, if_neg hpoint, if_pos hsmall]
    simp only [Bool.and_eq_true, decide_eq_true_eq] at hsmall
    obtain ⟨k, hk⟩ := Int.eq_ofNat_of_zero_le (show 0 ≤ -point by omega)
    obtain rfl : point = -(k : Int) := by omega
    rw [hk, Int.toNat_natCast]
    exact NumeralParts.exists_small hne hdigits k
  · rw [NumeralForm.write, if_neg hinteger, if_neg hpoint, if_neg hsmall]
    obtain ⟨p, hchars, hvalue⟩ := NumeralParts.exists_cut (z := point - digits.length)
      (some (point - 1)) hne Nat.one_ne_zero hdigits (by rw [Option.getD_some]; omega)
    refine ⟨p, hchars.trans ?_, hvalue⟩
    simp only [NumeralParts.pointChars, NumeralParts.exponentChars, List.isEmpty_iff,
      List.drop_eq_nil_iff, List.append_assoc]

namespace Double

variable {significand scale : Nat}

theorem readsAs_iff_isNearest (digits : Nat) (exponent : Int) :
    readsAs significand scale digits exponent = true ↔
      IsNearest (Decimal.units ⟨false, digits, exponent⟩) significand scale := by
  have hpos : 0 < Nat.pow 10 (-exponent).toNat := Nat.pow_pos (by decide)
  rw [readsAs, decide_eq_true_eq, nearestParts_eq_iff hpos, Decimal.units_eq_div]

theorem units_scaledUp (significand scale : Nat) :
    Decimal.units ⟨false, scaledUp significand scale, -places⟩ = significand * 2 ^ scale := by
  have hten : (10 : ℚ) ^ places = 2 ^ places * 5 ^ places := by
    rw [← mul_pow]
    norm_num
  have hpos : (0 : ℚ) < 10 ^ places := by positivity
  rw [Decimal.units, Decimal.magnitude, scaledUp, unitsPerOne_eq, zpow_neg, zpow_natCast]
  simp only [Nat.pow_eq, Nat.cast_mul, Nat.cast_pow, Nat.cast_ofNat]
  field_simp
  rw [hten]
  ring

/-- The shortest decimal of a magnitude. -/
def shortestDecimal (significand scale : Nat) : Decimal :=
  { negative := false, digits := (shortest significand scale).1
    exponent := (shortest significand scale).2 }

/-- The shortest decimal rounds to the double that it was found for. -/
theorem isNearest_shortestDecimal (hc : IsCanonical significand scale) :
    IsNearest (shortestDecimal significand scale).units significand scale := by
  refine shortest_cases (motive := fun x => IsNearest (Decimal.units ⟨false, x.1, x.2⟩) _ _) ?_ ?_
  · rw [units_scaledUp]
    exact isNearest_self hc
  · intro dropped x hx
    obtain ⟨digits, hdigits, rfl⟩ := Option.map_eq_some_iff.mp hx
    rw [← readsAs_iff_isNearest]
    rcases IsInteger.of_nearerOf hdigits with ⟨rfl, hread⟩ | ⟨rfl, hread⟩
    · exact hread
    · exact hread

/-- The numeral of a magnitude stands for the shortest decimal. -/
theorem exists_parts_magnitudeChars (hs : significand ≠ 0) (scale : Nat) :
    ∃ p : NumeralParts, p.chars = magnitudeChars significand scale ∧
      (p.decimal false).magnitude = (shortestDecimal significand scale).magnitude := by
  have hdigits : (shortest significand scale).1 ≠ 0 := shortest_ne_zero hs
  rw [magnitudeChars, shortestDecimal]
  generalize shortest significand scale = decimal at hdigits
  obtain ⟨digits, exponent⟩ := decimal
  obtain ⟨zeros, hzeros⟩ := dropZeros_append (Nat.toDigits 10 digits)
  have hvalue := congrArg Decimal.ofDigits hzeros
  rw [Python.ofDigits_toDigits, Decimal.ofDigits_append_zeros] at hvalue
  have hlength := congrArg List.length hzeros
  rw [List.length_append, List.length_replicate] at hlength
  have hall : ∀ c ∈ dropZeros (Nat.toDigits 10 digits), Decimal.isDigit c = true := by
    intro c hc
    refine Python.isDigit_of_mem_toDigits (n := digits) ?_
    rw [hzeros]
    exact List.mem_append_left _ hc
  obtain ⟨p, hchars, hmagnitude⟩ := numeralForm.exists_parts_write
    (dropZeros_toDigits_ne_nil hdigits) hall ((Nat.toDigits 10 digits).length + exponent)
  refine ⟨p, hchars, hmagnitude.trans ?_⟩
  -- The zeros that are dropped come back as powers of ten.
  have hpoint : ((Nat.toDigits 10 digits).length : Int) + exponent -
      (dropZeros (Nat.toDigits 10 digits)).length = zeros + exponent := by omega
  have hcast : (digits : ℚ) =
      Decimal.ofDigits (dropZeros (Nat.toDigits 10 digits)) * 10 ^ zeros := by
    exact_mod_cast hvalue
  rw [Decimal.magnitude, hcast, hpoint, zpow_add₀ (by norm_num), zpow_natCast, mul_assoc]

/-! Texts. -/

theorem numeral_of_ne_zero (negative : Bool) (hc : IsCanonical significand scale)
    (hs : significand ≠ 0) :
    (Double.finite negative significand scale hc).numeral =
      String.ofList (NumeralParts.signChars negative ++ magnitudeChars significand scale) := by
  have hsign (cs : List Char) :
      (if negative then '-' :: cs else cs) = NumeralParts.signChars negative ++ cs := by
    cases negative <;> rfl
  rw [numeral, if_neg hs]
  exact congrArg String.ofList (hsign _)

/-- Whatever is zero rounds to a double that is zero. -/
theorem isNearest_of_zero (hc : IsCanonical significand scale) (hs : significand = 0)
    {d : Decimal} (hd : d.digits = 0) : IsNearest d.units significand scale := by
  have hself := isNearest_self hc
  have hunits : d.units = significand * 2 ^ scale := by
    rw [Decimal.units, Decimal.magnitude, hd, hs, Nat.cast_zero, zero_mul, zero_mul, zero_mul]
  rwa [hunits]

/-- The numeral of a finite double rounds to it. No sign is written for zero. -/
theorem exists_parts_numeral (negative : Bool) (hc : IsCanonical significand scale) :
    ∃ p : NumeralParts, (Double.finite negative significand scale hc).numeral.toList =
        NumeralParts.signChars (negative && significand ≠ 0) ++ p.chars ∧
      IsNearest (p.decimal false).units significand scale := by
  by_cases hs : significand = 0
  · refine ⟨⟨['0'], [], none, by simp, NumeralParts.isDigit_of_mem_zero, by simp⟩, ?_,
      isNearest_of_zero hc hs rfl⟩
    rw [numeral, if_pos hs, decide_eq_false (not_not.mpr hs), Bool.and_false]
    rfl
  · obtain ⟨p, hchars, hmagnitude⟩ := exists_parts_magnitudeChars hs scale
    refine ⟨p, ?_, ?_⟩
    · rw [numeral_of_ne_zero negative hc hs, String.toList_ofList, decide_eq_true hs, Bool.and_true,
        hchars]
    · rw [Decimal.units_congr hmagnitude]
      exact isNearest_shortestDecimal hc

end Double

namespace NumeralParts

/-- A numeral has a point or an `e` among its characters if it has them among its parts. -/
theorem any_chars (negative : Bool) (p : NumeralParts) :
    (signChars negative ++ p.chars).any (fun c => c = '.' || c = 'e') = true ↔ p.IsFloat := by
  have hdigits : ∀ {ds : List Char}, (∀ c ∈ ds, Decimal.isDigit c = true) →
      ds.any (fun c => c = '.' || c = 'e') = false := by
    intro ds hds
    rw [List.any_eq_false]
    intro c hc h
    have hdigit := hds c hc
    simp only [Bool.or_eq_true, decide_eq_true_eq] at h
    rcases h with rfl | rfl <;> cases hdigit
  have hsign : (signChars negative).any (fun c => c = '.' || c = 'e') = false := by
    cases negative <;> rfl
  rw [chars, List.any_append, List.any_append, List.any_append, hsign, hdigits p.isDigit_whole,
    Bool.false_or, Bool.false_or, Bool.or_eq_true, IsFloat]
  refine or_congr ?_ ?_
  · by_cases hf : p.fraction = [] <;> simp [pointChars, hf]
  · cases p.exponent <;> simp [exponentChars]

/-- An integer can be written with a point and a zero after it. -/
theorem exists_isFloat_append {p : NumeralParts} (h : ¬ p.IsFloat) :
    ∃ p' : NumeralParts, p'.IsFloat ∧ p'.chars = p.chars ++ ['.', '0'] ∧
      (p'.decimal false).magnitude = (p.decimal false).magnitude := by
  obtain ⟨whole, fraction, exponent, hne, hwhole, hfraction⟩ := p
  simp only [IsFloat, not_or, not_not, Bool.not_eq_true, Option.isSome_eq_false_iff,
    Option.isNone_iff_eq_none] at h
  obtain ⟨rfl, rfl⟩ := h
  refine ⟨⟨whole, ['0'], none, hne, hwhole, isDigit_of_mem_zero⟩, .inl (by simp), ?_, ?_⟩
  · simp [chars, pointChars, exponentChars]
  · have hzero := Decimal.ofDigits_append_zeros whole 1
    rw [List.replicate_one, Nat.pow_one] at hzero
    simp only [Decimal.magnitude, decimal, hzero, List.append_nil, Nat.cast_mul, mul_assoc]
    norm_num

end NumeralParts

/-- The text of a finite float has a point or an exponent, and rounds to the float, sign
included. -/
theorem Double.exists_parts_floatText {significand scale : Nat} (negative : Bool)
    (hc : IsCanonical significand scale) :
    ∃ p : NumeralParts, p.IsFloat ∧ (Double.finite negative significand scale hc).floatText.toList =
        NumeralParts.signChars negative ++ p.chars ∧
      IsNearest (p.decimal false).units significand scale := by
  by_cases hz : (negative && significand = 0) = true
  · rw [floatText, if_pos hz]
    simp only [Bool.and_eq_true, decide_eq_true_eq] at hz
    obtain ⟨rfl, hs⟩ := hz
    exact ⟨⟨['0'], ['0'], none, by simp, NumeralParts.isDigit_of_mem_zero,
      NumeralParts.isDigit_of_mem_zero⟩, .inl (by simp), rfl, isNearest_of_zero hc hs rfl⟩
  · obtain ⟨p, htext, hnearest⟩ := exists_parts_numeral negative hc
    have hsign : (negative && decide (significand ≠ 0)) = negative := by
      cases negative <;> simp_all
    rw [hsign] at htext
    rw [floatText, if_neg hz]
    by_cases hp : p.IsFloat
    · refine ⟨p, hp, ?_, hnearest⟩
      rw [if_pos (by rw [htext]; exact (p.any_chars negative).mpr hp), htext]
    · obtain ⟨p', hfloat, hchars, hmagnitude⟩ := NumeralParts.exists_isFloat_append hp
      refine ⟨p', hfloat, ?_, ?_⟩
      · rw [if_neg (by rw [htext]; exact mt (p.any_chars negative).mp hp), String.toList_append,
          htext, hchars, List.append_assoc]
        rfl
      · rwa [Decimal.units_congr hmagnitude]

namespace Double

/-- A negative integer of no more than 53 bits is the opposite of a positive one. -/
theorem of_toSafeInt?_negSucc {x : Double} {n : Nat} (h : x.toSafeInt? = some (.negSucc n)) :
    ∃ significand scale hc, x = .finite true significand scale hc ∧
      IsInteger significand scale (n + 1) := by
  cases x with
  | nan | infinite => cases h
  | finite negative significand scale hc =>
    have hflip : negative = true ∧
        (Double.finite false significand scale hc).toSafeInt? = some ((n + 1 : Nat) : Int) := by
      simp only [toSafeInt?, toInt?, Nat.pow_eq, Option.filter_eq_some_iff,
        decide_eq_true_eq] at h ⊢
      obtain ⟨hint, hlt⟩ := h
      split at hint
      · rename_i hmod
        rw [if_pos hmod]
        generalize significand * 2 ^ scale / unitsPerOne = q at hint
        rw [Option.some.injEq] at hint
        cases negative with
        | false =>
          simp only [signed, Bool.false_eq_true, if_false] at hint
          omega
        | true =>
          simp only [signed, if_true, Bool.false_eq_true, if_false, Option.some.injEq] at hint ⊢
          exact ⟨trivial, by omega, by omega⟩
      · cases hint
    obtain ⟨rfl, hpositive⟩ := hflip
    rcases of_toSafeInt? hpositive with ⟨-, hzero⟩ | ⟨significand', scale', hc', heq, hint⟩
    · cases hzero
    · cases heq
      exact ⟨significand, scale, hc, rfl, hint⟩

/-- An integer of no more than 53 bits is written as its decimal numeral. -/
theorem numeral_eq_toString {x : Double} {n : Int} (h : x.toSafeInt? = some n) :
    x.numeral = toString n := by
  cases n with
  | ofNat n =>
    have htext : toString (Int.ofNat n) = String.ofList (Nat.toDigits 10 n) := rfl
    rw [htext, ← toList_numeral h, String.ofList_toList]
  | negSucc n =>
    obtain ⟨significand, scale, hc, rfl, hint⟩ := of_toSafeInt?_negSucc h
    have htext : toString (Int.negSucc n) = "-" ++ String.ofList (Nat.toDigits 10 (n + 1)) := rfl
    rw [numeral_of_ne_zero true hc hint.ne_zero, magnitudeChars_eq hint, htext,
      String.ofList_append]
    rfl

end Double

end CodePrinter
