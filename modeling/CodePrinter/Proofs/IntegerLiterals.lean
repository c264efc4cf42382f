import CodePrinter.Print.Expr
import CodePrinter.Proofs.IntegerNumerals

/-! Literals of integer types.

Main statements: a 64-bit literal is made if and only if 64 bits hold its value, and the two halves
that it is made of are put together to that value (`makeLiteral_wide`); the constants that a literal
is made of are those that their kinds hold, if the values of an enumeration and of a buffer are
(`constants_inRange_iff`). -/
namespace CodePrinter

namespace Double

variable {n m : Int}

/-- A positive integer of no more than 53 bits is a double. -/
theorem exists_isInteger {k : Nat} (hk : k ≠ 0) (hlt : k < 0x20000000000000) :
    ∃ significand scale, IsInteger significand scale k := by
  obtain ⟨hlow, hhigh⟩ := (Nat.log2_eq_iff hk).mp rfl
  have hlog : k.log2 ≤ 52 := by
    have : k.log2 < 53 := (Nat.log2_lt hk).mpr hlt
    omega
  have hsum : k.log2 + (52 - k.log2) = 52 := by omega
  have hpow : ∀ a, 2 ^ (a + (52 - k.log2)) = 2 ^ a * 2 ^ (52 - k.log2) := fun a => Nat.pow_add 2 a _
  have hpos : 0 < 2 ^ (52 - k.log2) := Nat.two_pow_pos _
  -- shifted until the leading bit is the 53rd
  refine ⟨k * 2 ^ (52 - k.log2), k.log2 + 1022, ⟨?_, by omega, .inr ?_⟩, ?_, ?_, hlt⟩
  · calc k * 2 ^ (52 - k.log2) < 2 ^ (k.log2 + 1) * 2 ^ (52 - k.log2) :=
        Nat.mul_lt_mul_of_pos_right hhigh hpos
      _ = 0x20000000000000 := by rw [← hpow, show k.log2 + 1 + (52 - k.log2) = 53 by omega]; rfl
  · calc 0x10000000000000 = 2 ^ k.log2 * 2 ^ (52 - k.log2) := by rw [← hpow, hsum]; rfl
      _ ≤ k * 2 ^ (52 - k.log2) := Nat.mul_le_mul_right _ hlow
  · exact Nat.mul_ne_zero hk (Nat.pos_iff_ne_zero.mp hpos)
  · have hplaces : 52 - k.log2 + (k.log2 + 1022) = places := by
      have : places = 1074 := rfl
      omega
    rw [Nat.mul_assoc, ← Nat.pow_add, hplaces]

theorem signed_natAbs (n : Int) : signed (n < 0) n.natAbs = n := by
  by_cases hn : n < 0
  · simp only [signed, hn, decide_true, if_true]
    omega
  · simp only [signed, hn, decide_false, Bool.false_eq_true, if_false]
    omega

theorem toInt?_ofInt (h : n.natAbs < 0x20000000000000) : (ofInt n).toInt? = some n := by
  by_cases hn : n = 0
  · subst hn
    decide +kernel
  · obtain ⟨significand, scale, hint⟩ := exists_isInteger (by omega) h
    have hparts : nearestParts (n.natAbs * unitsPerOne) 1 = (significand, scale) := by
      rw [unitsPerOne_eq, ← hint.units]
      exact nearestParts_self hint.canonical hint.ne_zero
    have hpos : 0 < 2 ^ places := Nat.two_pow_pos _
    rw [ofInt, nearest_of_parts hparts hint.canonical]
    simp only [toInt?, Nat.pow_eq, hint.units, unitsPerOne_eq, Nat.mul_mod_left, if_true,
      Nat.mul_div_cancel _ hpos, signed_natAbs]

theorem units_of_nearestParts {a k significand scale : Nat} (hk : 0x20000000000000 ≤ k)
    (h : nearestParts (k * 2 ^ a) 1 = (significand, scale))
    (hc : IsCanonical significand scale) :
    0x20000000000000 ≤ significand * 2 ^ scale / 2 ^ a := by
  rw [Nat.le_div_iff_mul_le (Nat.two_pow_pos a)]
  have hlog : 53 ≤ k.log2 := (Nat.le_log2 (by omega)).mpr hk
  have hscale := le_scale_nearestParts (k * 2 ^ a)
  rw [h, log2_mul_two_pow (by omega)] at hscale
  have hnormal : 0x10000000000000 ≤ significand := by
    rcases hc.2.2 with hzero | hlow
    · omega
    · exact hlow
  calc 0x20000000000000 * 2 ^ a = 0x10000000000000 * 2 ^ (a + 1) := by rw [Nat.pow_succ]; ring
    _ ≤ significand * 2 ^ scale :=
      Nat.mul_le_mul hnormal (Nat.pow_le_pow_right (by decide) (by omega))

/-- A double of a greater integer is none of the lesser ones. -/
theorem le_natAbs_of_toInt?_ofInt (hn : 0x20000000000000 ≤ n.natAbs)
    (h : (ofInt n).toInt? = some m) : 0x20000000000000 ≤ m.natAbs := by
  rcases hparts : nearestParts (n.natAbs * unitsPerOne) 1 with ⟨significand, scale⟩
  by_cases hc : IsCanonical significand scale
  · rw [ofInt, nearest_of_parts hparts hc] at h
    rw [unitsPerOne_eq] at hparts
    simp only [toInt?, Nat.pow_eq, unitsPerOne_eq] at h
    split at h
    · cases h
      have hunits := units_of_nearestParts (a := places) hn hparts hc
      generalize significand * 2 ^ scale / 2 ^ places = magnitude at hunits
      unfold signed
      split <;> omega
    · cases h
  · rw [ofInt, nearest, hparts] at h
    simp [hc, toInt?] at h

end Double

/-- The kind of 64-bit integers with or without a sign. -/
def ExtendedKind.wide (unsigned : Bool) : ExtendedKind := if unsigned then .uint64 else .int64

/-- What 64 bits stand for, in two's complement if there is a sign. -/
def readBits (unsigned : Bool) (bits : BitVec 64) : Int :=
  if unsigned then bits.toNat else bits.toInt

/-- What 64 bits can stand for. -/
def InWide : (unsigned : Bool) → (n : Int) → Prop
  | true, n => 0 ≤ n ∧ n < 2 ^ 64
  | false, n => -2 ^ 63 ≤ n ∧ n < 2 ^ 63

instance : (unsigned : Bool) → (n : Int) → Decidable (InWide unsigned n)
  | true, _ => inferInstanceAs (Decidable (_ ∧ _))
  | false, _ => inferInstanceAs (Decidable (_ ∧ _))

/-- An expression is a call that puts the two halves of an integer together. -/
def PutsTogether (names : RuntimeNames) (unsigned : Bool) (n : Int) (loc : Option Location)
    (e : Expr) : Prop :=
  ∃ (low high : Nat) (x y : Double), x.toInt? = some (low : Int) ∧ y.toInt? = some (high : Int) ∧
    low < 2 ^ 32 ∧ high < 2 ^ 32 ∧
    readBits unsigned (BitVec.ofNat 64 (low + high * 2 ^ 32)) = n ∧
    e = .call (.attr (.name names.long) names.longFromBits)
      [.number x .float64, .number y .float64, .bool unsigned] [] loc

/-- A literal is a mismatch: it stops a pass and leaves no trace, or it is reported once and `None`
stands for it. -/
structure Mismatches (set : Settings) (type : SemanticType) (value : LiteralValue)
    (loc : Option Location) : Prop where
  stops : set.policy = .fatal → ∃ e : CompileError, e.stage = .builder ∧ e.loc = loc ∧
    e.message = "Unexpected type " ++ type.format ++ ", literal " ++ value.describe ∧
    (∀ ds, type.makeLiteral set value loc ds = .error e) ∧
    ∀ p, (Expr.typedLiteral type value loc).render set p =
      { pass := p, failure := some (.compile e) }
  recovers : set.policy = .recover → ∃ d : Diagnostic, d.severity = .error ∧ d.code = "PY002" ∧
    d.message = "Unexpected type " ++ type.format ++ ", literal " ++ value.describe ∧
    d.loc = loc ∧ d.fileName = set.fileName ∧
    ∀ ds, type.makeLiteral set value loc ds = .ok (.noneValue loc, ds ++ [d])

variable {set : Settings} {unsigned : Bool} {type : SemanticType} {value : LiteralValue}
  {loc : Option Location} {ds : List Diagnostic} {n : Int}

theorem limbs_lt (n : Int) :
    (LiteralForm.limbs n).1 < 2 ^ 32 ∧ (LiteralForm.limbs n).2 < 2 ^ 32 := by
  unfold LiteralForm.limbs
  dsimp only
  omega

theorem limbs_add (n : Int) :
    (LiteralForm.limbs n).1 + (LiteralForm.limbs n).2 * 2 ^ 32 = (n % 2 ^ 64).toNat := by
  unfold LiteralForm.limbs
  dsimp only
  omega

theorem readBits_ofNat (h : InWide unsigned n) :
    readBits unsigned (BitVec.ofNat 64 (n % 2 ^ 64).toNat) = n := by
  cases unsigned with
  | true =>
    obtain ⟨hlow, hhigh⟩ := h
    rw [readBits, if_pos rfl, BitVec.toNat_ofNat]
    omega
  | false =>
    obtain ⟨hlow, hhigh⟩ := h
    rw [readBits, if_neg Bool.false_ne_true, BitVec.toInt_eq_toNat_bmod, BitVec.toNat_ofNat,
      Int.bmod_def]
    omega

theorem toInt?_ofInt_limb {k : Nat} (h : k < 2 ^ 32) : (Double.ofInt k).toInt? = some (k : Int) :=
  Double.toInt?_ofInt (by omega)

theorem putsTogether_long (names : RuntimeNames) (loc : Option Location) (h : InWide unsigned n) :
    PutsTogether names unsigned n loc ((LiteralForm.long names n unsigned).toExpr loc) := by
  obtain ⟨hlow, hhigh⟩ := limbs_lt n
  refine ⟨_, _, _, _, toInt?_ofInt_limb hlow, toInt?_ofInt_limb hhigh, hlow, hhigh, ?_, rfl⟩
  rw [limbs_add, readBits_ofNat h]

theorem holds_wide_iff : (ExtendedKind.wide unsigned).holds n = true ↔ InWide unsigned n := by
  cases unsigned with
  | true | false =>
    simp [InWide, ExtendedKind.wide, ExtendedKind.holds, ExtendedKind.bounds?]
    omega

theorem literal?_wide (names : RuntimeNames) (unsigned : Bool) (value : LiteralValue) :
    (SemanticType.extended (.wide unsigned)).literal? names value =
      (value.toInt?.filter fun n => InWide unsigned n).map (LiteralForm.long names · unsigned) := by
  have hholds : (ExtendedKind.wide unsigned).holds = fun n => decide (InWide unsigned n) := by
    funext n
    rw [← Bool.coe_iff_coe, holds_wide_iff, decide_eq_true_iff]
  rw [← hholds]
  cases unsigned <;> rfl

theorem makeLiteral_of_literal? {form : LiteralForm} (h : type.literal? set.names value = some form)
    (loc : Option Location) (ds : List Diagnostic) :
    type.makeLiteral set value loc ds = .ok (form.toExpr loc, ds) := by
  simp [SemanticType.makeLiteral, SemanticType.lowerLiteral, h]

theorem mismatches_of_literal? (h : type.literal? set.names value = none)
    (hp : type.literalProblem value = .mismatch type value) (loc : Option Location) :
    Mismatches set type value loc := by
  have hlower : type.lowerLiteral set.names value =
      (.constant .none, some (.mismatch type value)) := by
    rw [SemanticType.lowerLiteral, h]
    simp only [hp]
  constructor
  · intro hfatal
    refine ⟨{ message := (Problem.mismatch type value).message, stage := .builder, loc },
      rfl, rfl, rfl, ?_, ?_⟩
    · intro ds
      simp only [SemanticType.makeLiteral, hlower, Problem.report, hfatal]
      rfl
    · intro p
      rw [Expr.render, Expr.fragment, Fragment.typedLiteral, hlower]
      simp only [Fragment.bare, Fragment.ofProblem, List.cons_append, perform_cons]
      simp only [Instr.perform, Pass.problem, Problem.report, hfatal]
      rfl
  · intro hrecover
    refine ⟨⟨.error, Problem.mismatchCode, (Problem.mismatch type value).message, loc,
      set.fileName⟩, rfl, rfl, rfl, rfl, rfl, ?_⟩
    intro ds
    simp only [SemanticType.makeLiteral, hlower, Problem.report, hrecover]
    rfl

theorem makeLiteral_of_inWide (hn : InWide unsigned n) (h : value.toInt? = some n) :
    (SemanticType.extended (.wide unsigned)).makeLiteral set value loc ds =
      .ok ((LiteralForm.long set.names n unsigned).toExpr loc, ds) := by
  apply makeLiteral_of_literal?
  rw [literal?_wide, h, Option.filter_some_pos (by simpa using hn)]
  rfl

theorem mismatches_wide (h : ∀ n, value.toInt? = some n → ¬ InWide unsigned n) :
    Mismatches set (.extended (.wide unsigned)) value loc := by
  refine mismatches_of_literal? ?_ rfl loc
  rw [literal?_wide, Option.map_eq_none_iff, Option.filter_eq_none_iff]
  intro n hn
  simpa using h n hn

/-- A report is no success. -/
theorem Mismatches.ne_ok (h : Mismatches set type value loc) (e : Expr) :
    type.makeLiteral set value loc ds ≠ .ok (e, ds) := by
  intro hok
  cases hp : set.policy with
  | fatal =>
    obtain ⟨error, -, -, -, hmake, -⟩ := h.stops hp
    rw [hmake] at hok
    cases hok
  | recover =>
    obtain ⟨d, -, -, -, -, -, hmake⟩ := h.recovers hp
    rw [hmake] at hok
    simp at hok

theorem toSafeInt?_eq_some_iff {x : Double} :
    x.toSafeInt? = some n ↔ x.toInt? = some n ∧ n.natAbs < 2 ^ 53 := by
  rw [Double.toSafeInt?, Option.filter_eq_some_iff, decide_eq_true_iff]
  rfl

/-- Of the numbers, those that are safe integers make the literals of the unbounded integers that
are equal to them, and no other makes a literal. -/
theorem makeLiteral_wide (set : Settings) (unsigned : Bool) (loc : Option Location) :
    let type := SemanticType.extended (.wide unsigned)
    (∀ n, InWide unsigned n → ∃ e, PutsTogether set.names unsigned n loc e ∧
      ∀ ds, type.makeLiteral set (.bigint n) loc ds = .ok (e, ds)) ∧
    (∀ n, ¬ InWide unsigned n → Mismatches set type (.bigint n) loc) ∧
    (∀ x n, x.toInt? = some n → InWide unsigned n →
      ((∀ ds, type.makeLiteral set (.number x) loc ds = type.makeLiteral set (.bigint n) loc ds) ↔
        n.natAbs < 2 ^ 53)) ∧
    ∀ x, (∀ n, x.toInt? = some n → n.natAbs < 2 ^ 53 → ¬ InWide unsigned n) →
      Mismatches set type (.number x) loc := by
  intro type
  have hnumber : ∀ x, (∀ n, x.toInt? = some n → n.natAbs < 2 ^ 53 → ¬ InWide unsigned n) →
      Mismatches set type (.number x) loc := by
    intro x hx
    apply mismatches_wide
    intro n hn
    obtain ⟨hint, hlt⟩ := toSafeInt?_eq_some_iff.mp hn
    exact hx n hint hlt
  refine ⟨?_, ?_, ?_, hnumber⟩
  · intro n hn
    exact ⟨_, putsTogether_long set.names loc hn, fun ds => makeLiteral_of_inWide hn rfl⟩
  · intro n hn
    apply mismatches_wide
    rintro m ⟨⟩
    exact hn
  · intro x n hx hn
    have hbigint : ∀ ds, type.makeLiteral set (.bigint n) loc ds = _ :=
      fun ds => makeLiteral_of_inWide hn rfl
    constructor
    · intro hsame
      by_contra hlt
      have hmismatch : Mismatches set type (.number x) loc := by
        apply hnumber
        intro m hm hsafe
        obtain rfl : n = m := Option.some.inj (hx.symm.trans hm)
        exact absurd hsafe hlt
      exact hmismatch.ne_ok _ ((hsame []).trans (hbigint []))
    · intro hlt ds
      rw [hbigint]
      exact makeLiteral_of_inWide hn (toSafeInt?_eq_some_iff.mpr ⟨hx, hlt⟩)

/-! What the constants of a literal hold. -/

mutual

/-- The constants in an expression, from left to right. -/
def Expr.constants : Expr → List Constant
  | .constant value _ => [value]
  | .name _ _ | .typedLiteral _ _ _ | .unknown _ _ => []
  | .call func args keywords _ =>
    func.constants ++ exprsConstants args ++ keywordsConstants keywords
  | .attr value _ _ | .unary _ value _ | .starred value _ | .yieldFrom value _
  | .typeTest _ value _ => value.constants
  | .subscript left right _ | .binary left _ right _ | .named left right _ =>
    left.constants ++ right.constants
  | .boolean _ values _ | .tuple values _ | .list values _ | .set values _ | .emit _ values _ =>
    exprsConstants values
  | .compare left _ comparators _ => left.constants ++ exprsConstants comparators
  | .conditional test body orElse _ => body.constants ++ test.constants ++ orElse.constants
  | .lambda params body _ => params.constants ++ body.constants
  | .dict keys values _ => exprsConstants keys ++ exprsConstants values
  | .yield value _ => optionConstants value
  | .formattedValue value formatSpec _ => value.constants ++ optionConstants formatSpec

def exprsConstants : List Expr → List Constant
  | [] => []
  | e :: es => e.constants ++ exprsConstants es

def optionConstants : Option Expr → List Constant
  | none => []
  | some e => e.constants

def keywordsConstants : List Keyword → List Constant
  | [] => []
  | .mk _ value :: ks => value.constants ++ keywordsConstants ks

def paramsConstants : List Param → List Constant
  | [] => []
  | .mk _ hint :: ps => optionConstants hint ++ paramsConstants ps

def optionParamConstants : Option Param → List Constant
  | none => []
  | some (.mk _ hint) => optionConstants hint

def Params.constants : Params → List Constant
  | .mk posOnly regular varArg defaults =>
    paramsConstants posOnly ++ paramsConstants regular ++ optionParamConstants varArg ++
      exprsConstants defaults

end

/-- An integer is within the bounds of a kind, if it has any. -/
def NumberKind.InBounds (kind : NumberKind) (n : Int) : Prop :=
  ∀ least greatest, kind.bounds? = some (least, greatest) → least ≤ n ∧ n ≤ greatest

/-- A constant of an integer kind is an integer within its bounds. -/
def Constant.InRange : Constant → Prop
  | .number x kind => kind.isFloat = false → ∃ n, x.toInt? = some n ∧ kind.InBounds n
  | _ => True

/-- The value of an enumeration and the values of a buffer are within the bounds of their kind.
Nothing is asked of other values: they are checked when a literal is made of them. -/
def SemanticType.Fits : SemanticType → LiteralValue → Prop
  | .enum _ kind, .number x => ∀ n, x.toInt? = some n → kind.InBounds n
  | .array (.number kind), .buffer _ values => ∀ n ∈ values, kind.InBounds n
  | _, _ => True

variable {kind : NumberKind} {x : Double}

theorem exprsConstants_constants (cs : List Constant) :
    exprsConstants (cs.map fun c => .constant c) = cs := by
  induction cs with
  | nil => rfl
  | cons c cs ih => simp [exprsConstants, Expr.constants, ih]

/-- The constants that a literal is made of. -/
def LiteralForm.constants : LiteralForm → List Constant
  | .constant value => [value]
  | .construct _ _ args => args
  | .sequence items => items

theorem constants_toExpr (form : LiteralForm) (loc : Option Location) :
    (form.toExpr loc).constants = form.constants := by
  cases form with
  | constant value => rfl
  | construct callee member args =>
    cases member <;>
      simp [LiteralForm.toExpr, Expr.apply, Expr.reference, Expr.constants,
        exprsConstants_constants, keywordsConstants, LiteralForm.constants]
  | sequence items =>
    simp [LiteralForm.toExpr, Expr.constants, exprsConstants_constants, LiteralForm.constants]

theorem inBounds_of_isFloat (h : kind.isFloat = true) (n : Int) : kind.InBounds n := by
  intro least greatest hb
  simp [NumberKind.isFloat, hb] at h

theorem inRange_of_isFloat (h : kind.isFloat = true) (x : Double) :
    (Constant.number x kind).InRange := by
  intro hfalse
  rw [h] at hfalse
  cases hfalse

theorem inRange_of_holds (h : kind.holds x = true) : (Constant.number x kind).InRange := by
  intro _
  unfold NumberKind.holds at h
  split at h
  · rename_i low high m hb hm
    refine ⟨m, hm, ?_⟩
    intro least greatest hbounds
    obtain ⟨rfl, rfl⟩ := Prod.mk.inj (Option.some.inj (hb.symm.trans hbounds))
    simpa using h
  · cases h

/-- The bounds of every kind are such that doubles tell their integers apart. -/
theorem bounds?_lt {least greatest : Int} (h : kind.bounds? = some (least, greatest)) :
    least.natAbs < 2 ^ 53 ∧ greatest.natAbs < 2 ^ 53 := by
  cases kind <;> cases h <;> decide

theorem inRange_iff_of_toInt? (h : x.toInt? = some n) :
    (Constant.number x kind).InRange ↔ kind.InBounds n := by
  by_cases hfloat : kind.isFloat = true
  · exact iff_of_true (inRange_of_isFloat hfloat x) (inBounds_of_isFloat hfloat n)
  · constructor
    · intro hr
      obtain ⟨m, hm, hb⟩ := hr (by simpa using hfloat)
      rw [h] at hm
      cases hm
      exact hb
    · intro hb _
      exact ⟨n, h, hb⟩

theorem inRange_ofInt_iff : (Constant.number (.ofInt n) kind).InRange ↔ kind.InBounds n := by
  by_cases hlt : n.natAbs < 2 ^ 53
  · exact inRange_iff_of_toInt? (Double.toInt?_ofInt hlt)
  · cases hb : kind.bounds? with
    | none =>
      have hfloat : kind.isFloat = true := by simp [NumberKind.isFloat, hb]
      exact iff_of_true (inRange_of_isFloat hfloat _) (inBounds_of_isFloat hfloat n)
    | some bounds =>
      obtain ⟨hleast, hgreatest⟩ := bounds?_lt hb
      -- what is rounded is beyond the bounds, and so is what it is rounded to
      refine iff_of_false ?_ ?_
      · intro h
        obtain ⟨m, hm, hin⟩ := h (by simp [NumberKind.isFloat, hb])
        have hbeyond := Double.le_natAbs_of_toInt?_ofInt (by omega) hm
        have := hin _ _ hb
        omega
      · intro hin
        have := hin _ _ hb
        omega

theorem inRange_of_extended {names : RuntimeNames} {kind : ExtendedKind} {form : LiteralForm}
    (h : kind.literal? names value = some form) : ∀ c ∈ form.constants, c.InRange := by
  have hfloat : ∀ x, (Constant.number x .float64).InRange := inRange_of_isFloat rfl
  have hbool : ∀ b, (Constant.bool b).InRange := fun _ => trivial
  cases kind with
  | int64 | uint64 | decimal =>
    obtain ⟨n, -, rfl⟩ := Option.map_eq_some_iff.mp h
    simp [LiteralForm.long, LiteralForm.constants, hfloat, hbool]
  | bigint => cases h

theorem inRange_iff_fits {names : RuntimeNames} {form : LiteralForm}
    (h : type.literal? names value = some form) :
    (∀ c ∈ form.constants, c.InRange) ↔ type.Fits value := by
  have hone : ∀ c, form = .constant c → c.InRange → ∀ c ∈ form.constants, c.InRange := by
    rintro c rfl hc d hd
    obtain rfl := List.mem_singleton.mp hd
    exact hc
  unfold SemanticType.literal? at h
  split at h
  · exact iff_of_true (inRange_of_extended h) trivial
  · rename_i x
    cases h
    refine iff_of_true ?_ trivial
    intro c hc
    obtain rfl := List.mem_singleton.mp hc
    exact inRange_of_isFloat rfl x
  · rename_i x
    cases h
    exact iff_of_true (hone _ rfl (inRange_of_isFloat rfl x)) trivial
  · rename_i kind x _ _
    split at h
    · rename_i hx
      cases h
      exact iff_of_true (hone _ rfl (inRange_of_holds hx)) trivial
    · cases h
  · cases h
    exact iff_of_true (hone _ rfl trivial) trivial
  · cases h
    exact iff_of_true (hone _ rfl trivial) trivial
  · split at h
    · cases h
      exact iff_of_true (hone _ rfl trivial) trivial
    · cases h
  · rename_i name kind x
    split at h
    · rename_i hx
      cases h
      obtain ⟨n, hn⟩ := Option.isSome_iff_exists.mp hx
      simp [LiteralForm.constants, SemanticType.Fits, inRange_iff_of_toInt? hn, hn]
    · cases h
  · cases h
    exact iff_of_true (hone _ rfl trivial) trivial
  · rename_i kind buffer values
    cases h
    simp [LiteralForm.constants, SemanticType.Fits, inRange_ofInt_iff]
  · cases h

/-- What is made without a report has a form. -/
theorem literal?_of_makeLiteral {e : Expr}
    (h : type.makeLiteral set value loc ds = .ok (e, ds)) :
    ∃ form, type.literal? set.names value = some form ∧ e = form.toExpr loc := by
  cases hform : type.literal? set.names value with
  | some form =>
    rw [makeLiteral_of_literal? hform] at h
    cases h
    exact ⟨form, rfl, rfl⟩
  | none =>
    simp only [SemanticType.makeLiteral, SemanticType.lowerLiteral, hform, Problem.report,
      FailurePolicy.report] at h
    split at h
    · cases h
    · simp [Except.map] at h

/-- The constants of a literal that is made without a report are in range, but for the value of an
enumeration and the values of a buffer: nothing is made sure of about those. -/
theorem constants_inRange_iff {e : Expr} (h : type.makeLiteral set value loc ds = .ok (e, ds)) :
    (∀ c ∈ e.constants, c.InRange) ↔ type.Fits value := by
  obtain ⟨form, hform, rfl⟩ := literal?_of_makeLiteral h
  rw [constants_toExpr]
  exact inRange_iff_fits hform

theorem constants_inRange_iff_enum : ∃ e : Expr,
    (SemanticType.enum "Level" .uint8).makeLiteral {} (.number (.ofInt 300)) none [] =
      .ok (e, []) ∧ ¬ ∀ c ∈ e.constants, c.InRange := by
  have hx : (Double.ofInt 300).toInt? = some 300 := Double.toInt?_ofInt (by decide)
  have h : (SemanticType.enum "Level" .uint8).makeLiteral {} (.number (.ofInt 300)) none [] =
      .ok (.apply (.name "Level") [.number (.ofInt 300) .uint8], []) := by
    simp [SemanticType.makeLiteral, SemanticType.lowerLiteral, SemanticType.literal?, hx]
    rfl
  refine ⟨_, h, ?_⟩
  rw [constants_inRange_iff h]
  intro hfits
  obtain ⟨-, hle⟩ := hfits 300 hx 0 255 rfl
  omega

end CodePrinter
