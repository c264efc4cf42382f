import CodePrinter.Proofs.NumeralParts
import CodePrinter.Proofs.Runs

/-! Number constants as Python reads them.

Main statement: the text of a finite float is a float literal that rounds to the float again, the
text of an integer is its decimal numeral, a text that begins with a minus is known to be negative,
and no operand but a name begins with a minus (`number_constants_faithful`). -/
namespace CodePrinter.Python

/-! The number literals of the language. -/

/-- Digits of some kind, with an underscore between two of them here and there. -/
inductive DigitPart (isDigit : Char → Bool) : List Char → Prop
  | digit {c : Char} (hc : isDigit c = true) : DigitPart isDigit [c]
  | next {c : Char} {cs : List Char} (hc : isDigit c = true) (hcs : DigitPart isDigit cs) :
    DigitPart isDigit (c :: cs)
  | grouped {c : Char} {cs : List Char} (hc : isDigit c = true) (hcs : DigitPart isDigit cs) :
    DigitPart isDigit (c :: '_' :: cs)

inductive PointFloat : List Char → Prop
  | fraction {cs : List Char} (hcs : DigitPart Decimal.isDigit cs) : PointFloat ('.' :: cs)
  | mixed {cs ds : List Char} (hcs : DigitPart Decimal.isDigit cs)
    (hds : DigitPart Decimal.isDigit ds) : PointFloat (cs ++ '.' :: ds)
  | whole {cs : List Char} (hcs : DigitPart Decimal.isDigit cs) : PointFloat (cs ++ ['.'])

inductive ExponentPart : List Char → Prop
  | plain {e : Char} {cs : List Char} (he : e = 'e' ∨ e = 'E')
    (hcs : DigitPart Decimal.isDigit cs) : ExponentPart (e :: cs)
  | signed {e sign : Char} {cs : List Char} (he : e = 'e' ∨ e = 'E') (hs : sign = '+' ∨ sign = '-')
    (hcs : DigitPart Decimal.isDigit cs) : ExponentPart (e :: sign :: cs)

inductive FloatLiteral : List Char → Prop
  | point {cs : List Char} (hcs : PointFloat cs) : FloatLiteral cs
  | exponent {cs es : List Char} (hcs : DigitPart Decimal.isDigit cs) (hes : ExponentPart es) :
    FloatLiteral (cs ++ es)
  | pointExponent {cs es : List Char} (hcs : PointFloat cs) (hes : ExponentPart es) :
    FloatLiteral (cs ++ es)

/-- The digits after the mark of a base other than ten. -/
def radixDigit? : Char → Option (Char → Bool)
  | 'b' | 'B' => some fun c => c = '0' || c = '1'
  | 'o' | 'O' => some fun c => '0' ≤ c && c ≤ '7'
  | 'x' | 'X' => some fun c =>
    Decimal.isDigit c || ('a' ≤ c && c ≤ 'f') || ('A' ≤ c && c ≤ 'F')
  | _ => none

inductive IntegerLiteral : List Char → Prop
  | decimal {cs : List Char} (hcs : DigitPart Decimal.isDigit cs) (hc : cs.head? ≠ some '0') :
    IntegerLiteral cs
  | zero {cs : List Char} (hcs : DigitPart (· = '0') cs) : IntegerLiteral cs
  | radix {mark : Char} {isDigit : Char → Bool} {cs : List Char}
    (hm : radixDigit? mark = some isDigit) (hcs : DigitPart isDigit cs) :
    IntegerLiteral ('0' :: mark :: cs)
  | radixGrouped {mark : Char} {isDigit : Char → Bool} {cs : List Char}
    (hm : radixDigit? mark = some isDigit) (hcs : DigitPart isDigit cs) :
    IntegerLiteral ('0' :: mark :: '_' :: cs)

variable {cs ds rest : List Char} {c : Char}

theorem digitPart_of_forall {isDigit : Char → Bool} (hne : cs ≠ [])
    (h : ∀ c ∈ cs, isDigit c = true) : DigitPart isDigit cs := by
  induction cs with
  | nil => exact absurd rfl hne
  | cons c cs ih =>
    rw [List.forall_mem_cons] at h
    cases cs with
    | nil => exact .digit h.1
    | cons d ds => exact .next h.1 (ih (by simp) h.2)

theorem DigitPart.head {isDigit : Char → Bool} (h : DigitPart isDigit cs) :
    ∃ c ds, cs = c :: ds ∧ isDigit c = true := by
  cases h with
  | digit hc => exact ⟨_, [], rfl, hc⟩
  | next hc => exact ⟨_, _, rfl, hc⟩
  | grouped hc => exact ⟨_, _, rfl, hc⟩

/-- A point or the mark of an exponent. -/
def IsFloatMark (c : Char) : Prop := c = '.' ∨ c = 'e' ∨ c = 'E'

theorem DigitPart.not_isFloatMark {isDigit : Char → Bool}
    (hsub : ∀ c, isDigit c = true → Decimal.isDigit c = true) (h : DigitPart isDigit cs) :
    ∀ c ∈ cs, ¬ IsFloatMark c := by
  have hdigit : ∀ c, isDigit c = true → ¬ IsFloatMark c := by
    rintro c hc (rfl | rfl | rfl) <;> cases hsub _ hc
  have hunderscore : ¬ IsFloatMark '_' := by
    rintro (h | h | h) <;> cases h
  induction h with
  | digit hc => simpa using hdigit _ hc
  | next hc hcs ih => exact List.forall_mem_cons.mpr ⟨hdigit _ hc, ih⟩
  | grouped hc hcs ih =>
    exact List.forall_mem_cons.mpr ⟨hdigit _ hc, List.forall_mem_cons.mpr ⟨hunderscore, ih⟩⟩

theorem PointFloat.mem (h : PointFloat cs) : '.' ∈ cs := by
  cases h <;> simp

theorem ExponentPart.head (h : ExponentPart cs) : ∃ c ds, cs = c :: ds ∧ IsFloatMark c := by
  cases h with
  | plain he => exact ⟨_, _, rfl, .inr he⟩
  | signed he => exact ⟨_, _, rfl, .inr he⟩

theorem FloatLiteral.exists_isFloatMark (h : FloatLiteral cs) : ∃ c ∈ cs, IsFloatMark c := by
  cases h with
  | point hcs => exact ⟨'.', hcs.mem, .inl rfl⟩
  | exponent hcs hes =>
    obtain ⟨c, ds, rfl, hc⟩ := hes.head
    exact ⟨c, by simp, hc⟩
  | pointExponent hcs => exact ⟨'.', List.mem_append_left _ hcs.mem, .inl rfl⟩

/-- The second character is not the mark of a base. -/
def Unmarked (cs : List Char) : Prop := ∀ mark ∈ (cs.drop 1).head?, radixDigit? mark = none

theorem radixDigit?_of_isDigit (h : Decimal.isDigit c = true) : radixDigit? c = none := by
  unfold radixDigit?
  split <;> first | rfl | cases h

theorem DigitPart.unmarked_append (h : DigitPart Decimal.isDigit cs)
    (hds : ∃ c rest, ds = c :: rest ∧ IsFloatMark c) : Unmarked (cs ++ ds) := by
  obtain ⟨c, rest, rfl, hc⟩ := hds
  have hmark : radixDigit? c = none := by
    rcases hc with rfl | rfl | rfl <;> rfl
  cases h with
  | digit => simpa [Unmarked] using hmark
  | next _ hcs =>
    obtain ⟨d, ds, rfl, hd⟩ := hcs.head
    simpa [Unmarked] using radixDigit?_of_isDigit hd
  | grouped => simp [Unmarked, radixDigit?]

theorem PointFloat.unmarked_append (h : PointFloat cs) (ds : List Char) : Unmarked (cs ++ ds) := by
  cases h with
  | fraction hcs =>
    obtain ⟨d, ds, rfl, hd⟩ := hcs.head
    simpa [Unmarked] using radixDigit?_of_isDigit hd
  | mixed hcs =>
    rw [List.append_assoc]
    exact hcs.unmarked_append ⟨'.', _, rfl, .inl rfl⟩
  | whole hcs =>
    rw [List.append_assoc]
    exact hcs.unmarked_append ⟨'.', _, rfl, .inl rfl⟩

theorem FloatLiteral.unmarked (h : FloatLiteral cs) : Unmarked cs := by
  cases h with
  | point hcs => simpa using hcs.unmarked_append []
  | exponent hcs hes => exact hcs.unmarked_append hes.head
  | pointExponent hcs => exact hcs.unmarked_append _

/-- No float literal is an integer literal. -/
theorem FloatLiteral.not_integerLiteral (h : FloatLiteral cs) : ¬ IntegerLiteral cs := by
  obtain ⟨c, hc, hmark⟩ := h.exists_isFloatMark
  have hunmarked := h.unmarked
  rintro (⟨hcs⟩ | ⟨hcs⟩ | ⟨hm⟩ | ⟨hm⟩)
  · exact hcs.not_isFloatMark (fun _ => id) c hc hmark
  · refine hcs.not_isFloatMark ?_ c hc hmark
    intro d hd
    rw [of_decide_eq_true hd]
    rfl
  · rw [hunmarked _ rfl] at hm
    cases hm
  · rw [hunmarked _ rfl] at hm
    cases hm

theorem exponentPart_exponentChars (e : Int) :
    ExponentPart (NumeralParts.exponentChars (some e)) := by
  refine .signed (.inl rfl) ?_ (digitPart_of_forall (by simp) fun _ => isDigit_of_mem_toDigits)
  by_cases he : e < 0 <;> simp [he]

theorem floatLiteral_chars {p : NumeralParts} (h : p.IsFloat) : FloatLiteral p.chars := by
  have hwhole := digitPart_of_forall p.whole_ne_nil p.isDigit_whole
  by_cases hf : p.fraction = []
  · obtain ⟨e, he⟩ := Option.isSome_iff_exists.mp (h.resolve_left (not_not.mpr hf))
    simp only [NumeralParts.chars, NumeralParts.pointChars, hf, he, List.isEmpty_nil, if_true,
      List.nil_append]
    exact .exponent hwhole (exponentPart_exponentChars e)
  · have hpoint : PointFloat (p.whole ++ '.' :: p.fraction) :=
      .mixed hwhole (digitPart_of_forall hf p.isDigit_fraction)
    have hchars : p.chars =
        (p.whole ++ '.' :: p.fraction) ++ NumeralParts.exponentChars p.exponent := by
      simp [NumeralParts.chars, NumeralParts.pointChars, hf]
    rw [hchars]
    cases p.exponent with
    | none => simpa [NumeralParts.exponentChars] using FloatLiteral.point hpoint
    | some e => exact .pointExponent hpoint (exponentPart_exponentChars e)

/-! Signs. -/

theorem head?_chars_ne_minus (p : NumeralParts) : p.chars.head? ≠ some '-' := by
  obtain ⟨c, cs, hwhole⟩ := List.exists_cons_of_ne_nil p.whole_ne_nil
  have hdigit := p.isDigit_whole c (by simp [hwhole])
  rw [NumeralParts.chars, hwhole]
  rintro ⟨⟩
  cases hdigit

/-- A number whose text begins with a minus is negative. -/
theorem isNegative_of_head? {x : Double} {kind : NumberKind}
    (h : (Constant.numberText x kind).toList.head? = some '-') : x.isNegative = true := by
  cases x with
  | nan =>
    cases hk : kind.isFloat <;>
      simp [Constant.numberText, hk, Double.floatText, Double.numeral] at h
  | infinite negative =>
    cases negative with
    | true => rfl
    | false =>
      cases hk : kind.isFloat <;>
        simp [Constant.numberText, hk, Double.floatText, Double.numeral] at h
  | finite negative significand scale hc =>
    cases negative with
    | true => rfl
    | false =>
      obtain ⟨p, htext⟩ : ∃ p : NumeralParts,
          (Constant.numberText (.finite false significand scale hc) kind).toList = p.chars := by
        unfold Constant.numberText
        split
        · obtain ⟨p, -, htext, -⟩ := Double.exists_parts_floatText false hc
          exact ⟨p, htext⟩
        · obtain ⟨p, htext, -⟩ := Double.exists_parts_numeral false hc
          exact ⟨p, htext⟩
      rw [htext] at h
      exact absurd h (head?_chars_ne_minus p)

/-- What is printed, after the indentation if the line is empty, does not begin with a minus. -/
def NoMinus (set : Settings) (is : List Instr) : Prop :=
  ∀ p, (perform set is p).pass.page.pending = p.page.pending ∨
    ∃ text : String, (perform set is p).pass.page.pending =
        (p.page.startLine set.indent).pending ++ text ∧ text.toList.head? ≠ some '-'

variable {set : Settings} {is : List Instr}

theorem noMinus_text {text : String} (h : text.toList.head? ≠ some '-') :
    NoMinus set [.text text] := by
  intro p
  rw [perform_singleton]
  exact .inr ⟨text, rfl, h⟩

theorem noMinus_parenthesized (is : List Instr) : NoMinus set (parenthesized is) := by
  intro p
  have hstep : perform set (parenthesized is) p =
      perform set (is ++ [.text ")"]) (p.onPage (·.print set.indent "(")).pass := by
    rw [parenthesized, List.cons_append, perform_cons, Instr.perform]
    rfl
  obtain ⟨rest, hrest⟩ := (perform_extends set (is ++ [.text ")"])
    (p.onPage (·.print set.indent "(")).pass).pending
  refine .inr ⟨"(" ++ String.ofList rest, ?_, by simp⟩
  rw [hstep, ← String.toList_inj, ← hrest]
  simp [Pass.onPage, Page.print]

theorem NoMinus.after_mark (h : NoMinus set is) (loc : Option Location) :
    NoMinus set (markAt loc ++ is) := by
  cases loc with
  | none => exact h
  | some loc =>
    intro p
    right
    have hmark : (p.mark set loc).pass.page = p.page.startLine set.indent := by
      rw [Pass.mark_eq]
    have hagain : (p.page.startLine set.indent).startLine set.indent =
        p.page.startLine set.indent := by
      rw [Page.startLine_eq_print set.indent p.page, Page.startLine_print]
    rw [markAt, List.cons_append, List.nil_append, perform_cons, Instr.perform, Outcome.andThen]
    split
    · rcases h (p.mark set loc).pass with hsame | htext
      · exact ⟨"", by rw [hsame, hmark, String.append_empty], by simp⟩
      · rwa [hmark, hagain] at htext
    · exact ⟨"", by rw [hmark, String.append_empty], by simp⟩

theorem NoMinus.after_problem (h : NoMinus set is) (loc : Option Location)
    (what : Option Problem) : NoMinus set (Fragment.ofProblem loc what ++ is) := by
  cases what with
  | none => exact h
  | some what =>
    intro p
    have hproblem : (p.problem set what loc).pass.page = p.page := by
      rw [Pass.problem_eq]
      split <;> rfl
    rw [Fragment.ofProblem, List.cons_append, List.nil_append, perform_cons, Instr.perform,
      Outcome.andThen]
    split
    · have hrest := h (p.problem set what loc).pass
      rwa [hproblem] at hrest
    · rw [hproblem]
      exact .inl rfl

theorem noMinus_operandBody {f : Fragment} (h : f.shape.isAtomic = true → NoMinus set f.body) :
    NoMinus set f.operandBody := by
  unfold Fragment.operandBody
  split
  · rename_i hatomic
    exact h hatomic
  · exact noMinus_parenthesized f.body

theorem noMinus_constant (value : Constant) (loc : Option Location) :
    NoMinus set (Fragment.constant value loc).operandBody := by
  refine noMinus_operandBody fun hatomic => ?_
  refine NoMinus.after_mark ?_ loc
  cases value with
  | bool value =>
    refine noMinus_text ?_
    cases value <;> simp
  | string value =>
    refine noMinus_text ?_
    simp
  | none =>
    refine noMinus_text ?_
    simp
  | number x kind =>
    refine noMinus_text ?_
    intro hhead
    have hnegative := isNegative_of_head? hhead
    simp [Fragment.constant, Shape.ofConstant, Constant.isNumber, Constant.isNegativeNumber,
      Shape.isAtomic, hnegative] at hatomic
  | unknown node =>
    intro p
    left
    rw [Constant.text, textOr, perform_singleton]
    rfl

theorem noMinus_literalForm (loc : Option Location) (form : LiteralForm) :
    NoMinus set (Fragment.literalForm loc form).operandBody := by
  cases form with
  | constant value => exact noMinus_constant value loc
  | construct | sequence => exact noMinus_parenthesized _

theorem noMinus_testForm (value : Fragment) (loc : Option Location) (form : TestForm) :
    NoMinus set (Fragment.testForm set.names value loc form).operandBody := by
  cases form with
  | always | impossible => exact noMinus_constant _ loc
  | isNone | primitive | «instance» | sequence => exact noMinus_parenthesized _

/-- No operand but a name begins with a minus. -/
theorem noMinus_operand (set : Settings) {e : Expr} (hname : ∀ id loc, e ≠ .name id loc) :
    NoMinus set (e.fragment set.names).operand := by
  cases e with
  | name id loc => exact absurd rfl (hname id loc)
  | constant value loc =>
    rw [Expr.fragment]
    exact noMinus_constant value loc
  | typedLiteral type value loc =>
    rw [Expr.fragment]
    exact (noMinus_literalForm loc _).after_problem loc _
  | typeTest type value loc =>
    rw [Expr.fragment]
    exact (noMinus_testForm _ loc _).after_problem loc _
  | _ =>
    rw [Expr.fragment]
    exact noMinus_parenthesized _

/-- Number constants keep their value, type and sign. -/
theorem number_constants_faithful (x : Double) (kind : NumberKind) :
    (kind.isFloat = true → x.isFinite = true → ∃ cs d,
      (Constant.numberText x kind).toList = NumeralParts.signChars x.isNegative ++ cs ∧
      FloatLiteral cs ∧ ¬ IntegerLiteral cs ∧
      Decimal.read? (Constant.numberText x kind).toList = some d ∧
      ∀ y, d.RoundsTo y ↔ y = x) ∧
    (kind.isFloat = false → ∀ n, x.toSafeInt? = some n →
      Constant.numberText x kind = toString n) ∧
    ((Constant.numberText x kind).toList.head? = some '-' →
      (Constant.number x kind).isNegativeNumber = true) ∧
    ∀ (set : Settings) (e : Expr), (∀ id loc, e ≠ .name id loc) →
      NoMinus set (e.fragment set.names).operand := by
  refine ⟨?_, ?_, isNegative_of_head?, fun set e => noMinus_operand set⟩
  · intro hkind hfinite
    rw [Constant.numberText, if_pos hkind]
    cases x with
    | nan | infinite => cases hfinite
    | finite negative significand scale hc =>
      obtain ⟨p, hfloat, htext, hnearest⟩ := Double.exists_parts_floatText negative hc
      have hliteral := floatLiteral_chars hfloat
      refine ⟨p.chars, p.decimal negative, htext, hliteral, hliteral.not_integerLiteral, ?_, ?_⟩
      · rw [htext, NumeralParts.read?_chars]
      · have hrounds : (p.decimal negative).RoundsTo (.finite negative significand scale hc) :=
          ⟨rfl, hnearest⟩
        intro y
        rw [Decimal.roundsTo_iff] at hrounds ⊢
        rw [hrounds, eq_comm]
  · intro hkind n hn
    rw [Constant.numberText, hkind]
    exact Double.numeral_eq_toString hn

/-- A negative zero as a float, and a negative integer on its own and as an operand. -/
theorem number_constants_faithful_negative :
    (∃ cs d, (Constant.numberText (.zero true) .float64).toList = '-' :: cs ∧
      FloatLiteral cs ∧ ¬ IntegerLiteral cs ∧
      Decimal.read? (Constant.numberText (.zero true) .float64).toList = some d ∧
      ∀ y, d.RoundsTo y ↔ y = .zero true) ∧
    Constant.numberText (.ofInt (-12)) .int32 = "-12" ∧
    (Constant.number (.ofInt (-12)) .int32).isNegativeNumber = true ∧
    NoMinus {} (Fragment.constant (.number (.ofInt (-12)) .int32) none).operand := by
  have hsafe : (Double.ofInt (-12)).toSafeInt? = some (-12) := by decide +kernel
  obtain ⟨-, htext, hsign, hoperand⟩ := number_constants_faithful (.ofInt (-12)) .int32
  have hnumeral := htext rfl (-12) hsafe
  refine ⟨(number_constants_faithful (.zero true) .float64).1 rfl rfl, hnumeral, hsign ?_, ?_⟩
  · rw [hnumeral]
    decide
  · have h := hoperand {} (.constant (.number (.ofInt (-12)) .int32)) nofun
    rwa [Expr.fragment] at h

end CodePrinter.Python
