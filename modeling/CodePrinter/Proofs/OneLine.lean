import CodePrinter.Print.Stmt
import CodePrinter.Proofs.IntegerNumerals
import Mathlib.Tactic.SplitIfs

/-! Texts without line feeds: spelled constants, operators, and the lines of snippets. -/
namespace CodePrinter

namespace Text

/-- There is no line feed in a text. -/
def OneLine (s : String) : Prop := '\n' ∉ s.toList

instance (s : String) : Decidable (OneLine s) := inferInstanceAs (Decidable (¬ _))

/-- There is something in a text, and no line feed. -/
def Solid (s : String) : Prop := s ≠ "" ∧ OneLine s

instance (s : String) : Decidable (Solid s) := inferInstanceAs (Decidable (_ ∧ _))

variable {s t : String} {cs : List Char}

theorem oneLine_append : OneLine (s ++ t) ↔ OneLine s ∧ OneLine t := by
  simp [OneLine, not_or]

theorem oneLine_ofList : OneLine (String.ofList cs) ↔ '\n' ∉ cs := by simp [OneLine]

theorem oneLine_intercalate {strings : List String} (hs : OneLine s)
    (h : ∀ x ∈ strings, OneLine x) : OneLine (s.intercalate strings) := by
  unfold OneLine at *
  rw [String.toList_intercalate]
  induction strings with
  | nil => simp
  | cons x xs ih =>
    have ihx := ih (fun y hy => h y (List.mem_cons_of_mem x hy))
    cases xs with
    | nil => simpa using h x (by simp)
    | cons y ys =>
      simp only [List.map_cons, List.intercalate_cons_cons, List.mem_append, not_or] at ihx ⊢
      exact ⟨⟨h x (by simp), hs⟩, ihx⟩

theorem oneLine_trimStart (h : OneLine s) : OneLine (String.ofList (trimStart s.toList)) :=
  oneLine_ofList.mpr fun hm => h (List.dropWhile_sublist isBlank |>.subset hm)

theorem oneLine_indentation {unit : String} (h : OneLine unit) (depth : Nat) :
    OneLine (Page.indentation unit depth) := by
  unfold Page.indentation OneLine
  rw [String.toList_join]
  intro hm
  obtain ⟨s, hs, hc⟩ := List.mem_flatMap.mp hm
  obtain rfl := List.eq_of_mem_replicate hs
  exact h hc

/-- A character of ASCII that is seen, or a space. -/
def Printable (c : Char) : Prop := 0x20 ≤ c.toNat ∧ c.toNat ≤ 0x7E

instance (c : Char) : Decidable (Printable c) := inferInstanceAs (Decidable (_ ∧ _))

theorem printable_of_mem_hex {width n : Nat} {c : Char} (h : c ∈ hex width n) : Printable c := by
  have hdigit : ∀ k < 16, Printable (hexDigit k) := by decide
  induction width generalizing n with
  | zero => simp [hex] at h
  | succ width ih =>
    rw [hex, List.mem_append, List.mem_singleton] at h
    obtain h | rfl := h
    · exact ih h
    · exact hdigit _ (Nat.mod_lt n (by decide))

theorem printable_of_escapeLetter? {c letter : Char} (h : escapeLetter? c = some letter) :
    Printable letter := by
  unfold escapeLetter? at h
  split_ifs at h <;> cases h <;> decide

theorem printable_of_mem_escapeChar {c d : Char} (h : d ∈ escapeChar c) : Printable d := by
  have hslash : Printable '\\' := by decide
  unfold escapeChar at h
  split at h
  · rename_i letter hl
    simp only [List.mem_cons, List.not_mem_nil, or_false] at h
    obtain rfl | rfl := h
    · exact hslash
    · exact printable_of_escapeLetter? hl
  · -- all but a plain character is a backslash, a letter and digits
    have hcode : ∀ letter width n, Printable letter → d ∈ '\\' :: letter :: hex width n →
        Printable d := by
      intro letter width n hletter hd
      simp only [List.mem_cons] at hd
      obtain rfl | rfl | hd := hd
      · exact hslash
      · exact hletter
      · exact printable_of_mem_hex hd
    dsimp only at h
    split_ifs at h with h1 h2 h3
    · exact hcode 'x' 2 _ (by decide) h
    · obtain rfl := List.mem_singleton.mp h
      simp only [Bool.or_eq_true, decide_eq_true_eq, not_or] at h1
      exact ⟨by omega, by omega⟩
    · exact hcode 'u' 4 _ (by decide) h
    · exact hcode 'U' 8 _ (by decide) h

theorem printable_of_mem_escape {s : String} {c : Char} (h : c ∈ (escape s).toList) :
    Printable c := by
  rw [escape, String.toList_ofList, List.mem_flatMap] at h
  obtain ⟨d, -, hd⟩ := h
  exact printable_of_mem_escapeChar hd

theorem oneLine_escape (s : String) : OneLine (escape s) := by
  intro h
  have hprint := printable_of_mem_escape h
  revert hprint
  decide

/-- Splitting into lines leaves no line feed. -/
theorem lineFeed_notMem_splitLines (cs : List Char) : ∀ line ∈ splitLines cs, '\n' ∉ line := by
  fun_induction splitLines cs with
  | case1 => simp
  | case2 cs ih | case3 cs ih => simpa using ih
  | case4 c cs hc _ _ ih =>
    simp at ih ⊢
    grind
  | case5 => grind

end Text

open Text

theorem lineFeed_notMem_toDigits (n : Nat) : '\n' ∉ Nat.toDigits 10 n := by
  intro h
  have := Nat.isDigit_of_mem_toDigits (by decide) (by decide) h
  simp at this

theorem lineFeed_notMem_write (form : NumeralForm) {digits : List Char} (point : Int)
    (h : '\n' ∉ digits) : '\n' ∉ form.write digits point := by
  have ht := fun n => mt (List.mem_of_mem_take (i := n)) h
  have hd := fun n => mt (List.mem_of_mem_drop (i := n)) h
  have hn := lineFeed_notMem_toDigits (point - 1).natAbs
  unfold NumeralForm.write
  split
  · simp [h]
  · split
    · simp [ht, hd]
    · split
      · simp [h]
      · have htail := hd 1
        split <;> split <;> simp_all

namespace Double

theorem lineFeed_notMem_magnitudeChars (significand scale : Nat) :
    '\n' ∉ magnitudeChars significand scale := by
  unfold magnitudeChars
  generalize shortest significand scale = pair
  obtain ⟨digits, exponent⟩ := pair
  apply lineFeed_notMem_write
  intro h
  rw [dropZeros, List.mem_reverse] at h
  have hm := List.dropWhile_sublist (· = '0') |>.subset h
  exact lineFeed_notMem_toDigits _ (List.mem_reverse.mp hm)

theorem oneLine_numeral (x : Double) : OneLine x.numeral := by
  unfold numeral
  split
  · decide
  · split <;> decide
  · rename_i negative significand scale _
    have hm := lineFeed_notMem_magnitudeChars significand scale
    split
    · decide
    · rw [oneLine_ofList]
      cases negative <;> simp [hm]

theorem oneLine_floatText (x : Double) : OneLine x.floatText := by
  unfold floatText
  split
  · decide
  · split <;> decide
  · split
    · decide
    · simp only
      split
      · exact oneLine_numeral _
      · exact oneLine_append.mpr ⟨oneLine_numeral _, by decide⟩

end Double

theorem Constant.numberText_ne_empty (value : Double) (kind : NumberKind) :
    numberText value kind ≠ "" := by
  have hnumeral := value.numeral_ne_empty
  unfold numberText
  split
  · cases value with
    | nan => decide
    | infinite negative => cases negative <;> decide
    | finite negative significand scale canonical =>
      unfold Double.floatText
      dsimp only
      split
      · decide
      · split
        · exact hnumeral
        · simp [String.append_eq_empty_iff]
  · exact hnumeral

theorem Constant.solid_text {c : Constant} {value : String} (h : c.text = .ok value) :
    Solid value := by
  cases c with
  | bool b =>
    obtain rfl := Except.ok.inj h
    cases b <;> decide
  | string s =>
    obtain rfl := Except.ok.inj h
    refine ⟨by simp [String.append_eq_empty_iff], ?_⟩
    exact oneLine_append.mpr ⟨oneLine_append.mpr ⟨by decide, oneLine_escape s⟩, by decide⟩
  | number x kind =>
    obtain rfl := Except.ok.inj h
    refine ⟨numberText_ne_empty x kind, ?_⟩
    unfold numberText
    split
    · exact x.oneLine_floatText
    · exact x.oneLine_numeral
  | none =>
    obtain rfl := Except.ok.inj h
    decide
  | unknown node => cases h

theorem BinaryOp.solid_text {op : BinaryOp} {value : String} (h : op.text = .ok value) :
    Solid value := by
  cases op <;> cases h <;> decide

theorem BoolOp.solid_text {op : BoolOp} {value : String} (h : op.text = .ok value) :
    Solid value := by
  cases op <;> cases h <;> decide

theorem CompareOp.solid_text {op : CompareOp} {value : String} (h : op.text = .ok value) :
    Solid value := by
  cases op <;> cases h <;> decide

theorem UnaryOp.solid_text {op : UnaryOp} {value : String} (h : op.text = .ok value) :
    Solid value := by
  cases op <;> cases h <;> decide

end CodePrinter
