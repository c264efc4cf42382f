import CodePrinter.Proofs.Python.Tokens
import Mathlib.Data.Nat.Digits.Defs

/-! What the spelling of a token is read as, wherever it stands.

Main statements: texts that follow each other are read one after the other, if the first does not
run into the second (`Spells.append`), and names, integers and string literals are read as what
they stand for (`spells_word`, `spells_int`, `spells_string`). -/
namespace CodePrinter.Python

/-- A statement about the characters of a list is decided by going through the list, and not
through every character there is. -/
scoped instance (priority := 2000) decidableForallMem (p : Char → Prop) [DecidablePred p]
    (cs : List Char) : Decidable (∀ c ∈ cs, p c) :=
  List.decidableBAll p cs

/-- A token ends before a character. -/
def Pending.apart (c : Char) : Pending → Bool
  | .idle => true
  | .word _ => !isWordChar c && c ≠ '"'
  | .int _ => !Decimal.isDigit c && !isWordChar c && c ≠ '.'
  | .symbol cs => !isSymbolStart (cs ++ [c])
  | .closed _ => c ≠ '"'
  | _ => false

/-- A text at some depth of brackets is read as some tokens, of which the last may go on. -/
def Spells (cs : List Char) (depth after : Nat) (ts : List Token) (last : Pending) : Prop :=
  ∀ before, ∃ s, cs.foldlM Scan.step { tokens := before, depth } = some s ∧ s.pending = last ∧
    s.settle = some { tokens := before ++ ts, depth := after }

variable {c : Char} {cs ds : List Char} {d d' d'' : Nat} {ts us : List Token}
  {last last' : Pending}

theorem step_of_apart {s : Scan} (h : s.pending.apart c = true) :
    s.step c = s.settle.bind (·.start c) := by
  obtain ⟨tokens, depth, pending⟩ := s
  cases pending with
  | idle => simp [Scan.step, Scan.settle, Pending.tokens?]
  | word cs | int cs | symbol cs | closed cs =>
    simp_all [Scan.step, Pending.apart]
  | quoted cs | escaped cs | coded cs left value => cases h

/-- What is read after a token that has ended is read as after white space. -/
theorem step_idle_of_apart {s t : Scan} (h : s.pending.apart c = true) (hs : s.settle = some t)
    (ht : t.pending = .idle) : s.step c = t.step c := by
  rw [step_of_apart h, hs, Scan.step, ht]
  rfl

theorem Spells.append (h : Spells cs d d' ts last) (hc : Spells (c :: ds) d' d'' us last')
    (ha : last.apart c = true) : Spells (cs ++ c :: ds) d d'' (ts ++ us) last' := by
  intro before
  obtain ⟨s, hs, rfl, hset⟩ := h before
  obtain ⟨t, ht, hl, hend⟩ := hc (before ++ ts)
  refine ⟨t, ?_, hl, by rw [hend, List.append_assoc]⟩
  rw [List.foldlM_append, hs]
  rw [List.foldlM_cons] at ht
  rw [← ht]
  exact congrArg (· >>= fun s => ds.foldlM Scan.step s) (step_idle_of_apart ha hset rfl)

theorem tokens?_of_spells (h : Spells cs 0 d ts last) : tokens? (String.ofList cs) = some ts := by
  obtain ⟨s, hs, -, hend⟩ := h []
  have hscan : cs.foldlM Scan.step {} = some s := hs
  simp [tokens?, hscan, hend]

def isBlank (depth : Nat) (c : Char) : Bool := c = ' ' || c = '\t' || (c = '\n' && 0 < depth)

theorem spells_blank (h : ∀ c ∈ cs, isBlank d c = true) : Spells cs d d [] .idle := by
  intro before
  refine ⟨{ tokens := before, depth := d }, ?_, rfl, by simp [Scan.settle, Pending.tokens?]⟩
  induction cs with
  | nil => rfl
  | cons c cs ih =>
    have hc : Scan.step { tokens := before, depth := d } c =
        some { tokens := before, depth := d } := by
      have hb := h c (by simp)
      simp only [isBlank] at hb
      simp [Scan.step, Scan.start, hb]
    rw [List.foldlM_cons, hc]
    exact ih fun x hx => h x (List.mem_cons_of_mem c hx)

theorem isPrefixOf_append_singleton {xs : List Char} (h : (cs ++ [c]).isPrefixOf xs = true) :
    c ∈ xs ∧ cs.isPrefixOf xs = true ∧ xs ≠ cs := by
  obtain ⟨rest, rfl⟩ := List.isPrefixOf_iff_prefix.mp h
  refine ⟨by simp, ?_, by simp⟩
  rw [List.isPrefixOf_iff_prefix, List.append_assoc]
  exact List.prefix_append cs _

/-- A character of no symbol ends every symbol. -/
theorem not_isSymbolStart_of_notMem (h : ∀ s ∈ symbols, c ∉ s.toList) :
    isSymbolStart (cs ++ [c]) = false := by
  rw [isSymbolStart, List.any_eq_false]
  intro s hs hp
  exact h s hs (isPrefixOf_append_singleton hp).1

/-- A symbol that begins no other ends before every character. -/
theorem not_isSymbolStart_of_whole (c : Char)
    (h : ∀ s ∈ symbols, cs.isPrefixOf s.toList = true → s.toList = cs) :
    isSymbolStart (cs ++ [c]) = false := by
  rw [isSymbolStart, List.any_eq_false]
  intro s hs hp
  obtain ⟨-, hcs, hne⟩ := isPrefixOf_append_singleton hp
  exact hne (h s hs hcs)

theorem apart_blank (h : isBlank d c = true) (hl : last.tokens? ≠ none) : last.apart c = true := by
  have hc : c = ' ' ∨ c = '\t' ∨ c = '\n' := by
    simp [isBlank] at h
    tauto
  cases last with
  | idle => rfl
  | word cs | int cs | closed cs =>
    rcases hc with rfl | rfl | rfl <;> simp only [Pending.apart] <;> decide
  | symbol cs =>
    have hn : ∀ s ∈ symbols, c ∉ s.toList := by
      rcases hc with rfl | rfl | rfl <;> decide
    simp [Pending.apart, not_isSymbolStart_of_notMem hn]
  | quoted cs | escaped cs | coded cs left value => simp [Pending.tokens?] at hl

/-- A letter begins no other kind of token. -/
theorem start_word (s : Scan) (h : isWordStart c = true) :
    s.start c = some { s with pending := .word [c] } := by
  have hne : ∀ x : Char, isWordStart x = false → c ≠ x := by
    rintro x hx rfl
    simp [h] at hx
  have h1 := hne ' ' (by decide)
  have h2 := hne '\t' (by decide)
  have h3 := hne '\n' (by decide)
  simp [Scan.start, h, h1, h2, h3]

/-- A run of characters that all go to the token at hand. -/
theorem foldlM_run (kind : List Char → Pending) {p : Char → Bool} (s : Scan)
    (hstep : ∀ ds c, p c = true → Scan.step { s with pending := kind ds } c =
      some { s with pending := kind (ds ++ [c]) })
    (ds : List Char) (hcs : ∀ c ∈ cs, p c = true) :
    cs.foldlM Scan.step { s with pending := kind ds } =
      some { s with pending := kind (ds ++ cs) } := by
  induction cs generalizing ds with
  | nil => simp
  | cons c cs ih =>
    have htail := ih (ds ++ [c]) fun x hx => hcs x (List.mem_cons_of_mem c hx)
    rw [List.foldlM_cons, hstep ds c (hcs c (by simp))]
    simpa using htail

theorem step_word (s : Scan) (ds : List Char) (c : Char) (hc : isWordChar c = true) :
    Scan.step { s with pending := .word ds } c =
      some { s with pending := .word (ds ++ [c]) } := by
  simp [Scan.step, hc]

theorem spells_word (d : Nat) (hc : isWordStart c = true) (hcs : ∀ x ∈ cs, isWordChar x = true) :
    Spells (c :: cs) d d [.word (String.ofList (c :: cs))] (.word (c :: cs)) := by
  intro before
  refine ⟨{ tokens := before, depth := d, pending := .word (c :: cs) }, ?_, rfl, rfl⟩
  rw [List.foldlM_cons, Scan.step, start_word _ hc]
  exact foldlM_run .word { tokens := before, depth := d } (step_word _) [c] hcs

theorem spells_of_isWord (d : Nat) {text : String} (h : isWord text = true) :
    ∃ c cs, text.toList = c :: cs ∧ isWordStart c = true ∧
      Spells text.toList d d [.word text] (.word text.toList) := by
  unfold isWord at h
  cases hv : text.toList with
  | nil => simp [hv] at h
  | cons c cs =>
    simp only [hv, Bool.and_eq_true, List.all_eq_true] at h
    have hs := spells_word d h.1 h.2
    rw [← hv, String.ofList_toList, hv] at hs
    exact ⟨c, cs, rfl, h.1, hs⟩

theorem isSymbolStart_of_append {text : String} (h : text ∈ symbols)
    (ht : text.toList = cs ++ ds) : isSymbolStart cs = true := by
  rw [isSymbolStart, List.any_eq_true]
  exact ⟨text, h, List.isPrefixOf_iff_prefix.mpr ⟨ds, ht.symm⟩⟩

theorem symbol_ne_nil {text : String} (h : text ∈ symbols) : text.toList ≠ [] := by
  have hall : ∀ text ∈ symbols, text.toList ≠ [] := by decide
  exact hall text h

/-- The characters of symbols are those of no other kind of token. -/
theorem of_mem_symbol {text : String} (h : text ∈ symbols) (hc : c ∈ text.toList) :
    c ≠ ' ' ∧ c ≠ '\t' ∧ c ≠ '\n' ∧ isWordStart c = false ∧ Decimal.isDigit c = false ∧
      c ≠ '"' := by
  have hall : ∀ text ∈ symbols, ∀ c ∈ text.toList,
      c ≠ ' ' ∧ c ≠ '\t' ∧ c ≠ '\n' ∧ isWordStart c = false ∧ Decimal.isDigit c = false ∧
        c ≠ '"' := by decide
  exact hall text h c hc

theorem start_symbol (s : Scan) {text : String} (h : text ∈ symbols)
    (ht : text.toList = c :: cs) : s.start c = some { s with pending := .symbol [c] } := by
  obtain ⟨h1, h2, h3, h4, h5, h6⟩ := of_mem_symbol (c := c) h (by simp [ht])
  have hsymbol : isSymbolStart [c] = true := isSymbolStart_of_append h (by simpa using ht)
  simp [Scan.start, h1, h2, h3, h4, h5, h6, hsymbol]

theorem foldlM_symbol (s : Scan) {text : String} (h : text ∈ symbols)
    (ht : text.toList = cs ++ ds) : ds.foldlM Scan.step { s with pending := .symbol cs } =
      some { s with pending := .symbol text.toList } := by
  induction ds generalizing cs with
  | nil => simp [ht]
  | cons c ds ih =>
    have hmore : text.toList = cs ++ [c] ++ ds := by simpa using ht
    have hstep : Scan.step { s with pending := .symbol cs } c =
        some { s with pending := .symbol (cs ++ [c]) } := by
      simp [Scan.step, isSymbolStart_of_append h hmore]
    rw [List.foldlM_cons, hstep]
    exact ih hmore

theorem spells_symbol (d : Nat) {text : String} (h : text ∈ symbols) :
    Spells text.toList d (Token.depthAfter d (.symbol text)) [.symbol text]
      (.symbol text.toList) := by
  intro before
  refine ⟨{ tokens := before, depth := d, pending := .symbol text.toList }, ?_, rfl, ?_⟩
  · cases ht : text.toList with
    | nil => exact absurd ht (symbol_ne_nil h)
    | cons c cs =>
      have hmore := foldlM_symbol { tokens := before, depth := d } h (show _ = [c] ++ cs from ht)
      rw [ht] at hmore
      rw [List.foldlM_cons, Scan.step, start_symbol _ h ht]
      exact hmore
  · simp [Scan.settle, Pending.tokens?, h]

theorem isDigit_eq (c : Char) : Decimal.isDigit c = c.isDigit := by
  simp [Decimal.isDigit, Char.isDigit, Char.le_def]

theorem isDigit_of_mem_toDigits {n : Nat} (h : c ∈ Nat.toDigits 10 n) :
    Decimal.isDigit c = true := by
  rw [isDigit_eq]
  exact Nat.isDigit_of_mem_toDigits (by decide) (by decide) h

theorem ofDigits_toDigits (n : Nat) : Decimal.ofDigits (Nat.toDigits 10 n) = n := by
  have h : Decimal.ofDigits (Nat.toDigits 10 n) = Nat.ofDigitChars 10 (Nat.toDigits 10 n) 0 := by
    simp [Decimal.ofDigits, Decimal.digitsFrom, Decimal.digitValue, Nat.ofDigitChars_eq_foldl,
      Nat.mul_comm]
  rw [h, Nat.ofDigitChars_ten_toDigits]

theorem digitChar_ne_zero {n : Nat} (hn : n ≠ 0) (h : n < 10) : Nat.digitChar n ≠ '0' := by
  have hall : ∀ k < 10, k ≠ 0 → Nat.digitChar k ≠ '0' := by decide
  exact hall n h hn

/-- The digits of a positive number do not begin with a zero. -/
theorem head?_toDigits {n : Nat} (hn : n ≠ 0) : (Nat.toDigits 10 n).head? ≠ some '0' := by
  induction n using Nat.strong_induction_on with
  | h n ih =>
    rw [Nat.toDigits_eq_if (by decide)]
    split
    · rename_i hlt
      simpa using digitChar_ne_zero hn hlt
    · rename_i hge
      have hq := ih (n / 10) (by omega) (by omega)
      rw [List.head?_append]
      cases hd : (Nat.toDigits 10 (n / 10)).head? with
      | none => exact absurd (List.head?_eq_none_iff.mp hd) Nat.toDigits_ne_nil
      | some c => rw [hd] at hq; exact hq

theorem tokens?_toDigits (n : Nat) :
    Pending.tokens? (.int (Nat.toDigits 10 n)) = some [.int n] := by
  rw [Pending.tokens?, ofDigits_toDigits]
  by_cases hn : n = 0
  · subst hn
    simp
  · simp [head?_toDigits hn]

theorem toNat_of_isDigit (h : Decimal.isDigit c = true) : 48 ≤ c.toNat ∧ c.toNat ≤ 57 := by
  simpa [Decimal.isDigit, Char.le_def, UInt32.le_iff_toNat_le] using h

theorem not_isWordStart_of_isDigit (h : Decimal.isDigit c = true) : isWordStart c = false := by
  obtain ⟨hlow, hhigh⟩ := toNat_of_isDigit h
  have hne : c ≠ '_' := by
    rintro rfl
    revert h
    decide
  have hupper : c.isUpper = decide ('A'.val ≤ c.val ∧ c.val ≤ 'Z'.val) := rfl
  have hlower : c.isLower = (decide ('a'.val ≤ c.val) && decide (c.val ≤ 'z'.val)) := rfl
  have halpha : c.isAlpha = (c.isUpper || c.isLower) := rfl
  simp [isWordStart, halpha, hupper, hlower, UInt32.le_iff_toNat_le, hne]
  omega

/-- A digit begins no other kind of token. -/
theorem start_digit (s : Scan) (h : Decimal.isDigit c = true) :
    s.start c = some { s with pending := .int [c] } := by
  have hne : ∀ x : Char, Decimal.isDigit x = false → c ≠ x := by
    rintro x hx rfl
    simp [h] at hx
  have h1 := hne ' ' (by decide)
  have h2 := hne '\t' (by decide)
  have h3 := hne '\n' (by decide)
  simp [Scan.start, h, not_isWordStart_of_isDigit h, h1, h2, h3]

theorem step_digit (s : Scan) (ds : List Char) (c : Char) (hc : Decimal.isDigit c = true) :
    Scan.step { s with pending := .int ds } c =
      some { s with pending := .int (ds ++ [c]) } := by
  simp [Scan.step, hc]

theorem spells_int (d n : Nat) :
    Spells (Nat.toDigits 10 n) d d [.int n] (.int (Nat.toDigits 10 n)) := by
  intro before
  refine ⟨{ tokens := before, depth := d, pending := .int (Nat.toDigits 10 n) }, ?_, rfl, ?_⟩
  · have hall := fun c (hc : c ∈ Nat.toDigits 10 n) => isDigit_of_mem_toDigits hc
    cases hd : Nat.toDigits 10 n with
    | nil => exact absurd hd Nat.toDigits_ne_nil
    | cons c cs =>
      rw [hd] at hall
      rw [List.foldlM_cons, Scan.step, start_digit _ (hall c (by simp))]
      exact foldlM_run .int { tokens := before, depth := d } (step_digit _) [c]
        fun x hx => hall x (List.mem_cons_of_mem c hx)
  · simp [Scan.settle, tokens?_toDigits, Token.depthAfter]

theorem hexValue?_hexDigit {n : Nat} (h : n < 16) : hexValue? (Text.hexDigit n) = some n := by
  have hall : ∀ k < 16, hexValue? (Text.hexDigit k) = some k := by decide
  exact hall n h

theorem step_code (s : Scan) (cs : List Char) {left value digit : Nat} (hl : 0 < left)
    (hd : digit < 16) :
    Scan.step { s with pending := .coded cs (left + 1) value } (Text.hexDigit digit) =
      some { s with pending := .coded cs left (value * 16 + digit) } := by
  simp [Scan.step, hexValue?_hexDigit hd, hl]

theorem pow_mod (value n width : Nat) :
    (value * 16 ^ width + n / 16 % 16 ^ width) * 16 + n % 16 =
      value * 16 ^ (width + 1) + n % 16 ^ (width + 1) := by
  have hmod : n % 16 ^ (width + 1) = n / 16 % 16 ^ width * 16 + n % 16 := by
    rw [Nat.pow_succ, Nat.mul_comm (16 ^ width) 16, Nat.mod_mul]
    ring
  rw [hmod]
  ring

/-- The first digits of a character code. -/
theorem foldlM_hex (s : Scan) (cs : List Char) (width n value : Nat) {left : Nat} (hl : 0 < left) :
    (Text.hex width n).foldlM Scan.step { s with pending := .coded cs (width + left) value } =
      some { s with pending := .coded cs left (value * 16 ^ width + n % 16 ^ width) } := by
  induction width generalizing n left with
  | zero => simp [Text.hex, Nat.mod_one]
  | succ width ih =>
    have hfirst := ih (n / 16) (show 0 < left + 1 by omega)
    have hleft : width + 1 + left = width + (left + 1) := by omega
    rw [Text.hex, List.foldlM_append, hleft, hfirst]
    simp only [Option.bind_eq_bind, Option.bind_some, List.foldlM_cons, List.foldlM_nil]
    rw [step_code s cs hl (Nat.mod_lt n (by decide)), pow_mod]
    rfl

/-- A character code is read as its character. -/
theorem foldlM_code (s : Scan) (cs : List Char) (width : Nat)
    (hc : c.toNat < 16 ^ (width + 1)) :
    (Text.hex (width + 1) c.toNat).foldlM Scan.step
        { s with pending := .coded cs (width + 1) 0 } =
      some { s with pending := .quoted (cs ++ [c]) } := by
  have hvalue := pow_mod 0 c.toNat width
  have hdigit := hexValue?_hexDigit (Nat.mod_lt c.toNat (show 0 < 16 by decide))
  rw [Text.hex, List.foldlM_append, foldlM_hex s cs width _ _ Nat.one_pos]
  simp only [Option.bind_eq_bind, Option.bind_some, List.foldlM_cons, List.foldlM_nil]
  simp only [Scan.step, hdigit, Option.bind_some, Nat.lt_irrefl, if_false]
  have hvalid : c.toNat.isValidChar := c.valid
  rw [hvalue, Nat.mod_eq_of_lt hc, Nat.zero_mul, Nat.zero_add, if_pos hvalid, Char.ofNat_toNat]
  rfl

theorem unescape?_escapeLetter? {letter : Char} (h : Text.escapeLetter? c = some letter) :
    unescape? letter = some c := by
  have hcode : ∀ n, c.toNat = n → c = Char.ofNat n := by
    rintro n rfl
    exact (Char.ofNat_toNat c).symm
  unfold Text.escapeLetter? at h
  split_ifs at h with h1 h2 h3 h4 h5 h6 h7
  · cases h; subst h1; rfl
  · cases h; subst h2; rfl
  · cases h; subst h3; rfl
  · cases h; subst h4; rfl
  · cases h; subst h5; rfl
  · cases h; rw [hcode _ h6]; rfl
  · cases h; rw [hcode _ h7]; rfl

theorem step_backslash (s : Scan) (cs : List Char) :
    Scan.step { s with pending := .quoted cs } '\\' = some { s with pending := .escaped cs } := by
  simp [Scan.step]

/-- An escaped character is read as the character. -/
theorem foldlM_escapeChar (s : Scan) (cs : List Char) (c : Char) :
    (Text.escapeChar c).foldlM Scan.step { s with pending := .quoted cs } =
      some { s with pending := .quoted (cs ++ [c]) } := by
  unfold Text.escapeChar
  cases hl : Text.escapeLetter? c with
  | some letter =>
    have hu := unescape?_escapeLetter? hl
    rw [List.foldlM_cons, step_backslash, Option.bind_eq_bind, Option.bind_some]
    simp [Scan.step, hu]
  | none =>
    have hcode : ∀ (letter : Char) (width : Nat), unescape? letter = none →
        codeLength? letter = some (width + 1) → c.toNat < 16 ^ (width + 1) →
        ('\\' :: letter :: Text.hex (width + 1) c.toNat).foldlM Scan.step
          { s with pending := .quoted cs } = some { s with pending := .quoted (cs ++ [c]) } := by
      intro letter width hu hw hc
      have hletter : Scan.step { s with pending := .escaped cs } letter =
          some { s with pending := .coded cs (width + 1) 0 } := by
        simp [Scan.step, hu, hw]
      rw [List.foldlM_cons, step_backslash, Option.bind_eq_bind, Option.bind_some,
        List.foldlM_cons, hletter, Option.bind_eq_bind, Option.bind_some]
      exact foldlM_code s cs width hc
    dsimp only
    split_ifs with h1 h2 h3
    · simp only [Bool.or_eq_true, decide_eq_true_eq] at h1
      exact hcode 'x' 1 rfl rfl (by omega)
    · have hplain : c ≠ '"' ∧ c ≠ '\\' ∧ c ≠ '\n' := by
        refine ⟨?_, ?_, ?_⟩ <;> rintro rfl <;> simp [Text.escapeLetter?] at hl
      simp [Scan.step, hplain]
    · exact hcode 'u' 3 rfl rfl (by omega)
    · have hbound : c.toNat < 0x110000 := by
        have hv : c.toNat.isValidChar := c.valid
        unfold Nat.isValidChar at hv
        omega
      exact hcode 'U' 7 rfl rfl (by omega)

theorem foldlM_escape (s : Scan) (cs ds : List Char) :
    (ds.flatMap Text.escapeChar).foldlM Scan.step { s with pending := .quoted cs } =
      some { s with pending := .quoted (cs ++ ds) } := by
  induction ds generalizing cs with
  | nil => simp
  | cons c ds ih =>
    rw [List.flatMap_cons, List.foldlM_append, foldlM_escapeChar s cs c]
    simpa using ih (cs ++ [c])

theorem spells_string (d : Nat) (s : String) :
    Spells ('"' :: (Text.escape s).toList ++ ['"']) d d [.string s] (.closed s.toList) := by
  intro before
  refine ⟨{ tokens := before, depth := d, pending := .closed s.toList }, ?_, rfl, ?_⟩
  · have hopen : Scan.step { tokens := before, depth := d } '"' =
        some { tokens := before, depth := d, pending := .quoted [] } := rfl
    rw [List.cons_append, List.foldlM_cons, hopen, Text.escape, String.toList_ofList]
    simp only [Option.bind_eq_bind, Option.bind_some]
    rw [List.foldlM_append, foldlM_escape { tokens := before, depth := d } []]
    rfl
  · simp [Scan.settle, Pending.tokens?, Token.depthAfter]

end CodePrinter.Python
