import CodePrinter.Proofs.Python.Spelling
import CodePrinter.Proofs.Runs
import Mathlib.Data.List.Forall2

/-! The tokens that printing instructions write.

Main statement: what two lists of instructions write is read one after the other, if what the first
ends with does not run into what the second begins with (`Writes.append`). -/
namespace CodePrinter.Python

/-- Indentation is white space. -/
def BlankIndent (set : Settings) : Prop := ∀ c ∈ set.indent.toList, c = ' ' ∨ c = '\t'

instance (set : Settings) : Decidable (BlankIndent set) :=
  inferInstanceAs (Decidable (∀ c ∈ set.indent.toList, _))

/-- Indentation is white space, and mappings are not checked. -/
structure Plain (set : Settings) : Prop where
  indent : BlankIndent set
  maps : set.Unchecked

/-- Instructions write tokens, and begin with a character of some kind. -/
def Writes (set : Settings) (is : List Instr) (first : Char → Prop) (depth after : Nat)
    (ts : List Token) (last : Pending) : Prop :=
  ∀ p, ∃ q c cs, perform set is p = { pass := q } ∧
    q.page.pending = p.page.pending ++ String.ofList (c :: cs) ∧ first c ∧
    Spells (c :: cs) depth after ts last

/-- Instructions write nothing but white space. -/
def Quiet (set : Settings) (is : List Instr) (depth : Nat) : Prop :=
  ∀ p, ∃ q cs, perform set is p = { pass := q } ∧
    q.page.pending = p.page.pending ++ String.ofList cs ∧ ∀ c ∈ cs, isBlank depth c = true

/-- A character, or white space before it. -/
def Leads (depth : Nat) (c x : Char) : Prop := x = c ∨ isBlank depth x = true

variable {set : Settings} {is js : List Instr} {first first' : Char → Prop} {c : Char}
  {d d' d'' : Nat} {ts us : List Token} {last last' : Pending} {text : String}

theorem Spells.tokens?_ne_none {cs : List Char} (h : Spells cs d d' ts last) :
    last.tokens? ≠ none := by
  obtain ⟨s, -, rfl, hs⟩ := h []
  intro hn
  simp [Scan.settle, hn] at hs

namespace Writes

theorem append (h : Writes set is first d d' ts last) (hj : Writes set js first' d' d'' us last')
    (ha : ∀ c, first' c → last.apart c = true) :
    Writes set (is ++ js) first d d'' (ts ++ us) last' := by
  intro p
  obtain ⟨q, c, cs, hp, hw, hc, hs⟩ := h p
  obtain ⟨r, x, xs, hq, hv, hx, ht⟩ := hj q
  refine ⟨r, c, cs ++ x :: xs, ?_, ?_, hc, hs.append ht (ha x hx)⟩
  · rw [perform_append, hp]
    exact hq
  · rw [hv, hw, String.append_assoc, ← String.ofList_append]
    rfl

theorem tokens?_ne_none (h : Writes set is first d d' ts last) : last.tokens? ≠ none := by
  obtain ⟨q, c, cs, -, -, -, hs⟩ := h {}
  exact hs.tokens?_ne_none

/-- White space ends every token. -/
theorem append_leads (h : Writes set is first d d' ts last)
    (hj : Writes set js (Leads d' c) d' d'' us last') (ha : last.apart c = true) :
    Writes set (is ++ js) first d d'' (ts ++ us) last' := by
  refine h.append hj ?_
  rintro x (rfl | hx)
  · exact ha
  · exact apart_blank hx h.tokens?_ne_none

theorem mono (h : Writes set is first d d' ts last) (hf : ∀ c, first c → first' c) :
    Writes set is first' d d' ts last := by
  intro p
  obtain ⟨q, c, cs, hp, hw, hc, hs⟩ := h p
  exact ⟨q, c, cs, hp, hw, hf c hc, hs⟩

theorem after_quiet (hq : Quiet set is d) (h : Writes set js first d d' ts last)
    (hf : ∀ c, isBlank d c = true → first c) : Writes set (is ++ js) first d d' ts last := by
  intro p
  obtain ⟨q, bs, hp, hw, hb⟩ := hq p
  obtain ⟨r, c, cs, hr, hv, hc, hs⟩ := h q
  have hperform : perform set (is ++ js) p = { pass := r } := by
    rw [perform_append, hp]
    exact hr
  have hpending : r.page.pending = p.page.pending ++ String.ofList (bs ++ c :: cs) := by
    rw [hv, hw, String.append_assoc, ← String.ofList_append]
  have hspells : Spells (bs ++ c :: cs) d d' ts last := (spells_blank hb).append hs rfl
  cases bs with
  | nil => exact ⟨r, c, cs, hperform, hpending, hc, hspells⟩
  | cons b bs => exact ⟨r, b, bs ++ c :: cs, hperform, hpending, hf b (hb b (by simp)), hspells⟩

end Writes

theorem isBlank_of_mem_indentation (hset : Plain set) (depth : Nat)
    (hc : c ∈ (Page.indentation set.indent depth).toList) : isBlank d c = true := by
  rw [Page.indentation, String.toList_join] at hc
  obtain ⟨s, hs, hc⟩ := List.mem_flatMap.mp hc
  obtain rfl := List.eq_of_mem_replicate hs
  rcases hset.indent c hc with rfl | rfl <;> rfl

theorem pending_startLine_blank (hset : Plain set) (d : Nat) (p : Page) :
    ∃ cs, (p.startLine set.indent).pending = p.pending ++ String.ofList cs ∧
      ∀ c ∈ cs, isBlank d c = true := by
  unfold Page.startLine
  split
  · refine ⟨(Page.indentation set.indent p.depth).toList, by simp, ?_⟩
    intro c hc
    exact isBlank_of_mem_indentation hset p.depth hc
  · exact ⟨[], by simp, by simp⟩

/-- An instruction that changes the page and nothing else. -/
theorem perform_onPage {i : Instr} {f : Page → Page} (p : Pass)
    (h : i.perform set p = p.onPage f) :
    perform set [i] p = { pass := { p with page := f p.page } } := by
  rw [perform_cons, h]
  exact perform_nil set _

theorem writes_text (hset : Plain set) {cs : List Char} (hv : text.toList = c :: cs)
    (h : Spells (c :: cs) d d' ts last) : Writes set [.text text] (Leads d c) d d' ts last := by
  intro p
  obtain ⟨bs, hb, hblank⟩ := pending_startLine_blank hset d p.page
  have hperform : perform set [.text text] p =
      { pass := { p with page := p.page.print set.indent text } } :=
    perform_onPage p (by rw [Instr.perform])
  have htext : text = String.ofList (c :: cs) := by rw [← hv, String.ofList_toList]
  have hpending : (p.page.print set.indent text).pending =
      p.page.pending ++ String.ofList (bs ++ c :: cs) := by
    rw [Page.print, hb, String.ofList_append, ← htext, String.append_assoc]
  have hspells : Spells (bs ++ c :: cs) d d' ts last := (spells_blank hblank).append h rfl
  cases bs with
  | nil => exact ⟨_, c, cs, hperform, hpending, .inl rfl, hspells⟩
  | cons b bs => exact ⟨_, b, bs ++ c :: cs, hperform, hpending, .inr (hblank b (by simp)), hspells⟩

theorem quiet_nil (set : Settings) (d : Nat) : Quiet set [] d := by
  intro p
  exact ⟨p, [], perform_nil set p, by simp, by simp⟩

theorem Quiet.append (h : Quiet set is d) (hj : Quiet set js d) : Quiet set (is ++ js) d := by
  intro p
  obtain ⟨q, bs, hp, hw, hb⟩ := h p
  obtain ⟨r, cs, hq, hv, hc⟩ := hj q
  refine ⟨r, bs ++ cs, ?_, ?_, ?_⟩
  · rw [perform_append, hp]
    exact hq
  · rw [hv, hw, String.append_assoc, ← String.ofList_append]
  · intro c hmem
    rcases List.mem_append.mp hmem with hmem | hmem
    · exact hb c hmem
    · exact hc c hmem

theorem quiet_mark (hset : Plain set) (loc : Option Location) (d : Nat) :
    Quiet set (markAt loc) d := by
  cases loc with
  | none => exact quiet_nil set d
  | some loc =>
    intro p
    obtain ⟨q, hperform, -, hpage⟩ := perform_markAt hset.maps (some loc) p
    obtain ⟨cs, hw, hb⟩ := pending_startLine_blank hset d p.page
    exact ⟨q, cs, hperform, by simpa [hpage] using hw, hb⟩

theorem quiet_indent (set : Settings) (d : Nat) : Quiet set [.indent] d := by
  intro p
  exact ⟨_, [], perform_onPage p (by rw [Instr.perform]), by simp [Page.indent], by simp⟩

theorem quiet_dedent (set : Settings) (d : Nat) : Quiet set [.dedent] d := by
  intro p
  exact ⟨_, [], perform_onPage p (by rw [Instr.perform]), by simp [Page.dedent], by simp⟩

/-- Inside of brackets, a line break is white space. -/
theorem quiet_newline (set : Settings) (d : Nat) : Quiet set [.newline] (d + 1) := by
  intro p
  exact ⟨_, ['\n'], perform_onPage p (by rw [Instr.perform]), rfl, by simp [isBlank]⟩

theorem writes_newline (set : Settings) (d : Nat) :
    Writes set [.newline] (isBlank (d + 1) · = true) (d + 1) (d + 1) [] .idle := by
  intro p
  refine ⟨_, '\n', [], perform_onPage p (by rw [Instr.perform]), rfl, rfl, spells_blank ?_⟩
  simp [isBlank]

theorem writes_symbol (hset : Plain set) {cs : List Char} (d : Nat) (h : text ∈ symbols)
    (hv : text.toList = c :: cs) :
    Writes set [.text text] (Leads d c) d (Token.depthAfter d (.symbol text)) [.symbol text]
      (.symbol (c :: cs)) := by
  have hs := spells_symbol d h
  rw [hv] at hs
  exact writes_text hset hv hs

theorem writes_word (hset : Plain set) (d : Nat) (h : isWord text = true) :
    ∃ c, isWordStart c = true ∧
      Writes set [.text text] (Leads d c) d d [.word text] (.word text.toList) := by
  obtain ⟨c, cs, hv, hc, hs⟩ := spells_of_isWord d h
  rw [hv] at hs
  exact ⟨c, hc, hv ▸ writes_text hset hv hs⟩

/-- A token between spaces. -/
theorem writes_spaced (hset : Plain set) (ht : text.toList ≠ [])
    (h : Spells text.toList d d ts last) :
    Writes set [.text (" " ++ text ++ " ")] (Leads d ' ') d d ts .idle := by
  have hblank : Spells [' '] d d [] .idle := spells_blank (by simp [isBlank])
  have hapart : last.apart ' ' = true := apart_blank (d := d) rfl h.tokens?_ne_none
  obtain ⟨c, cs, hv⟩ := List.exists_cons_of_ne_nil ht
  have htext : (" " ++ text ++ " ").toList = ' ' :: (c :: cs ++ [' ']) := by simp [hv]
  refine writes_text hset htext ?_
  rw [hv] at h
  simpa using hblank.append (h.append hblank hapart) rfl

theorem writes_spaced_symbol (hset : Plain set) (d : Nat) (h : text ∈ symbols)
    (hd : text ∉ ["(", "[", "\x7b", ")", "]", "\x7d"]) :
    Writes set [.text (" " ++ text ++ " ")] (Leads d ' ') d d [.symbol text] .idle := by
  have hs := spells_symbol d h
  have hdepth : Token.depthAfter d (.symbol text) = d := by
    simp only [List.mem_cons, not_or] at hd
    simp [Token.depthAfter, hd]
  rw [hdepth] at hs
  exact writes_spaced hset (symbol_ne_nil h) hs

theorem writes_spaced_word (hset : Plain set) (d : Nat) (h : isWord text = true) :
    Writes set [.text (" " ++ text ++ " ")] (Leads d ' ') d d [.word text] .idle := by
  obtain ⟨c, cs, hv, -, hs⟩ := spells_of_isWord d h
  exact writes_spaced hset (by simp [hv]) hs

/-- A character that a sign does not go on with. -/
def Clear (c : Char) : Prop := c ≠ '=' ∧ c ≠ '>'

theorem Leads.clear {x : Char} (h : Leads d c x) (hc : Clear c) : Clear x := by
  rcases h with rfl | hx
  · exact hc
  · simp only [isBlank, Bool.or_eq_true, Bool.and_eq_true, decide_eq_true_eq] at hx
    rcases hx with (rfl | rfl) | ⟨rfl, -⟩ <;> exact ⟨by decide, by decide⟩

theorem clear_of_isWordStart (h : isWordStart c = true) : Clear c := by
  constructor <;> rintro rfl <;> revert h <;> decide

/-- The punctuation after an expression. -/
def enders : List Char := [')', ']', '\x7d', ',', ':', '(', '[']

/-- A token that the punctuation after an expression does not run into. -/
def Pending.Ends (last : Pending) : Prop :=
  ∀ c ∈ enders, last.apart c = true

theorem ends_word (cs : List Char) : (Pending.word cs).Ends := by
  intro c hc
  have hall : ∀ c ∈ enders,
      (!isWordChar c && c ≠ '"') = true := by decide
  exact hall c hc

theorem ends_int (cs : List Char) : (Pending.int cs).Ends := by
  intro c hc
  have hall : ∀ c ∈ enders,
      (!Decimal.isDigit c && !isWordChar c && c ≠ '.') = true := by decide
  exact hall c hc

theorem ends_closed (cs : List Char) : (Pending.closed cs).Ends := by
  intro c hc
  have hall : ∀ c ∈ enders, decide (c ≠ '"') = true := by decide
  exact hall c hc

/-- A bracket or a comma ends before every character. -/
theorem apart_whole {x : Char} (hx : x ∈ ['(', '[', '\x7b', ')', ']', '\x7d', ',']) (c : Char) :
    (Pending.symbol [x]).apart c = true := by
  have hall : ∀ x ∈ ['(', '[', '\x7b', ')', ']', '\x7d', ','], ∀ s ∈ symbols,
      [x].isPrefixOf s.toList = true → s.toList = [x] := by decide
  have hnot := not_isSymbolStart_of_whole c (hall x hx)
  rw [Pending.apart, hnot]
  rfl

/-- A character that goes on with some others only. -/
theorem apart_of_next {x : Char} {next : List Char}
    (hall : ∀ s ∈ symbols, s.toList.head? = some x → ∀ y ∈ s.toList.tail, y ∈ next)
    (hc : c ∉ next) : (Pending.symbol [x]).apart c = true := by
  have hnot : isSymbolStart ([x] ++ [c]) = false := by
    rw [isSymbolStart, List.any_eq_false]
    intro s hs hp
    obtain ⟨rest, hrest⟩ := List.isPrefixOf_iff_prefix.mp hp
    exact hc (hall s hs (by simp [← hrest]) c (by simp [← hrest]))
  rw [Pending.apart, hnot]
  rfl

theorem apart_sign {x : Char} (hx : x ∈ ['+', '-', '~', '=']) (hc : Clear c) :
    (Pending.symbol [x]).apart c = true := by
  have hall : ∀ x ∈ ['+', '-', '~', '='], ∀ s ∈ symbols, s.toList.head? = some x →
      ∀ y ∈ s.toList.tail, y ∈ ['=', '>'] := by decide
  exact apart_of_next (hall x hx) (by simpa [Clear] using hc)

theorem apart_point (hc : isWordStart c = true) : (Pending.symbol ['.']).apart c = true := by
  have hall : ∀ s ∈ symbols, s.toList.head? = some '.' → ∀ y ∈ s.toList.tail, y ∈ ['.'] := by
    decide
  refine apart_of_next hall ?_
  rw [List.mem_singleton]
  rintro rfl
  revert hc
  decide

/-- Instructions write the tokens of an expression, or of some of them. -/
def Lays (set : Settings) (is : List Instr) (d : Nat) (ts : List Token) : Prop :=
  ∃ last, Writes set is Clear d d ts last ∧ last.Ends

theorem ends_bracket {x : Char} (hx : x ∈ ['(', '[', '\x7b', ')', ']', '\x7d', ',']) :
    (Pending.symbol [x]).Ends :=
  fun c _ => apart_whole hx c

theorem clear_of_mem {x : Char} (hx : x ∈ ['(', '[', '\x7b', '+', '-', '~', '"']) : Clear x := by
  have hall : ∀ x ∈ ['(', '[', '\x7b', '+', '-', '~', '"'], x ≠ '=' ∧ x ≠ '>' := by decide
  exact hall x hx

theorem clear_of_isBlank (h : isBlank d c = true) : Clear c :=
  Leads.clear (c := '(') (.inr h) (clear_of_mem (by decide))

theorem Lays.after_mark (hset : Plain set) (loc : Option Location) (h : Lays set is d ts) :
    Lays set (markAt loc ++ is) d ts := by
  obtain ⟨last, hw, hl⟩ := h
  exact ⟨last, .after_quiet (quiet_mark hset loc d) hw fun _ => clear_of_isBlank, hl⟩

/-- Brackets that belong together. -/
def brackets : List (String × String) := [("(", ")"), ("[", "]"), ("\x7b", "\x7d")]

theorem writes_opening (hset : Plain set) {opening close : String} (d : Nat)
    (hb : (opening, close) ∈ brackets) :
    ∃ x, opening.toList = [x] ∧ x ∈ ['(', '[', '\x7b'] ∧
      Writes set [.text opening] (Leads d x) d (d + 1) [.symbol opening] (.symbol [x]) := by
  simp only [brackets, List.mem_cons, Prod.mk.injEq, List.not_mem_nil, or_false] at hb
  rcases hb with ⟨rfl, -⟩ | ⟨rfl, -⟩ | ⟨rfl, -⟩ <;>
    exact ⟨_, rfl, by decide, writes_symbol hset d (by decide) rfl⟩

theorem writes_closing (hset : Plain set) {opening close : String} (d : Nat)
    (hb : (opening, close) ∈ brackets) :
    ∃ x, x ∈ [')', ']', '\x7d'] ∧ Writes set [.text close] (Leads (d + 1) x) (d + 1) d
      [.symbol close] (.symbol [x]) := by
  simp only [brackets, List.mem_cons, Prod.mk.injEq, List.not_mem_nil, or_false] at hb
  rcases hb with ⟨-, rfl⟩ | ⟨-, rfl⟩ | ⟨-, rfl⟩ <;>
    exact ⟨_, by decide, writes_symbol hset (d + 1) (by decide) rfl⟩

/-- Instructions write the tokens of an expression that a point may follow. -/
def LaysPrimary (set : Settings) (is : List Instr) (d : Nat) (ts : List Token) : Prop :=
  ∃ last, Writes set is Clear d d ts last ∧ last.Ends ∧ last.apart '.' = true

theorem LaysPrimary.lays (h : LaysPrimary set is d ts) : Lays set is d ts := by
  obtain ⟨last, hw, hl, -⟩ := h
  exact ⟨last, hw, hl⟩

theorem LaysPrimary.after_mark (hset : Plain set) (loc : Option Location)
    (h : LaysPrimary set is d ts) : LaysPrimary set (markAt loc ++ is) d ts := by
  obtain ⟨last, hw, hl⟩ := h
  exact ⟨last, .after_quiet (quiet_mark hset loc d) hw fun _ => clear_of_isBlank, hl⟩

/-- What stands between brackets, if anything does. -/
theorem writes_enclosed (hset : Plain set) {opening close : String}
    (hb : (opening, close) ∈ brackets) (h : is = [] ∧ ts = [] ∨ Lays set is (d + 1) ts) :
    ∃ x y, opening.toList = [x] ∧ x ∈ ['(', '[', '\x7b'] ∧ y ∈ [')', ']', '\x7d'] ∧
      Writes set ([.text opening] ++ is ++ [.text close]) (Leads d x) d d
        ([.symbol opening] ++ ts ++ [.symbol close]) (.symbol [y]) := by
  obtain ⟨x, hv, hx, hopen⟩ := writes_opening hset d hb
  obtain ⟨y, hy, hclose⟩ := writes_closing hset d hb
  have hwhole : ∀ z ∈ ['(', '[', '\x7b'], z ∈ ['(', '[', '\x7b', ')', ']', '\x7d', ','] := by
    decide
  have hx' := hwhole x hx
  refine ⟨x, y, hv, hx, hy, ?_⟩
  rcases h with ⟨rfl, rfl⟩ | ⟨last, hw, hl⟩
  · exact hopen.append_leads hclose (apart_whole hx' y)
  · have hin := hopen.append hw fun c _ => apart_whole hx' c
    have hend : ∀ z ∈ [')', ']', '\x7d'], z ∈ enders := by decide
    exact hin.append_leads hclose (hl y (hend y hy))

theorem ends_closing {y : Char} (hy : y ∈ [')', ']', '\x7d']) :
    (Pending.symbol [y]).Ends ∧ (Pending.symbol [y]).apart '.' = true := by
  have hwhole : ∀ z ∈ [')', ']', '\x7d'], z ∈ ['(', '[', '\x7b', ')', ']', '\x7d', ','] := by
    decide
  exact ⟨fun c _ => apart_whole (hwhole y hy) c, apart_whole (hwhole y hy) '.'⟩

theorem laysPrimary_enclosed (hset : Plain set) {opening close : String}
    (hb : (opening, close) ∈ brackets) (h : is = [] ∧ ts = [] ∨ Lays set is (d + 1) ts) :
    LaysPrimary set ([.text opening] ++ is ++ [.text close]) d
      ([.symbol opening] ++ ts ++ [.symbol close]) := by
  obtain ⟨x, y, -, hx, hy, hw⟩ := writes_enclosed hset hb h
  have hclear : ∀ z ∈ ['(', '[', '\x7b'], Clear z := by
    have hall : ∀ z ∈ ['(', '[', '\x7b'], z ≠ '=' ∧ z ≠ '>' := by decide
    exact hall
  exact ⟨.symbol [y], hw.mono fun z hz => hz.clear (hclear x hx), ends_closing hy⟩

/-- A call or a subscript of an expression. -/
theorem Lays.then_enclosed (hset : Plain set) {opening close : String} (h : Lays set is d ts)
    (hb : (opening, close) ∈ [("(", ")"), ("[", "]")])
    (hj : js = [] ∧ us = [] ∨ Lays set js (d + 1) us) :
    LaysPrimary set (is ++ ([.text opening] ++ js ++ [.text close])) d
      (ts ++ ([.symbol opening] ++ us ++ [.symbol close])) := by
  have hsub : ∀ b ∈ [("(", ")"), ("[", "]")], b ∈ brackets := by decide
  have hend : ∀ b ∈ [("(", ")"), ("[", "]")], ∀ x ∈ b.1.toList, x ∈ enders := by decide
  obtain ⟨last, hw, hl⟩ := h
  obtain ⟨x, y, hv, -, hy, hin⟩ := writes_enclosed hset (hsub _ hb) hj
  have hx := hl x (hend _ hb x (by simp [hv]))
  exact ⟨.symbol [y], hw.append_leads hin hx, ends_closing hy⟩

/-- A separator ends with white space. -/
def Separates (set : Settings) (is : List Instr) (d : Nat) (ts : List Token) : Prop :=
  ∃ x, (x = ' ' ∨ x ∈ enders) ∧ Writes set is (Leads d x) d d ts .idle

theorem Lays.join {ks : List Instr} {vs : List Token} (h : Lays set is d ts)
    (hsep : Separates set js d us) (hk : Lays set ks d vs) :
    Lays set (is ++ js ++ ks) d (ts ++ us ++ vs) := by
  obtain ⟨last, hw, hl⟩ := h
  obtain ⟨x, hx, hs⟩ := hsep
  obtain ⟨last', hv, hl'⟩ := hk
  have hapart : last.apart x = true := by
    rcases hx with rfl | hx
    · exact apart_blank (d := d) rfl hw.tokens?_ne_none
    · exact hl x hx
  exact ⟨last', (hw.append_leads hs hapart).append hv fun _ _ => rfl, hl'⟩

theorem lays_separated {items : List (List Instr)} {tss : List (List Token)}
    (hsep : Separates set js d us) (h : List.Forall₂ (Lays set · d) items tss)
    (hne : items ≠ []) : Lays set (separated js items) d (us.intercalate tss) := by
  induction h with
  | nil => exact absurd rfl hne
  | cons hitem hitems ih =>
    cases hitems with
    | nil => simpa [separated] using hitem
    | cons hnext hmore =>
      have htail := ih (by simp)
      rw [separated, List.intercalate_cons_cons]
      · exact hitem.join hsep htail
      · simp

theorem separates_spaced_symbol (hset : Plain set) (d : Nat) (text : String)
    (h : text ∈ symbols)
    (hd : text ∉ ["(", "[", "\x7b", ")", "]", "\x7d"]) :
    Separates set [.text (" " ++ text ++ " ")] d [.symbol text] :=
  ⟨' ', .inl rfl, writes_spaced_symbol hset d h hd⟩

theorem separates_spaced_word (hset : Plain set) (d : Nat) (text : String)
    (h : isWord text = true) : Separates set [.text (" " ++ text ++ " ")] d [.word text] :=
  ⟨' ', .inl rfl, writes_spaced_word hset d h⟩

theorem separates_comma (hset : Plain set) (d : Nat) :
    Separates set [.text ", "] d [.symbol ","] := by
  refine ⟨',', .inr (by decide), writes_text hset (show ", ".toList = [',', ' '] from rfl) ?_⟩
  intro before
  exact ⟨{ tokens := before ++ [.symbol ","], depth := d }, rfl, rfl,
    by simp [Scan.settle, Pending.tokens?]⟩

theorem separates_colon (hset : Plain set) (d : Nat) :
    Separates set [.text ": "] d [.symbol ":"] := by
  refine ⟨':', .inr (by decide), writes_text hset (show ": ".toList = [':', ' '] from rfl) ?_⟩
  intro before
  exact ⟨{ tokens := before ++ [.symbol ":"], depth := d }, rfl, rfl,
    by simp [Scan.settle, Pending.tokens?]⟩

theorem separates_comma_newline (hset : Plain set) (d : Nat) :
    Separates set [.text ",", .newline] (d + 1) [.symbol ","] := by
  refine ⟨',', .inr (by decide), ?_⟩
  have hcomma : Writes set [.text ","] (Leads (d + 1) ',') (d + 1) (d + 1) [.symbol ","]
      (.symbol [',']) := writes_symbol hset (d + 1) (by decide) rfl
  exact hcomma.append (writes_newline set d) fun c _ => apart_whole (by decide) c

end CodePrinter.Python
