import CodePrinter.Proofs.OneLine
import CodePrinter.Proofs.Runs
import CodePrinter.Proofs.Python.Spelling
import Mathlib.Data.List.Chain
import Mathlib.Data.List.Forall2

/-! Lines made of words, symbols and spaces, and the instructions that print them.

Main statements: a line is read as its words and symbols, if none of them runs into the next
(`tokens?_spell`), and what two lists of instructions say is said one after the other
(`Says.append`). -/
namespace CodePrinter.Python

/-- A part of a line. -/
inductive Piece where
  | word (text : String)
  | symbol (text : String)
  | space
  deriving DecidableEq

namespace Piece

def text : Piece → String
  | .word text => text
  | .symbol text => text
  | .space => " "

@[simp] def tokens : Piece → List Token
  | .word text => [.word text]
  | .symbol text => [.symbol text]
  | .space => []

def isWhole : Piece → Bool
  | .word text => isWord text
  | .symbol text => text ∈ symbols
  | .space => true

/-- The token at hand after a part. -/
def pending : Piece → Pending
  | .word text => .word text.toList
  | .symbol text => .symbol text.toList
  | .space => .idle

/-- Two parts may stand side by side. A bracket, a comma or a colon does not go on with a symbol,
and nothing goes on with a bracket. -/
def apart : Piece → Piece → Bool
  | .word _, .word _ => false
  | .symbol text, .symbol next => text = "(" || next ∈ ["(", ")", ",", ":"]
  | _, _ => true

@[simp] theorem apart_space_left (p : Piece) : apart .space p = true := by cases p <;> rfl

@[simp] theorem apart_space_right (p : Piece) : p.apart .space = true := by cases p <;> rfl

@[simp] theorem apart_open_left (p : Piece) : apart (.symbol "(") p = true := by cases p <;> rfl

@[simp] theorem apart_comma (p : Piece) : p.apart (.symbol ",") = true := by
  cases p <;> simp [apart]

@[simp] theorem apart_colon (p : Piece) : p.apart (.symbol ":") = true := by
  cases p <;> simp [apart]

@[simp] theorem apart_close (p : Piece) : p.apart (.symbol ")") = true := by
  cases p <;> simp [apart]

end Piece

/-- The text of a line. -/
def spell (ps : List Piece) : String := String.join (ps.map Piece.text)

/-- The tokens of a line. -/
def wording (ps : List Piece) : List Token := ps.flatMap Piece.tokens

/-- Whole words and symbols, none of which runs into the next. -/
def Phrase (ps : List Piece) : Prop :=
  (∀ p ∈ ps, p.isWhole = true) ∧ ps.IsChain (Piece.apart · · = true)

instance (ps : List Piece) : Decidable (Phrase ps) := inferInstanceAs (Decidable (_ ∧ _))

variable {p q : Piece} {ps qs : List Piece} {pss : List (List Piece)} {c : Char} {cs : List Char}
  {text : String}

@[simp] theorem spell_cons (p : Piece) (ps : List Piece) :
    spell (p :: ps) = p.text ++ spell ps := by
  simp [spell]

@[simp] theorem spell_append (ps qs : List Piece) : spell (ps ++ qs) = spell ps ++ spell qs := by
  simp [spell]

@[simp] theorem wording_nil : wording [] = [] := rfl

@[simp] theorem wording_cons (p : Piece) (ps : List Piece) :
    wording (p :: ps) = p.tokens ++ wording ps := by
  simp [wording]

@[simp] theorem wording_append (ps qs : List Piece) :
    wording (ps ++ qs) = wording ps ++ wording qs := by
  simp [wording]

theorem not_isWordChar_of_mem_symbol (h : text ∈ symbols) (hc : c ∈ text.toList) :
    isWordChar c = false := by
  obtain ⟨-, -, -, hstart, hdigit, -⟩ := of_mem_symbol h hc
  rw [isWordChar, hstart, ← isDigit_eq, hdigit]
  rfl

/-- A character that symbols only begin with ends every symbol. -/
theorem not_isSymbolStart_of_notMem_tail (hne : cs ≠ []) (h : ∀ s ∈ symbols, c ∉ s.toList.tail) :
    isSymbolStart (cs ++ [c]) = false := by
  rw [isSymbolStart, List.any_eq_false]
  intro s hs hprefix
  obtain ⟨rest, hrest⟩ := List.isPrefixOf_iff_prefix.mp hprefix
  apply h s hs
  rw [← hrest, List.append_assoc, List.tail_append_of_ne_nil hne]
  simp

theorem isWordChar_of_isWord (h : isWord text = true) (hc : c ∈ text.toList) :
    isWordChar c = true := by
  unfold isWord at h
  cases ht : text.toList with
  | nil => simp [ht] at hc
  | cons x xs =>
    simp only [ht, Bool.and_eq_true, List.all_eq_true] at h
    rw [ht] at hc
    rcases List.mem_cons.mp hc with rfl | hc
    · rw [isWordChar, h.1, Bool.true_or]
    · exact h.2 c hc

theorem spells_piece (d : Nat) (h : p.isWhole = true) :
    ∃ c cs after, p.text.toList = c :: cs ∧ Spells p.text.toList d after p.tokens p.pending := by
  cases p with
  | word text =>
    obtain ⟨c, cs, ht, -, hs⟩ := spells_of_isWord d h
    exact ⟨c, cs, d, ht, hs⟩
  | symbol text =>
    have hmem : text ∈ symbols := of_decide_eq_true h
    obtain ⟨c, cs, ht⟩ := List.exists_cons_of_ne_nil (symbol_ne_nil hmem)
    exact ⟨c, cs, _, ht, spells_symbol d hmem⟩
  | space => exact ⟨' ', [], d, rfl, spells_blank (by simp [isBlank, Piece.text])⟩

/-- A line that does not begin with a space has a first character that is not one. -/
theorem head_spell (hp : p ≠ .space) (h : Phrase (p :: ps)) :
    ∃ c cs, (spell (p :: ps)).toList = c :: cs ∧ c ≠ ' ' := by
  have hwhole := h.1 p (by simp)
  obtain ⟨c, cs, -, hcs, -⟩ := spells_piece 0 hwhole
  refine ⟨c, cs ++ (spell ps).toList, by simp [hcs], ?_⟩
  rintro rfl
  have hmem : ' ' ∈ p.text.toList := by simp [hcs]
  cases p with
  | space => exact hp rfl
  | word text => exact absurd (isWordChar_of_isWord hwhole hmem) (by decide)
  | symbol text => exact (of_mem_symbol (of_decide_eq_true hwhole) hmem).1 rfl

/-- What may stand before a part ends before it. -/
theorem apart_piece (hp : p.isWhole = true) (hq : q.isWhole = true) (h : p.apart q = true)
    (hc : q.text.toList = c :: cs) : p.pending.apart c = true := by
  have hmem : c ∈ q.text.toList := by simp [hc]
  cases p with
  | space => rfl
  | word text =>
    cases q with
    | word _ => cases h
    | space =>
      obtain rfl : ' ' = c := by simpa [Piece.text] using congrArg List.head? hc
      rfl
    | symbol symbol =>
      have hsymbol : symbol ∈ symbols := of_decide_eq_true hq
      obtain ⟨-, -, -, -, -, hquote⟩ := of_mem_symbol hsymbol hmem
      simp [Piece.pending, Pending.apart, not_isWordChar_of_mem_symbol hsymbol hmem, hquote]
  | symbol text =>
    have hsymbol : text ∈ symbols := of_decide_eq_true hp
    have hnot : isSymbolStart (text.toList ++ [c]) = false := by
      cases q with
      | space =>
        obtain rfl : ' ' = c := by simpa [Piece.text] using congrArg List.head? hc
        exact not_isSymbolStart_of_notMem (by decide)
      | word word =>
        -- no symbol has a character that a word begins with
        obtain ⟨x, xs, hx, hstart, -⟩ := spells_of_isWord 0 hq
        obtain rfl : x = c := by
          rw [Piece.text, hx] at hc
          exact (List.cons.inj hc).1
        apply not_isSymbolStart_of_notMem
        intro s hs hxs
        obtain ⟨-, -, -, hno, -⟩ := of_mem_symbol hs hxs
        rw [hno] at hstart
        cases hstart
      | symbol next =>
        simp only [Piece.apart, Bool.or_eq_true, decide_eq_true_eq] at h
        rcases h with rfl | hnext
        · exact not_isSymbolStart_of_whole c (by decide)
        · have hall : ∀ next ∈ ["(", ")", ",", ":"], ∀ c ∈ next.toList, ∀ s ∈ symbols,
              c ∉ s.toList.tail := by decide
          exact not_isSymbolStart_of_notMem_tail (symbol_ne_nil hsymbol) (hall next hnext c hmem)
    rw [Piece.pending, Pending.apart, hnot]
    rfl

theorem spells_phrase (d : Nat) (hne : ps ≠ []) (h : Phrase ps) :
    ∃ after last, Spells (spell ps).toList d after (wording ps) last := by
  obtain ⟨hwhole, hchain⟩ := h
  -- brackets change the depth, so the rest is read at whatever depth a part leads to
  induction ps generalizing d with
  | nil => exact absurd rfl hne
  | cons p ps ih =>
    obtain ⟨c, cs, after, -, hp⟩ := spells_piece d (hwhole p (by simp))
    cases ps with
    | nil => exact ⟨after, p.pending, by simpa [spell, wording] using hp⟩
    | cons q ps =>
      obtain ⟨hapart, hchain⟩ := List.isChain_cons_cons.mp hchain
      obtain ⟨x, xs, -, hx, -⟩ := spells_piece 0 (hwhole q (by simp))
      obtain ⟨last, hlast, hps⟩ :=
        ih after (by simp) (fun r hr => hwhole r (List.mem_cons_of_mem p hr)) hchain
      have hend := apart_piece (hwhole p (by simp)) (hwhole q (by simp)) hapart hx
      refine ⟨last, hlast, ?_⟩
      have htext : (spell (q :: ps)).toList = x :: (xs ++ (spell ps).toList) := by simp [hx]
      rw [htext] at hps
      have happend := hp.append hps hend
      rw [← htext] at happend
      simpa [wording] using happend

/-- A line is read as its words and symbols. -/
theorem tokens?_spell (hne : ps ≠ []) (h : Phrase ps) : tokens? (spell ps) = some (wording ps) := by
  obtain ⟨after, last, hs⟩ := spells_phrase 0 hne h
  rw [← tokens?_of_spells hs, String.ofList_toList]

theorem oneLine_spell (h : Phrase ps) : Text.OneLine (spell ps) := by
  have hpiece : ∀ p : Piece, p.isWhole = true → Text.OneLine p.text := by
    intro p hp hmem
    cases p with
    | space => revert hmem; decide
    | symbol text =>
      obtain ⟨-, -, hno, -⟩ := of_mem_symbol (of_decide_eq_true hp) hmem
      exact hno rfl
    | word text => exact absurd (isWordChar_of_isWord hp hmem) (by decide)
  obtain ⟨hwhole, -⟩ := h
  induction ps with
  | nil => decide
  | cons p ps ih =>
    rw [spell_cons, Text.oneLine_append]
    exact ⟨hpiece p (hwhole p (by simp)), ih fun q hq => hwhole q (List.mem_cons_of_mem p hq)⟩

theorem Phrase.append (h : Phrase ps) (hq : Phrase qs)
    (ha : ∀ p ∈ ps.getLast?, ∀ q ∈ qs.head?, p.apart q = true) : Phrase (ps ++ qs) := by
  refine ⟨?_, List.isChain_append.mpr ⟨h.2, hq.2, ha⟩⟩
  intro p hp
  rcases List.mem_append.mp hp with hp | hp
  · exact h.1 p hp
  · exact hq.1 p hp

/-- Parts with commas between them. -/
def commaPieces (pss : List (List Piece)) : List Piece := [.symbol ",", .space].intercalate pss

theorem commaPieces_cons_cons (ps qs : List Piece) (pss : List (List Piece)) :
    commaPieces (ps :: qs :: pss) = ps ++ [.symbol ",", .space] ++ commaPieces (qs :: pss) := by
  rw [commaPieces, List.intercalate_cons_cons, commaPieces]

theorem phrase_commaPieces (h : ∀ ps ∈ pss, Phrase ps) : Phrase (commaPieces pss) := by
  induction pss with
  | nil => decide
  | cons ps pss ih =>
    have hps := h ps (by simp)
    have htail := ih fun qs hqs => h qs (List.mem_cons_of_mem ps hqs)
    cases pss with
    | nil => simpa [commaPieces] using hps
    | cons qs pss =>
      have hcomma : Phrase [.symbol ",", .space] := by decide
      rw [commaPieces_cons_cons]
      exact (hps.append hcomma (by simp)).append htail (by simp)

theorem spell_commaPieces (pss : List (List Piece)) :
    spell (commaPieces pss) = ", ".intercalate (pss.map spell) := by
  induction pss with
  | nil => rfl
  | cons ps pss ih =>
    cases pss with
    | nil => simp [commaPieces]
    | cons qs pss =>
      have hcomma : spell [.symbol ",", .space] = ", " := by decide
      rw [commaPieces_cons_cons, spell_append, spell_append, ih, hcomma]
      simp only [List.map_cons, String.intercalate_cons_cons]

theorem wording_commaPieces (pss : List (List Piece)) :
    wording (commaPieces pss) = [.symbol ","].intercalate (pss.map wording) := by
  induction pss with
  | nil => rfl
  | cons ps pss ih =>
    cases pss with
    | nil => simp [commaPieces]
    | cons qs pss =>
      have hcomma : wording [.symbol ",", .space] = [.symbol ","] := rfl
      rw [commaPieces_cons_cons, wording_append, wording_append, ih, hcomma]
      simp only [List.map_cons, List.intercalate_cons_cons]

/-- Instructions print a line, or a part of one. -/
structure Says (set : Settings) (is : List Instr) (ps : List Piece) : Prop where
  puts : Puts set is (spell ps)
  phrase : Phrase ps

section Says

variable {set : Settings} {is js : List Instr} {items : List (List Instr)}

theorem says_text (set : Settings) (h : spell ps = text ∧ Phrase ps) :
    Says set [.text text] ps := by
  obtain ⟨rfl, hphrase⟩ := h
  exact ⟨puts_text set (spell ps), hphrase⟩

theorem says_word (set : Settings) (h : isWord text = true) :
    Says set [.text text] [.word text] := by
  have hphrase : Phrase [.word text] := ⟨by simpa [Piece.isWhole] using h, .singleton _⟩
  exact says_text set ⟨by simp [spell, Piece.text], hphrase⟩

theorem Says.append (h : Says set is ps) (hj : Says set js qs)
    (ha : ∀ p ∈ ps.getLast?, ∀ q ∈ qs.head?, p.apart q = true) :
    Says set (is ++ js) (ps ++ qs) := by
  refine ⟨?_, h.phrase.append hj.phrase ha⟩
  rw [spell_append]
  exact h.puts.append hj.puts

theorem Says.after_mark (hm : set.Unchecked) (loc : Option Location)
    (h : Says set is ps) : Says set (markAt loc ++ is) ps :=
  ⟨h.puts.after_mark hm loc, h.phrase⟩

/-- A header ends with a colon. -/
theorem Says.colon (h : Says set is ps) : Says set (is ++ [.text ":"]) (ps ++ [.symbol ":"]) :=
  h.append (says_text set (by decide)) (by simp)

theorem says_commaSeparated (hne : items ≠ []) (h : List.Forall₂ (Says set) items pss) :
    Says set (commaSeparated items) (commaPieces pss) := by
  induction h with
  | nil => exact absurd rfl hne
  | @cons is ps items pss hitem hitems ih =>
    cases hitems with
    | nil => simpa [commaSeparated, separated, commaPieces] using hitem
    | cons hnext hmore =>
      have hcomma : Says set [.text ", "] [.symbol ",", .space] := says_text set (by decide)
      have htail := ih (by simp)
      rw [commaPieces_cons_cons]
      exact (hitem.append hcomma (by simp)).append htail (by simp)

end Says

end CodePrinter.Python
