import CodePrinter.Proofs.Python.Grammar

/-! What the reader makes of tokens, whatever follows them.

The tokens of an expression may be followed by any token that the rule of their level does not go
on with. Main statement: what is read at a level is read as the same at every looser one
(`Parses.loosen`). -/
namespace CodePrinter.Python

/-- The rank of the level whose rule goes on with a token after its first part. -/
def Token.joinRank? : Token → Option Nat
  | .word text =>
    [("if", 0), ("or", 1), ("and", 2), ("is", 4), ("in", 4), ("not", 4)].lookup text
  | .symbol text =>
    [("==", 4), ("!=", 4), ("<", 4), ("<=", 4), (">", 4), (">=", 4), ("|", 5), ("^", 6), ("&", 7),
      ("<<", 8), (">>", 8), ("+", 9), ("-", 9), ("*", 10), ("/", 10), ("//", 10), ("%", 10),
      ("@", 10), ("**", 12), (".", 13), ("(", 13), ("[", 13)].lookup text
  | .string _ => some 14
  | .int _ => none

/-- The rank of the level whose rule begins with a token of its own. -/
def Token.openRank? : Token → Option Nat
  | .word text => [("lambda", 0), ("not", 3)].lookup text
  | .symbol text => [("+", 11), ("-", 11), ("~", 11)].lookup text
  | _ => none

/-- No level of a rank or a higher one goes on with the next token. -/
def Stops (rank : Nat) (rest : List Token) : Prop :=
  ∀ t ∈ rest.head?, ∀ k ∈ t.joinRank?, k < rank

/-- An expression begins with a token, and a level of a lower rank does not take it for its own. -/
def Opens (rank : Nat) (ts : List Token) : Prop :=
  ∃ t us, ts = t :: us ∧ (∀ k ∈ t.openRank?, rank ≤ k) ∧
    ∀ text, t = .symbol text → text ∈ ["(", "[", "\x7b", "+", "-", "~"]

/-- Tokens are read as an expression of a level, if there is enough fuel for them. -/
structure Parses (level : Level) (ts : List Token) (e : Expr) : Prop where
  opens : Opens level.rank ts
  reads : ∀ fuel rest, 15 * ts.length ≤ fuel + level.rank → Stops level.rank rest →
    parse fuel level (ts ++ rest) = some (e, rest)

variable {α β : Type} {p : Level → Reader Expr} {l : Level} {rank rank' n : Nat}
  {ts us rest : List Token} {e : Expr}

theorem Stops.mono (h : Stops rank rest) (hr : rank ≤ rank') : Stops rank' rest := by
  intro t ht k hk
  exact Nat.lt_of_lt_of_le (h t ht k hk) hr

theorem Opens.mono (h : Opens rank ts) (hr : rank' ≤ rank) : Opens rank' ts := by
  obtain ⟨t, us, hts, ht, hsymbol⟩ := h
  exact ⟨t, us, hts, fun k hk => Nat.le_trans hr (ht k hk), hsymbol⟩

theorem Opens.append (h : Opens rank ts) (us : List Token) : Opens rank (ts ++ us) := by
  obtain ⟨t, vs, rfl, ht, hsymbol⟩ := h
  exact ⟨t, vs ++ us, rfl, ht, hsymbol⟩

theorem Opens.length_pos (h : Opens rank ts) : 0 < ts.length := by
  obtain ⟨t, us, rfl, -⟩ := h
  simp

/-! A rule does not go on with a token that stops it. -/

theorem word?_eq_none {text : String} (h : Stops rank rest)
    (hk : (Token.word text).joinRank? = some rank) : word? text rest = none := by
  cases rest with
  | nil => rfl
  | cons t ts =>
    cases t with
    | word w =>
      have hw : w ≠ text := by
        rintro rfl
        exact Nat.lt_irrefl rank (h _ rfl rank hk)
      simp [word?, hw]
    | int _ | string _ | symbol _ => rfl

theorem operator?_eq_none {ops : List (String × α)} (h : Stops rank rest)
    (hk : ∀ x ∈ ops, (Token.symbol x.1).joinRank? = some rank) : operator? ops rest = none := by
  cases rest with
  | nil => rfl
  | cons t ts =>
    cases t with
    | symbol text =>
      cases hl : ops.lookup text with
      | none => simp [operator?, hl]
      | some op =>
        obtain ⟨before, after, rfl, -⟩ := List.lookup_eq_some_iff.mp hl
        exact absurd (h _ rfl rank (hk (text, op) (by simp))) (Nat.lt_irrefl rank)
    | word _ | int _ | string _ => rfl

theorem chain_of_none {separator : Reader β} {item : Reader α} (n : Nat)
    (h : separator rest = none) : chain separator item n rest = some ([], rest) := by
  cases n with
  | zero => rfl
  | succ n => simp [chain, h]

theorem Stops.head?_ne {t : Token} (h : Stops rank rest) (hk : t.joinRank? = some rank) :
    rest.head? ≠ some t := by
  intro ht
  exact Nat.lt_irrefl rank (h t ht rank hk)

theorem Opens.head?_ne {t : Token} (h : Opens (rank + 1) ts) (hk : t.openRank? = some rank) :
    ts.head? ≠ some t := by
  obtain ⟨u, us, rfl, hu, -⟩ := h
  rintro ⟨⟩
  have := hu rank hk
  omega

theorem compareOp?_eq_none (h : Stops 4 rest) : compareOp? rest = none := by
  have hne : ∀ t : Token, t.joinRank? = some 4 → rest.head? ≠ some t := fun t => h.head?_ne
  unfold compareOp?
  split
  · exact absurd rfl (hne (.word "is") rfl)
  · exact absurd rfl (hne (.word "is") rfl)
  · exact absurd rfl (hne (.word "in") rfl)
  · exact absurd rfl (hne (.word "not") rfl)
  · exact operator?_eq_none h (by decide)

theorem readTrailers_of_stops (n : Nat) (h : Stops 13 rest) :
    readTrailers p n e rest = some (e, rest) := by
  have hne : ∀ t : Token, t.joinRank? = some 13 → rest.head? ≠ some t := fun t => h.head?_ne
  unfold readTrailers
  split
  · rfl
  · exact absurd rfl (hne (.symbol ".") rfl)
  · exact absurd rfl (hne (.symbol "(") rfl)
  · exact absurd rfl (hne (.symbol "[") rfl)
  · rfl

theorem operator?_of_opens (h : Opens 12 ts) : operator? unaryOps ts = none := by
  obtain ⟨t, us, rfl, ht, -⟩ := h
  cases t with
  | symbol text =>
    cases hl : unaryOps.lookup text with
    | none => simp [operator?, hl]
    | some op =>
      obtain ⟨before, after, heq, -⟩ := List.lookup_eq_some_iff.mp hl
      have hall : ∀ x ∈ unaryOps, (Token.symbol x.1).openRank? = some 11 := by decide
      have := ht 11 (hall (text, op) (by simp [heq]))
      omega
  | word _ | int _ | string _ => rfl

theorem readBoolean_of_none {op : BoolOp} {word : String} {operand : Reader Expr}
    (h : operand ts = some (e, rest)) (hw : word? word rest = none) :
    readBoolean op word operand ts = some (e, rest) := by
  simp [readBoolean, h, chain_of_none _ hw]

theorem readBinary_of_tighter (h : p l.tighter ts = some (e, rest)) (hs : Stops l.rank rest) :
    readBinary p l ts = some (e, rest) := by
  have hk : ∀ x ∈ l.binaryOps, (Token.symbol x.1).joinRank? = some l.rank := by
    cases l <;> decide
  simp [readBinary, h, chain_of_none _ (operator?_eq_none hs hk)]

/-- What the next level reads is read by a level, where that does not go on. -/
theorem readLevel_of_tighter (hl : l ≠ .atom) (h : p l.tighter ts = some (e, rest))
    (hs : Stops l.rank rest) (ho : Opens (l.rank + 1) ts) : readLevel p l ts = some (e, rest) := by
  cases l with
  | expression =>
    change readExpression p ts = _
    unfold readExpression
    split
    · exact absurd rfl (ho.head?_ne (t := .word "lambda") rfl)
    · unfold readConditional
      simp only [Level.tighter] at h
      simp only [h, Option.bind_eq_bind, Option.bind_some]
      split
      · exact absurd rfl (hs.head?_ne (t := .word "if") rfl)
      · rfl
  | disjunction => exact readBoolean_of_none h (word?_eq_none hs rfl)
  | conjunction => exact readBoolean_of_none h (word?_eq_none hs rfl)
  | inversion =>
    change readInversion p ts = _
    unfold readInversion
    split
    · exact absurd rfl (ho.head?_ne (t := .word "not") rfl)
    · exact h
  | comparison =>
    simp only [Level.tighter] at h
    simp [readLevel, readComparison, h, chain_of_none _ (compareOp?_eq_none hs)]
  | bitOr | bitXor | bitAnd | shift | sum | product => exact readBinary_of_tighter h hs
  | factor =>
    simp only [Level.tighter] at h
    simpa [readLevel, readFactor, operator?_of_opens ho] using h
  | power =>
    change readPower p ts = _
    unfold readPower
    simp only [Level.tighter] at h
    simp only [h, Option.bind_eq_bind, Option.bind_some]
    split
    · exact absurd rfl (hs.head?_ne (t := .symbol "**") rfl)
    · rfl
  | primary =>
    simp only [Level.tighter] at h
    simp [readLevel, readPrimary, h, readTrailers_of_stops _ hs]
  | atom => exact absurd rfl hl

theorem Level.rank_le (l : Level) : l.rank ≤ 14 := by
  cases l <;> decide

theorem Level.rank_tighter (hl : l ≠ .atom) : l.tighter.rank = l.rank + 1 := by
  cases l with
  | atom => exact absurd rfl hl
  | _ => rfl

theorem Level.eq_of_rank_eq {l' : Level} (h : l.rank = l'.rank) : l = l' := by
  revert h
  cases l <;> cases l' <;> decide

/-- A rule is given some fuel to read its parts with. -/
theorem parse_of_readLevel {fuel : Nat} {r : Option (Expr × List Token)} (hf : 0 < fuel)
    (h : readLevel (parse (fuel - 1)) l ts = r) : parse fuel l ts = r := by
  obtain ⟨n, rfl⟩ := Nat.exists_eq_succ_of_ne_zero (Nat.pos_iff_ne_zero.mp hf)
  exact h

namespace Parses

theorem loosen_one (hl : l ≠ .atom) (h : Parses l.tighter ts e) : Parses l ts e := by
  have hrank := Level.rank_tighter hl
  have hopens := h.opens
  rw [hrank] at hopens
  refine ⟨hopens.mono (Nat.le_succ l.rank), ?_⟩
  intro fuel rest hfuel hstops
  have hlen := hopens.length_pos
  have htop := l.tighter.rank_le
  refine parse_of_readLevel (by omega) (readLevel_of_tighter hl ?_ hstops (hopens.append rest))
  exact h.reads (fuel - 1) rest (by omega) (hstops.mono (by omega))

theorem loosen (h : Parses l ts e) (l' : Level) (hr : l'.rank ≤ l.rank) : Parses l' ts e := by
  obtain ⟨k, hk⟩ := Nat.exists_eq_add_of_le hr
  induction k generalizing l' with
  | zero => rwa [← Level.eq_of_rank_eq hk]
  | succ k ih =>
    have hl : l' ≠ .atom := by
      rintro rfl
      have := l.rank_le
      have : Level.atom.rank = 14 := rfl
      omega
    have hrank := Level.rank_tighter hl
    exact loosen_one hl (ih _ (by omega) (by omega))

end Parses

end CodePrinter.Python
