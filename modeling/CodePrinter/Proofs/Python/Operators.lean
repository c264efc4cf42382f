import CodePrinter.Proofs.Python.Forms

/-! Expressions with operators, read from the tokens of their operands. -/
namespace CodePrinter.Python

variable {α β : Type} {l : Level} {rank fuel n : Nat} {ts us vs rest : List Token}
  {tss : List (List Token)} {e f g : Expr} {es : List Expr} {name text : String}

/-- Tokens are read as a separator and an item after it. -/
structure Link (separator : Reader β) (item : Reader α) (rank : Nat) (ts : List Token)
    (x : β × α) : Prop where
  stops : ∀ rest, Stops (rank + 1) (ts ++ rest)
  length_pos : 0 < ts.length
  reads : ∀ rest, Stops (rank + 1) rest →
    ∃ mid, separator (ts ++ rest) = some (x.1, mid) ∧ item mid = some (x.2, rest)

variable {separator : Reader β} {item : Reader α} {xs : List (β × α)}

theorem stops_links (h : List.Forall₂ (Link separator item rank) tss xs)
    (hs : Stops (rank + 1) rest) : Stops (rank + 1) (tss.flatten ++ rest) := by
  cases h with
  | nil => exact hs
  | cons hlink hlinks =>
    rw [List.flatten_cons, List.append_assoc]
    exact hlink.stops _

theorem chain_links (h : List.Forall₂ (Link separator item rank) tss xs)
    (hs : Stops (rank + 1) rest) (hend : separator rest = none) (hn : tss.length ≤ n) :
    chain separator item n (tss.flatten ++ rest) = some (xs, rest) := by
  induction h generalizing n with
  | nil => exact chain_of_none n hend
  | @cons ts x tss xs hlink hlinks ih =>
    obtain ⟨n, rfl⟩ := Nat.exists_eq_succ_of_ne_zero (Nat.ne_of_gt (Nat.zero_lt_of_lt hn))
    obtain ⟨mid, hsep, hitem⟩ := hlink.reads _ (stops_links hlinks hs)
    rw [List.flatten_cons, List.append_assoc, chain, hsep]
    simp [hitem, ih (Nat.le_of_succ_le_succ hn)]

theorem length_le_flatten (h : List.Forall₂ (Link separator item rank) tss xs) :
    tss.length ≤ (tss.flatten ++ rest).length := by
  induction h with
  | nil => simp
  | cons hlink _ ih =>
    have := hlink.length_pos
    simp only [List.flatten_cons, List.length_append, List.length_cons] at ih ⊢
    omega

/-- The rules with operands of the next level: the first operand, and then the links. -/
theorem first_and_chain (hl : l ≠ .atom) (hfirst : Parses l.tighter ts e)
    (hf : 15 * ts.length ≤ fuel + l.tighter.rank)
    (hlinks : List.Forall₂ (Link separator item l.rank) tss xs) (hs : Stops l.rank rest)
    (hend : separator rest = none) :
    parse fuel l.tighter (ts ++ (tss.flatten ++ rest)) = some (e, tss.flatten ++ rest) ∧
      chain separator item (tss.flatten ++ rest).length (tss.flatten ++ rest) =
        some (xs, rest) := by
  have hs' : Stops (l.rank + 1) rest := hs.mono (Nat.le_succ l.rank)
  refine ⟨hfirst.reads fuel _ hf ?_, chain_links hlinks hs' hend (length_le_flatten hlinks)⟩
  rw [Level.rank_tighter hl]
  exact stops_links hlinks hs'

theorem link_of_parses {t : Token} (b : β) (hl : l ≠ .atom) (ht : t.joinRank? = some l.rank)
    (hsep : ∀ rest, separator (t :: ts ++ (us ++ rest)) = some (b, us ++ rest))
    (h : Parses l.tighter us f) (hf : 15 * us.length ≤ fuel + l.tighter.rank) :
    Link separator (parse fuel l.tighter) l.rank (t :: ts ++ us) (b, f) := by
  refine ⟨fun rest => stops_of_lt ht (Nat.lt_succ_self _), by simp, ?_⟩
  intro rest hs
  rw [← Level.rank_tighter hl] at hs
  exact ⟨us ++ rest, by rw [List.append_assoc, hsep rest], h.reads fuel rest hf hs⟩

theorem readLevel_binary (p : Level → Reader Expr) (h : l.binaryOps ≠ []) :
    readLevel p l = readBinary p l := by
  cases l with
  | bitOr | bitXor | bitAnd | shift | sum | product => rfl
  | _ => exact absurd rfl h

theorem parses_binary {op : BinaryOp} (hop : l.binaryOps.lookup text = some op)
    (hleft : Parses l.tighter ts e) (hright : Parses l.tighter us f) :
    Parses l (ts ++ .symbol text :: us) (.binary e op f) := by
  have hne : l.binaryOps ≠ [] := by
    intro hnil
    simp [hnil] at hop
  have hl : l ≠ .atom := by
    rintro rfl
    exact hne rfl
  have hrank := Level.rank_tighter hl
  have hops : ∀ x ∈ l.binaryOps, (Token.symbol x.1).joinRank? = some l.rank := by
    cases l <;> decide
  have htext : (Token.symbol text).joinRank? = some l.rank := by
    obtain ⟨before, after, heq, -⟩ := List.lookup_eq_some_iff.mp hop
    exact hops (text, op) (by simp [heq])
  refine .of_rule ((hleft.loosen l (by omega)).opens.append _) ?_
  intro fuel rest hfuel hstops
  simp only [List.length_append, List.length_cons] at hfuel
  have hsep : ∀ rest, operator? l.binaryOps (.symbol text :: [] ++ (us ++ rest)) =
      some (op, us ++ rest) := by
    intro rest
    simp [operator?, hop]
  have hlink := link_of_parses op hl htext hsep hright (show _ ≤ fuel + _ by omega)
  obtain ⟨hfirst, hchain⟩ := first_and_chain hl hleft (show _ ≤ fuel + _ by omega)
    (.cons hlink .nil) hstops (operator?_eq_none hstops hops)
  simp only [List.flatten_cons, List.flatten_nil, List.append_nil, List.cons_append,
    List.nil_append] at hfirst hchain
  rw [readLevel_binary _ hne, List.append_assoc, List.cons_append, readBinary, hfirst]
  simp only [Option.bind_eq_bind, Option.bind_some]
  rw [hchain]
  rfl

/-- No operator stands between the levels of factors and powers. -/
theorem stops_factor (h : Stops 12 rest) : Stops 11 rest := by
  intro t ht k hk
  have hne : k ≠ 11 := by
    rintro rfl
    cases t with
    | word text | symbol text =>
      obtain ⟨before, after, heq, -⟩ := List.lookup_eq_some_iff.mp hk
      have hmem : (text, 11) ∈ before ++ (text, 11) :: after := by simp
      rw [← heq] at hmem
      simp at hmem
    | int _ | string _ => simp [Token.joinRank?] at hk
  have := h t ht k hk
  omega

theorem parses_power (hbase : Parses .primary ts e) (hexponent : Parses .factor us f) :
    Parses .power (ts ++ .symbol "**" :: us) (.binary e .pow f) := by
  refine .of_rule ((hbase.loosen .power (by decide)).opens.append _) ?_
  intro fuel rest hfuel hstops
  simp only [List.length_append, List.length_cons, Level.rank] at hfuel
  have hfirst := hbase.reads fuel (.symbol "**" :: (us ++ rest))
    (by simp only [Level.rank]; omega) (stops_of_lt rfl (by decide))
  have hsecond := hexponent.reads fuel rest (by simp only [Level.rank]; omega)
    (stops_factor hstops)
  rw [List.append_assoc, readLevel, readPower, List.cons_append, hfirst]
  simp [hsecond]

theorem parses_sign {op : UnaryOp} (hop : unaryOps.lookup text = some op)
    (h : Parses .factor ts e) : Parses .factor (.symbol text :: ts) (.unary op e) := by
  have hopen : (Token.symbol text).openRank? = some 11 ∧
      text ∈ ["(", "[", "\x7b", "+", "-", "~"] := by
    have hall : ∀ x ∈ unaryOps, (Token.symbol x.1).openRank? = some 11 ∧
        x.1 ∈ ["(", "[", "\x7b", "+", "-", "~"] := by decide
    obtain ⟨before, after, heq, -⟩ := List.lookup_eq_some_iff.mp hop
    exact hall (text, op) (by simp [heq])
  refine .of_rule ⟨_, ts, rfl, ?_, ?_⟩ ?_
  · intro k hk
    rw [hopen.1] at hk
    cases hk
    exact Nat.le_refl 11
  · rintro _ ⟨⟩
    exact hopen.2
  · intro fuel rest hfuel hstops
    simp only [List.length_cons, Level.rank] at hfuel
    have hread := h.reads fuel rest (by simp only [Level.rank]; omega) hstops
    simp [readLevel, readFactor, operator?, hop, hread]

theorem parses_not (h : Parses .inversion ts e) :
    Parses .inversion (.word "not" :: ts) (.unary .not e) := by
  refine .of_rule ⟨_, ts, rfl, by decide, by simp⟩ ?_
  intro fuel rest hfuel hstops
  simp only [List.length_cons, Level.rank] at hfuel
  have hread := h.reads fuel rest (by simp only [Level.rank]; omega) hstops
  simp [readLevel, readInversion, hread]

theorem parses_boolean_chain {op : BoolOp} {word : String} (hl : l ≠ .atom)
    (hrule : ∀ p, readLevel p l = readBoolean op word (p l.tighter))
    (hword : (Token.word word).joinRank? = some l.rank) (hfirst : Parses l.tighter ts e)
    (hmore : List.Forall₂ (Parses l.tighter) tss es) (hne : es ≠ []) :
    Parses l (ts ++ (tss.map (.word word :: ·)).flatten) (.boolean op (e :: es)) := by
  have hrank := Level.rank_tighter hl
  refine .of_rule ((hfirst.loosen l (by omega)).opens.append _) ?_
  intro fuel rest hfuel hstops
  rw [List.length_append] at hfuel
  have hlinks : List.Forall₂ (Link (word? word) (parse fuel l.tighter) l.rank)
      (tss.map (.word word :: ·)) (es.map fun e => ((), e)) := by
    rw [List.forall₂_map_left_iff, List.forall₂_map_right_iff]
    refine forall₂_imp_of_mem hmore ?_
    intro us hus f hf
    have hlen := (List.sublist_flatten_of_mem (List.mem_map_of_mem (f := (.word word :: ·))
      hus)).length_le
    have hsep : ∀ rest, word? word (.word word :: [] ++ (us ++ rest)) = some ((), us ++ rest) := by
      intro rest
      simp [word?]
    rw [List.length_cons] at hlen
    exact link_of_parses () hl hword hsep hf (by omega)
  obtain ⟨hread, hchain⟩ := first_and_chain hl hfirst (show _ ≤ fuel + _ by omega) hlinks hstops
    (word?_eq_none hstops hword)
  rw [hrule, List.append_assoc, readBoolean, hread]
  simp only [Option.bind_eq_bind, Option.bind_some]
  rw [hchain]
  simp [hne, Function.comp_def]

def compareTokens : CompareOp → List Token
  | .eq => [.symbol "=="]
  | .notEq => [.symbol "!="]
  | .lt => [.symbol "<"]
  | .ltE => [.symbol "<="]
  | .gt => [.symbol ">"]
  | .gtE => [.symbol ">="]
  | .is => [.word "is"]
  | .isNot => [.word "is", .word "not"]
  | .in => [.word "in"]
  | .notIn => [.word "not", .word "in"]
  | .unknown _ => []

/-- A comparison `is` is not taken for `is not`, since no operand begins with `not`. -/
theorem compareOp?_tokens {op : CompareOp} (hop : compareTokens op ≠ []) (h : Opens 5 ts) :
    compareOp? (compareTokens op ++ ts) = some (op, ts) := by
  cases op with
  | is =>
    have hne := (h.mono (show 4 ≤ 5 by decide)).head?_ne (t := .word "not") rfl
    obtain ⟨t, us, rfl, -⟩ := h
    change compareOp? (.word "is" :: t :: us) = _
    unfold compareOp?
    split <;> simp_all
  | unknown _ => exact absurd rfl hop
  | _ => rfl

/-- An operator of a comparison and the operand after it. -/
def ParsesComparison (ts : List Token) (x : CompareOp × Expr) : Prop :=
  compareTokens x.1 ≠ [] ∧ ∃ us, ts = compareTokens x.1 ++ us ∧ Parses .bitOr us x.2

theorem parses_compare {xs : List (CompareOp × Expr)} (hfirst : Parses .bitOr ts e)
    (hmore : List.Forall₂ ParsesComparison tss xs) (hne : xs ≠ []) :
    Parses .comparison (ts ++ tss.flatten) (.compare e (xs.map (·.1)) (xs.map (·.2))) := by
  have hl : Level.comparison ≠ .atom := by decide
  refine .of_rule ((hfirst.loosen .comparison (by decide)).opens.append _) ?_
  intro fuel rest hfuel hstops
  rw [List.length_append] at hfuel
  simp only [Level.rank] at hfuel
  have hlinks : List.Forall₂ (Link compareOp? (parse fuel .bitOr) 4) tss xs := by
    refine forall₂_imp_of_mem hmore ?_
    rintro _ hts ⟨op, f⟩ ⟨hop, us, rfl, hf⟩
    have hlen := (List.sublist_flatten_of_mem hts).length_le
    rw [List.length_append] at hlen
    have hsep := fun rest => compareOp?_tokens hop (hf.opens.append rest)
    obtain ⟨t, vs, htv, ht⟩ : ∃ t vs, compareTokens op = t :: vs ∧ t.joinRank? = some 4 := by
      cases op with
      | unknown _ => exact absurd rfl hop
      | _ => exact ⟨_, _, rfl, rfl⟩
    dsimp only at hop hsep ⊢
    rw [htv] at hsep ⊢
    exact link_of_parses op hl ht hsep hf (by simp only [Level.tighter, Level.rank]; omega)
  obtain ⟨hread, hchain⟩ := first_and_chain hl hfirst
    (show _ ≤ fuel + _ by simp only [Level.tighter, Level.rank]; omega) hlinks hstops
    (compareOp?_eq_none hstops)
  simp only [Level.tighter] at hread
  rw [readLevel, List.append_assoc, readComparison, hread]
  simp only [Option.bind_eq_bind, Option.bind_some]
  rw [hchain]
  simp [hne]

theorem parses_conditional (hbody : Parses .disjunction ts e) (htest : Parses .disjunction us f)
    (helse : Parses .expression vs g) :
    Parses .expression (ts ++ .word "if" :: (us ++ .word "else" :: vs)) (.conditional f e g) := by
  have hopen := hbody.opens
  refine .of_rule ((hopen.mono (show 0 ≤ 1 by decide)).append _) ?_
  intro fuel rest hfuel hstops
  simp only [List.length_append, List.length_cons, Level.rank] at hfuel
  have hfirst := hbody.reads fuel (.word "if" :: (us ++ .word "else" :: (vs ++ rest)))
    (by simp only [Level.rank]; omega) (stops_of_lt rfl (by decide))
  have hsecond := htest.reads fuel (.word "else" :: (vs ++ rest))
    (by simp only [Level.rank]; omega) (stops_of_none rfl)
  have hthird := helse.reads fuel rest (by simp only [Level.rank]; omega) hstops
  have hne := (hopen.append (.word "if" :: (us ++ .word "else" :: (vs ++ rest)))).head?_ne
    (t := .word "lambda") rfl
  have hassoc : ts ++ .word "if" :: (us ++ .word "else" :: vs) ++ rest =
      ts ++ .word "if" :: (us ++ .word "else" :: (vs ++ rest)) := by simp
  rw [hassoc, readLevel]
  unfold readExpression
  split
  · rename_i hts
    exact absurd (by rw [hts]; rfl) hne
  · simp [readConditional, hfirst, hsecond, hthird]

theorem lambdaParams_commas {names : List String} (h : ∀ name ∈ names, name ∉ keywords) :
    lambdaParams (commas (names.map fun name => [.word name]) ++ .symbol ":" :: rest) =
      some (names, rest) := by
  induction names with
  | nil => rfl
  | cons name names ih =>
    have hname := h name (by simp)
    have htail := ih fun x hx => h x (List.mem_cons_of_mem name hx)
    cases names with
    | nil => simp [commas, lambdaParams, hname]
    | cons next names =>
      rw [List.map_cons] at htail
      rw [List.map_cons, commas_cons]
      simp [moreItems, lambdaParams, hname, htail]

theorem parses_lambda {names : List String} (hnames : ∀ name ∈ names, name ∉ keywords)
    (h : Parses .expression ts e) :
    Parses .expression
      (.word "lambda" :: (commas (names.map fun name => [.word name]) ++ .symbol ":" :: ts))
      (.lambda (.mk [] (names.map (.mk · none)) none []) e) := by
  refine .of_rule ⟨_, _, rfl, by decide, by simp⟩ ?_
  intro fuel rest hfuel hstops
  simp only [List.length_append, List.length_cons, Level.rank] at hfuel
  have hread := h.reads fuel rest (by simp only [Level.rank]; omega) hstops
  have hassoc : commas (names.map fun name => [.word name]) ++ .symbol ":" :: ts ++ rest =
      commas (names.map fun name => [.word name]) ++ .symbol ":" :: (ts ++ rest) := by simp
  rw [List.cons_append, hassoc, readLevel]
  change readLambda (parse fuel) _ = _
  simp [readLambda, lambdaParams_commas hnames, hread]

/-! Attributes, calls and subscripts, which are read after the atom that they belong to. -/

/-- Tokens are read as an expression that more of the primary can follow. -/
structure Heads (ts : List Token) (e : Expr) : Prop where
  opens : Opens 13 ts
  reads : ∀ fuel rest, 15 * ts.length ≤ fuel + 14 → Stops 14 rest →
    ∃ n, rest.length ≤ n ∧
      readPrimary (parse fuel) (ts ++ rest) = readTrailers (parse fuel) n e rest

namespace Heads

theorem of_atom (h : Parses .atom ts e) : Heads ts e := by
  refine ⟨h.opens.mono (by decide), ?_⟩
  intro fuel rest hfuel hstops
  refine ⟨rest.length, Nat.le_refl _, ?_⟩
  simp [readPrimary, h.reads fuel rest hfuel hstops]

theorem parses (h : Heads ts e) : Parses .primary ts e := by
  refine .of_rule h.opens ?_
  intro fuel rest hfuel hstops
  simp only [Level.rank] at hfuel hstops
  obtain ⟨n, -, hread⟩ := h.reads fuel rest (by omega) (hstops.mono (by decide))
  rw [readLevel, hread]
  exact readTrailers_of_stops n hstops

theorem attr (h : Heads ts e) (hn : name ∉ keywords) :
    Heads (ts ++ [.symbol ".", .word name]) (.attr e name) := by
  refine ⟨h.opens.append _, ?_⟩
  intro fuel rest hfuel _
  simp only [List.length_append, List.length_cons] at hfuel
  obtain ⟨n, hlen, hread⟩ := h.reads fuel (.symbol "." :: .word name :: rest) (by omega)
    (stops_of_lt rfl (by decide))
  simp only [List.length_cons] at hlen
  obtain ⟨n, rfl⟩ := Nat.exists_eq_succ_of_ne_zero (show n ≠ 0 by omega)
  refine ⟨n, by omega, ?_⟩
  rw [List.append_assoc]
  refine hread.trans ?_
  simp [readTrailers, hn]

theorem subscript (h : Heads ts e) (hslice : Parses .expression us f) :
    Heads (ts ++ .symbol "[" :: us ++ [.symbol "]"]) (.subscript e f) := by
  refine ⟨(h.opens.append _).append _, ?_⟩
  intro fuel rest hfuel _
  simp only [List.length_append, List.length_cons] at hfuel
  obtain ⟨n, hlen, hread⟩ := h.reads fuel (.symbol "[" :: (us ++ .symbol "]" :: rest)) (by omega)
    (stops_of_lt rfl (by decide))
  have helement := readElement_of_parses (.symbol "]" :: rest) hslice (show _ ≤ fuel by omega)
    (stops_of_none rfl) (by simp)
  simp only [List.length_append, List.length_cons] at hlen
  obtain ⟨n, rfl⟩ := Nat.exists_eq_succ_of_ne_zero (show n ≠ 0 by omega)
  refine ⟨n, by omega, ?_⟩
  have hassoc : ts ++ .symbol "[" :: us ++ [.symbol "]"] ++ rest =
      ts ++ .symbol "[" :: (us ++ .symbol "]" :: rest) := by simp
  rw [hassoc, hread]
  simp [readTrailers, helement]

end Heads

/-- An argument of a call, with its keyword if it has one. -/
def ParsesArgument (ts : List Token) : Option String × Expr → Prop
  | (none, e) => Parses .expression ts e
  | (some name, e) => name ∉ keywords ∧
    ∃ us, ts = .word name :: .symbol "=" :: us ∧ Parses .expression us e

theorem readsItem_argument {x : Option String × Expr} (h : ParsesArgument ts x)
    (hf : 15 * ts.length ≤ fuel) : ReadsItem ")" (readArgument (parse fuel)) ts x := by
  have hclose : ")" ∈ closing := by decide
  obtain ⟨_ | name, e⟩ := x
  · refine ⟨h.opens, ?_⟩
    intro text rest ht
    obtain ⟨hk, hne, heq⟩ := joinRank?_of_closing hclose ht
    have helement := readElement_of_parses (.symbol text :: rest) h hf (stops_of_none hk)
      (by simpa using hne)
    have hnone := nameBefore?_eq_none h (show (Token.symbol "=").joinRank? = none from rfl)
      (show (Token.symbol text :: rest).head? ≠ _ by simpa using heq)
    simp [readArgument, hnone, helement]
  · obtain ⟨hn, us, rfl, he⟩ := h
    refine ⟨opens_word hn, ?_⟩
    intro text rest ht
    obtain ⟨hk, -, -⟩ := joinRank?_of_closing hclose ht
    simp only [List.length_cons] at hf
    have hread := he.reads fuel (.symbol text :: rest) (by omega) (stops_of_none hk)
    simp [readArgument, nameBefore?, hn, hread]

theorem splitArguments_append (args : List Expr) (named : List (String × Expr)) :
    splitArguments (args.map (none, ·) ++ named.map fun x => (some x.1, x.2)) =
      some (args, named.map fun x => .mk x.1 x.2) := by
  have hnamed : splitArguments (named.map fun x => (some x.1, x.2)) =
      some ([], named.map fun x => .mk x.1 x.2) := by
    induction named with
    | nil => rfl
    | cons x named ih => simp [splitArguments, ih]
  induction args with
  | nil => exact hnamed
  | cons e args ih => simp [splitArguments, ih]

theorem Heads.call {items : List (Option String × Expr)} {args : List Expr}
    {keywords : List Keyword} (h : Heads ts e) (hitems : List.Forall₂ ParsesArgument tss items)
    (hsplit : splitArguments items = some (args, keywords)) :
    Heads (ts ++ .symbol "(" :: commas tss ++ [.symbol ")"]) (.call e args keywords) := by
  refine ⟨(h.opens.append _).append _, ?_⟩
  intro fuel rest hfuel _
  simp only [List.length_append, List.length_cons] at hfuel
  obtain ⟨n, hlen, hread⟩ := h.reads fuel (.symbol "(" :: (commas tss ++ .symbol ")" :: rest))
    (by omega) (stops_of_lt rfl (by decide))
  have hreads := readsItems hitems (show _ ≤ fuel by omega) readsItem_argument
  have hargs := itemsUntil_of_length_le rest (by decide) hreads (Nat.le_refl _)
  simp only [List.length_append, List.length_cons] at hlen
  obtain ⟨n, rfl⟩ := Nat.exists_eq_succ_of_ne_zero (show n ≠ 0 by omega)
  refine ⟨n, by omega, ?_⟩
  have hassoc : ts ++ .symbol "(" :: commas tss ++ [.symbol ")"] ++ rest =
      ts ++ .symbol "(" :: (commas tss ++ .symbol ")" :: rest) := by simp
  rw [hassoc, hread]
  simp only [readTrailers, hargs, Option.bind_eq_bind, Option.bind_some]
  rw [hsplit]
  rfl

end CodePrinter.Python
