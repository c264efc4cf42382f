import CodePrinter.Proofs.Python.Levels
import Mathlib.Data.List.Forall2

/-! The forms of expressions, read from the tokens of their parts. -/
namespace CodePrinter.Python

variable {α β : Type} {l : Level} {rank fuel n : Nat} {ts us rest : List Token}
  {tss : List (List Token)} {e f g : Expr} {es fs : List Expr} {name text close : String}

theorem Parses.of_rule (ho : Opens l.rank ts)
    (h : ∀ fuel rest, 15 * ts.length ≤ fuel + 1 + l.rank → Stops l.rank rest →
      readLevel (parse fuel) l (ts ++ rest) = some (e, rest)) : Parses l ts e := by
  refine ⟨ho, ?_⟩
  intro fuel rest hfuel hstops
  have hlen := ho.length_pos
  have htop := l.rank_le
  exact parse_of_readLevel (by omega) (h (fuel - 1) rest (by omega) hstops)

theorem stops_of_none {t : Token} (h : t.joinRank? = none) : Stops rank (t :: rest) := by
  rintro u ⟨⟩ k hk
  rw [h] at hk
  cases hk

theorem stops_of_lt {t : Token} {k : Nat} (h : t.joinRank? = some k) (hk : k < rank) :
    Stops rank (t :: rest) := by
  rintro u ⟨⟩ j hj
  rw [h] at hj
  cases hj
  exact hk

theorem opens_symbol (h : text ∈ ["(", "[", "\x7b"]) : Opens rank (.symbol text :: us) := by
  refine ⟨_, us, rfl, ?_, ?_⟩
  · have hall : ∀ t ∈ ["(", "[", "\x7b"], (Token.symbol t).openRank? = none := by decide
    simp [hall text h]
  · rintro t ⟨⟩
    revert h
    simp only [List.mem_cons]
    tauto

/-! Atoms. -/

theorem ne_of_notMem_keywords {word : String} (h : name ∉ keywords) (hw : word ∈ keywords) :
    name ≠ word := by
  rintro rfl
  exact h hw

theorem opens_word (h : name ∉ keywords) : Opens rank (.word name :: us) := by
  have h1 := beq_false_of_ne (ne_of_notMem_keywords h (show "lambda" ∈ keywords by decide))
  have h2 := beq_false_of_ne (ne_of_notMem_keywords h (show "not" ∈ keywords by decide))
  refine ⟨_, us, rfl, ?_, by simp⟩
  simp [Token.openRank?, List.lookup_cons, h1, h2]

theorem parses_name (h : name ∉ keywords) : Parses .atom [.word name] (.name name) := by
  refine .of_rule (opens_word h) ?_
  intro fuel rest _ _
  have h1 := ne_of_notMem_keywords h (show "True" ∈ keywords by decide)
  have h2 := ne_of_notMem_keywords h (show "False" ∈ keywords by decide)
  have h3 := ne_of_notMem_keywords h (show "None" ∈ keywords by decide)
  simp [readLevel, readAtom, h, h1, h2, h3]

theorem parses_bool (value : Bool) :
    Parses .atom [.word (if value then "True" else "False")] (.bool value) := by
  cases value <;> exact .of_rule ⟨_, [], rfl, by decide, by simp⟩ fun _ _ _ _ => rfl

theorem parses_none : Parses .atom [.word "None"] .noneValue :=
  .of_rule ⟨_, [], rfl, by decide, by simp⟩ fun _ _ _ _ => rfl

theorem parses_int (value : Nat) : Parses .atom [.int value] (.int (.ofInt value)) :=
  .of_rule ⟨_, [], rfl, by simp [Token.openRank?], by simp⟩ fun _ _ _ _ => rfl

theorem parses_string (value : String) : Parses .atom [.string value] (.string value) := by
  refine .of_rule ⟨_, [], rfl, by simp [Token.openRank?], by simp⟩ ?_
  intro fuel rest _ hstops
  have hrest : adjacentStrings rest = ("", rest) := by
    unfold adjacentStrings
    split
    · exact absurd rfl (hstops.head?_ne (t := .string _) rfl)
    · rfl
  simp [readLevel, readAtom, hrest]

/-! Items between commas. -/

/-- No expression begins with a name and a sign of assignment. -/
theorem nameBefore?_eq_none (h : Parses .expression ts e)
    (hk : (Token.symbol text).joinRank? = none) (hr : rest.head? ≠ some (.symbol text)) :
    nameBefore? text (ts ++ rest) = none := by
  obtain ⟨t, us, rfl, -⟩ := h.opens
  cases t with
  | int _ | string _ | symbol _ => rfl
  | word name =>
    cases us with
    | nil =>
      cases rest with
      | nil => rfl
      | cons u rest =>
        cases u with
        | symbol s =>
          have hs : s ≠ text := by simpa using hr
          simp [nameBefore?, hs]
        | word _ | int _ | string _ => rfl
    | cons u us =>
      cases u with
      | word _ | int _ | string _ => rfl
      | symbol s =>
        by_contra hsome
        have hs : s = text ∧ name ∉ keywords := by
          by_contra hn
          simp [nameBefore?, hn] at hsome
        obtain ⟨rfl, hname⟩ := hs
        -- The name alone is an expression, so that the reader would stop at the sign.
        have hall := h.reads (15 * (us.length + 2)) [] (by simp) (by simp [Stops])
        have hfirst := ((parses_name hname).loosen .expression (by decide)).reads
          (15 * (us.length + 2)) (.symbol s :: us) (by simp; omega) (stops_of_none hk)
        rw [List.append_nil] at hall
        exact absurd (hall.symm.trans hfirst) (by simp)

theorem readElement_of_parses (rest : List Token) (h : Parses .expression ts e)
    (hf : 15 * ts.length ≤ fuel) (hs : Stops 0 rest) (hr : rest.head? ≠ some (.symbol ":=")) :
    readElement (parse fuel) (ts ++ rest) = some (e, rest) := by
  simp only [readElement, nameBefore?_eq_none h rfl hr]
  exact h.reads fuel rest hf hs

/-- Tokens are read as an item that ends before a comma or a closing bracket. -/
structure ReadsItem (close : String) (item : Reader α) (ts : List Token) (a : α) : Prop where
  opens : Opens 0 ts
  reads : ∀ text rest, text = "," ∨ text = close →
    item (ts ++ .symbol text :: rest) = some (a, .symbol text :: rest)

def commas (tss : List (List Token)) : List Token := [.symbol ","].intercalate tss

def closing : List String := [")", "]", "\x7d"]

theorem Opens.head?_closing (h : Opens rank ts) (hc : close ∈ closing) (rest : List Token) :
    (ts ++ rest).head? ≠ some (.symbol close) := by
  obtain ⟨t, us, rfl, -, hsymbol⟩ := h
  rintro ⟨⟩
  have hnot : ∀ text ∈ closing, text ∉ ["(", "[", "\x7b", "+", "-", "~"] := by decide
  exact hnot close hc (hsymbol close rfl)

variable {item : Reader α} {as : List α}

theorem itemsUntil_commas (hc : close ∈ closing)
    (h : List.Forall₂ (ReadsItem close item) tss as) (hn : tss.length < n) :
    itemsUntil close item n (commas tss ++ .symbol close :: rest) = some (as, rest) := by
  have hcomma : "," ≠ close := by
    rintro rfl
    revert hc
    decide
  induction h generalizing n with
  | nil =>
    obtain ⟨n, rfl⟩ := Nat.exists_eq_succ_of_ne_zero (Nat.ne_of_gt hn)
    simp [itemsUntil, commas]
  | @cons ts a tss as hitem hitems ih =>
    obtain ⟨n, rfl⟩ := Nat.exists_eq_succ_of_ne_zero (Nat.ne_of_gt (Nat.zero_lt_of_lt hn))
    have hopen := hitem.opens.head?_closing hc
    cases hitems with
    | nil =>
      have hlast : commas [ts] = ts := by simp [commas]
      rw [itemsUntil, hlast, if_neg (hopen _), hitem.reads close rest (.inr rfl)]
      simp
    | @cons us b tss as hnext hmore =>
      have htail := ih (n := n) (by simpa using hn)
      have hitem := hitem.reads "," (commas (us :: tss) ++ .symbol close :: rest) (.inl rfl)
      have hsplit : commas (ts :: us :: tss) ++ .symbol close :: rest =
          ts ++ .symbol "," :: (commas (us :: tss) ++ .symbol close :: rest) := by
        simp [commas, List.intercalate_cons_cons]
      rw [itemsUntil, hsplit, if_neg (hopen _), hitem]
      simp [hcomma, htail]

theorem length_le_length_commas (h : ∀ ts ∈ tss, ts ≠ []) : tss.length ≤ (commas tss).length := by
  induction tss with
  | nil => simp
  | cons ts tss ih =>
    have hts := List.length_pos_iff.mpr (h ts (by simp))
    have htss := ih fun us hus => h us (List.mem_cons_of_mem ts hus)
    cases tss with
    | nil => simpa [commas, Nat.succ_le_iff] using hts
    | cons us tss =>
      simp only [commas, List.intercalate_cons_cons, List.length_append, List.length_cons,
        List.length_nil] at htss ⊢
      omega

theorem ReadsItem.ne_nil_of_mem (h : List.Forall₂ (ReadsItem close item) tss as) :
    ∀ ts ∈ tss, ts ≠ [] := by
  induction h with
  | nil => simp
  | cons hitem _ ih =>
    rintro us (_ | ⟨_, hus⟩)
    · exact List.length_pos_iff.mp hitem.opens.length_pos
    · exact ih us hus

theorem itemsUntil_of_length_le (rest : List Token) (hc : close ∈ closing)
    (h : List.Forall₂ (ReadsItem close item) tss as)
    (hn : (commas tss ++ .symbol close :: rest).length ≤ n) :
    itemsUntil close item n (commas tss ++ .symbol close :: rest) = some (as, rest) := by
  refine itemsUntil_commas hc h ?_
  have := length_le_length_commas (ReadsItem.ne_nil_of_mem h)
  simp only [List.length_append, List.length_cons] at hn
  omega

theorem moreUntil_close : moreUntil close item (.symbol close :: rest) = some ([], rest) := by
  simp [moreUntil]

theorem moreUntil_comma (hc : close ∈ closing)
    (h : List.Forall₂ (ReadsItem close item) tss as) :
    moreUntil close item (.symbol "," :: (commas tss ++ .symbol close :: rest)) =
      some (as, rest) := by
  have hcomma : "," ≠ close := by
    rintro rfl
    revert hc
    decide
  have hitems := itemsUntil_of_length_le rest hc h (Nat.le_succ _)
  simpa [moreUntil, hcomma] using hitems

theorem length_le_of_mem_commas (h : ts ∈ tss) : ts.length ≤ (commas tss).length := by
  induction tss with
  | nil => cases h
  | cons us tss ih =>
    cases tss with
    | nil =>
      obtain rfl := List.mem_singleton.mp h
      simp [commas]
    | cons vs tss =>
      have hsplit : (commas (us :: vs :: tss)).length =
          us.length + 1 + (commas (vs :: tss)).length := by
        simp only [commas, List.intercalate_cons_cons, List.length_append, List.length_cons,
          List.length_nil]
      rcases List.mem_cons.mp h with rfl | htail
      · omega
      · have := ih htail
        omega

theorem forall₂_imp_of_mem {γ δ : Type} {R S : γ → δ → Prop} {xs : List γ} {ys : List δ}
    (h : List.Forall₂ R xs ys) (himp : ∀ x ∈ xs, ∀ y, R x y → S x y) : List.Forall₂ S xs ys :=
  ((List.forall₂_and_left _ _).mpr ⟨fun _ hx => hx, h⟩).imp fun x y hxy => himp x hxy.1 y hxy.2

/-- Items are read one by one, if there is enough fuel for all of them. -/
theorem readsItems {R : List Token → α → Prop} (h : List.Forall₂ R tss as)
    (hf : 15 * (commas tss).length ≤ fuel)
    (hitem : ∀ {ts a}, R ts a → 15 * ts.length ≤ fuel → ReadsItem close item ts a) :
    List.Forall₂ (ReadsItem close item) tss as := by
  refine forall₂_imp_of_mem h ?_
  intro ts hts a ha
  have := length_le_of_mem_commas hts
  exact hitem ha (by omega)

theorem joinRank?_of_closing (hc : close ∈ closing) (ht : text = "," ∨ text = close) :
    (Token.symbol text).joinRank? = none ∧ text ≠ ":=" ∧ text ≠ "=" := by
  have hall : ∀ t ∈ "," :: closing,
      (Token.symbol t).joinRank? = none ∧ t ≠ ":=" ∧ t ≠ "=" := by decide
  rcases ht with rfl | rfl
  · exact hall _ (by simp)
  · exact hall _ (by simp [hc])

theorem readsItem_element (hc : close ∈ closing) (h : Parses .expression ts e)
    (hf : 15 * ts.length ≤ fuel) : ReadsItem close (readElement (parse fuel)) ts e := by
  refine ⟨h.opens, ?_⟩
  intro text rest ht
  obtain ⟨hk, hne, -⟩ := joinRank?_of_closing hc ht
  exact readElement_of_parses _ h hf (stops_of_none hk) (by simpa using hne)

/-! Expressions in brackets. -/

section Brackets

variable {p : Level → Reader Expr}

theorem readParenthesized_of_opens (h : Opens 0 ts)
    (he : readElement p (ts ++ rest) = some (e, rest)) :
    readParenthesized p (ts ++ rest) = readTuple p e rest := by
  have hne := h.head?_closing (show ")" ∈ closing by decide) rest
  unfold readParenthesized
  split
  · rename_i hts
    exact absurd (by simp [hts]) hne
  · rw [he]
    rfl

theorem readBraced_of_opens (h : Opens 0 ts)
    (he : readElement p (ts ++ rest) = some (e, rest)) :
    readBraced p (ts ++ rest) = readSetOrDict p e rest := by
  have hne := h.head?_closing (show "\x7d" ∈ closing by decide) rest
  unfold readBraced
  split
  · rename_i hts
    exact absurd (by simp [hts]) hne
  · rw [he]
    rfl

end Brackets

/-- What stands between two brackets is read with the fuel that is left. -/
theorem parses_bracketed {opening : String} (ho : opening ∈ ["(", "[", "\x7b"])
    (h : ∀ fuel rest, 15 * ts.length ≤ fuel →
      readAtom (parse fuel) (.symbol opening :: (ts ++ .symbol close :: rest)) = some (e, rest)) :
    Parses .atom (.symbol opening :: ts ++ [.symbol close]) e := by
  refine .of_rule (opens_symbol ho) ?_
  intro fuel rest hfuel _
  have hlen : 15 * ts.length ≤ fuel := by
    simp only [List.length_append, List.length_cons, Level.rank] at hfuel
    omega
  simpa [readLevel] using h fuel rest hlen

theorem parses_group (h : Parses .expression ts e) :
    Parses .atom (.symbol "(" :: ts ++ [.symbol ")"]) e := by
  refine parses_bracketed (by decide) ?_
  intro fuel rest hfuel
  have he := readElement_of_parses (.symbol ")" :: rest) h hfuel (stops_of_none rfl) (by simp)
  exact readParenthesized_of_opens h.opens he

theorem parses_named (hn : name ∉ keywords) (h : Parses .expression ts e) :
    Parses .atom (.symbol "(" :: (.word name :: .symbol ":=" :: ts) ++ [.symbol ")"])
      (.named (.name name) e) := by
  refine parses_bracketed (by decide) ?_
  intro fuel rest hfuel
  simp only [List.length_cons] at hfuel
  have he := h.reads fuel (.symbol ")" :: rest) (by omega) (stops_of_none rfl)
  have helement : readElement (parse fuel)
      ((.word name :: .symbol ":=" :: ts) ++ .symbol ")" :: rest) =
        some (.named (.name name) e, .symbol ")" :: rest) := by
    simp [readElement, nameBefore?, hn, he]
  exact readParenthesized_of_opens (opens_word hn) helement

theorem parses_list (h : List.Forall₂ (Parses .expression) tss es) :
    Parses .atom (.symbol "[" :: commas tss ++ [.symbol "]"]) (.list es) := by
  refine parses_bracketed (by decide) ?_
  intro fuel rest hfuel
  have hitems := readsItems h hfuel (readsItem_element (show "]" ∈ closing by decide))
  have hread := itemsUntil_of_length_le rest (by decide) hitems (Nat.le_refl _)
  simp only [readAtom, hread, Option.bind_eq_bind, Option.bind_some]

/-- The items after the first. -/
def moreItems (tss : List (List Token)) : List Token :=
  if tss.isEmpty then [] else .symbol "," :: commas tss

theorem commas_cons (ts : List Token) (tss : List (List Token)) :
    commas (ts :: tss) = ts ++ moreItems tss := by
  cases tss with
  | nil => simp [commas, moreItems]
  | cons us tss => simp [commas, moreItems, List.intercalate_cons_cons]

theorem length_commas_le_moreItems (tss : List (List Token)) :
    (commas tss).length ≤ (moreItems tss).length := by
  cases tss with
  | nil => simp [commas, moreItems]
  | cons ts tss => simp [moreItems]

/-- The first item ends before a comma or a closing bracket. -/
theorem moreItems_head (close : String) (tss : List (List Token)) (rest : List Token) :
    ∃ text us, moreItems tss ++ .symbol close :: rest = .symbol text :: us ∧
      (text = "," ∨ text = close) := by
  cases tss with
  | nil => exact ⟨close, rest, rfl, .inr rfl⟩
  | cons ts tss => exact ⟨",", commas (ts :: tss) ++ .symbol close :: rest, rfl, .inl rfl⟩

theorem moreUntil_of_forall₂ (rest : List Token) (hc : close ∈ closing)
    (h : List.Forall₂ (ReadsItem close item) tss as) :
    moreUntil close item (moreItems tss ++ .symbol close :: rest) = some (as, rest) := by
  cases h with
  | nil => exact moreUntil_close
  | cons hitem hitems => exact moreUntil_comma hc (.cons hitem hitems)

theorem readParenthesized_comma (rest : List Token) (h : Parses .expression ts e)
    (hf : 15 * ts.length ≤ fuel)
    (hmore : List.Forall₂ (ReadsItem ")" (readElement (parse fuel))) tss es) :
    readParenthesized (parse fuel) (ts ++ .symbol "," :: (commas tss ++ .symbol ")" :: rest)) =
      some (.tuple (e :: es), rest) := by
  have he := readElement_of_parses (.symbol "," :: (commas tss ++ .symbol ")" :: rest)) h hf
    (stops_of_none rfl) (by simp)
  rw [readParenthesized_of_opens h.opens he]
  simp [readTuple, moreUntil_comma (show ")" ∈ closing by decide) hmore]

/-- A tuple of one element has a comma after it. -/
theorem parses_tuple (h : List.Forall₂ (Parses .expression) tss es) :
    Parses .atom
      (.symbol "(" :: (commas tss ++ if tss.length = 1 then [.symbol ","] else []) ++ [.symbol ")"])
      (.tuple es) := by
  refine parses_bracketed (by decide) ?_
  intro fuel rest hfuel
  change readParenthesized (parse fuel) _ = _
  cases h with
  | nil => rfl
  | cons hfirst hmore =>
    cases hmore with
    | nil =>
      simp only [commas, List.intercalate_singleton, List.length_cons, List.length_nil,
        List.length_append, ↓reduceIte] at hfuel
      simpa [commas] using readParenthesized_comma rest hfirst (by omega) .nil
    | cons hnext hmore =>
      simp only [commas_cons _ (_ :: _), moreItems, List.isEmpty_cons, List.length_append,
        List.length_cons, Bool.false_eq_true, ↓reduceIte] at hfuel
      have hitems := readsItems (.cons hnext hmore) (show 15 * _ ≤ fuel by omega)
        (readsItem_element (show ")" ∈ closing by decide))
      simpa [commas_cons _ (_ :: _), moreItems] using
        readParenthesized_comma rest hfirst (by omega) hitems

theorem parses_set (hfirst : Parses .expression ts e)
    (hmore : List.Forall₂ (Parses .expression) tss es) :
    Parses .atom (.symbol "\x7b" :: commas (ts :: tss) ++ [.symbol "\x7d"]) (.set (e :: es)) := by
  have hclose : "\x7d" ∈ closing := by decide
  refine parses_bracketed (by decide) ?_
  intro fuel rest hfuel
  rw [commas_cons, List.length_append] at hfuel
  have hlen := length_commas_le_moreItems tss
  have hitems := readsItems hmore (show _ ≤ fuel by omega) (readsItem_element hclose)
  have hread := moreUntil_of_forall₂ rest hclose hitems
  obtain ⟨text, us, htail, htext⟩ := moreItems_head "\x7d" tss rest
  have he := (readsItem_element hclose hfirst (show _ ≤ fuel by omega)).reads text us htext
  rw [htail] at hread
  rw [commas_cons, List.append_assoc, htail]
  refine (readBraced_of_opens hfirst.opens he).trans ?_
  unfold readSetOrDict
  split
  · rename_i hcolon
    simp only [List.cons.injEq, Token.symbol.injEq] at hcolon
    rw [hcolon.1] at htext
    exact absurd htext (by decide)
  · simp [hread]

/-- An entry of a dictionary. -/
def ParsesEntry (ts : List Token) (entry : Expr × Expr) : Prop :=
  ∃ us vs, ts = us ++ .symbol ":" :: vs ∧ Parses .expression us entry.1 ∧
    Parses .expression vs entry.2

theorem readsItem_entry {entry : Expr × Expr} (hc : close ∈ closing) (h : ParsesEntry ts entry)
    (hf : 15 * ts.length ≤ fuel) : ReadsItem close (readEntry (parse fuel)) ts entry := by
  obtain ⟨us, vs, rfl, hkey, hvalue⟩ := h
  simp only [List.length_append, List.length_cons] at hf
  refine ⟨hkey.opens.append _, ?_⟩
  intro text rest ht
  obtain ⟨hk, -, -⟩ := joinRank?_of_closing hc ht
  have hleft := hkey.reads fuel (.symbol ":" :: vs ++ .symbol text :: rest) (by omega)
    (stops_of_none rfl)
  have hright := hvalue.reads fuel (.symbol text :: rest) (by omega) (stops_of_none hk)
  rw [List.append_assoc, readEntry, hleft]
  simp [hright]

theorem parses_dict {entries : List (Expr × Expr)} (h : List.Forall₂ ParsesEntry tss entries) :
    Parses .atom (.symbol "\x7b" :: commas tss ++ [.symbol "\x7d"])
      (.dict (entries.map (·.1)) (entries.map (·.2))) := by
  have hclose : "\x7d" ∈ closing := by decide
  refine parses_bracketed (by decide) ?_
  intro fuel rest hfuel
  cases h with
  | nil => rfl
  | @cons ts entry tss entries hfirst hmore =>
    obtain ⟨us, vs, rfl, hkey, hvalue⟩ := hfirst
    simp only [commas_cons, List.length_append, List.length_cons] at hfuel
    have hlen := length_commas_le_moreItems tss
    have hitems := readsItems hmore (show _ ≤ fuel by omega) (readsItem_entry hclose)
    have hread := moreUntil_of_forall₂ rest hclose hitems
    obtain ⟨text, ws, htail, htext⟩ := moreItems_head "\x7d" tss rest
    obtain ⟨hk, -, -⟩ := joinRank?_of_closing hclose htext
    have hright := hvalue.reads fuel (.symbol text :: ws) (by omega) (stops_of_none hk)
    have hleft := readElement_of_parses (.symbol ":" :: (vs ++ .symbol text :: ws)) hkey
      (show _ ≤ fuel by omega) (stops_of_none rfl) (by simp)
    rw [htail] at hread
    rw [commas_cons, List.append_assoc, htail, List.append_assoc]
    refine (readBraced_of_opens hkey.opens hleft).trans ?_
    simp [readSetOrDict, hright, hread]

end CodePrinter.Python
