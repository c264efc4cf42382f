import CodePrinter.Proofs.Python.Headers
import Mathlib.Data.List.TakeWhile

/-! Parameter lists, read by Python's grammar.

Main statement: a printed parameter list is read as its parameters, with their hints where those
are printed, and each of the last regular parameters gets the default that is printed for it
(`readSignature?_print`). -/
namespace CodePrinter.Python

/-- A parameter as it is read, with the default that stands right after it. -/
structure Parameter where
  name : String
  hint : Option Expr
  default : Option Expr

inductive ParameterItem where
  | plain (p : Parameter)
  /-- The sign after the positional-only parameters. -/
  | slash
  /-- The parameter that takes the rest of the arguments. -/
  | star (p : Parameter)

def ParameterItem.isSlash : ParameterItem → Bool
  | .slash => true
  | _ => false

structure Signature where
  posOnly : List Parameter
  regular : List Parameter
  varArg : Option Parameter

/-! The reader. Keyword-only parameters, for which there are no trees, are not read. -/

section Reader

variable {α : Type} (expr : Reader Expr)

/-- An expression after a sign, if the sign is there. -/
def optionalAfter (sign : String) : Reader (Option Expr) := fun ts =>
  if ts.head? = some (.symbol sign) then (expr ts.tail).map fun (e, ts) => (some e, ts)
  else some (none, ts)

def readParameter : Reader Parameter
  | .word name :: ts =>
    if name ∈ keywords then none
    else do
      let (hint, ts) ← optionalAfter expr ":" ts
      let (default, ts) ← optionalAfter expr "=" ts
      some ({ name, hint, default }, ts)
  | _ => none

def readParameterItem : Reader ParameterItem
  | .symbol "/" :: ts => some (.slash, ts)
  | .symbol "*" :: ts => do
    let (p, ts) ← readParameter expr ts
    if p.default.isSome then none else some (.star p, ts)
  | ts => (readParameter expr ts).map fun (p, ts) => (.plain p, ts)

/-- At most `n` items, which are all there is, with commas between them; a last comma is allowed. -/
def itemsToEnd (item : Reader α) : (n : Nat) → List Token → Option (List α)
  | _, [] => some []
  | 0, _ => none
  | n + 1, ts => do
    let (a, ts) ← item ts
    match ts with
    | [] => some [a]
    | .symbol "," :: ts => (itemsToEnd item n ts).map (a :: ·)
    | _ => none

end Reader

namespace Signature

/-- Parameters by themselves, of which the last may take the rest of the arguments. -/
def group? : List ParameterItem → Option (List Parameter × Option Parameter)
  | [] => some ([], none)
  | [.star p] => some ([], some p)
  | .plain p :: items => (group? items).map fun x => (p :: x.1, x.2)
  | _ => none

/-- The parameters before the sign for it are positional-only. At least one is. -/
def ofItems? (items : List ParameterItem) : Option Signature :=
  match items.dropWhile (!·.isSlash) with
  | [] => (group? items).map fun x => { posOnly := [], regular := x.1, varArg := x.2 }
  | _ :: rest =>
    match group? (items.takeWhile (!·.isSlash)) with
    | some (p :: ps, none) =>
      (group? rest).map fun x => { posOnly := p :: ps, regular := x.1, varArg := x.2 }
    | _ => none

/-- No parameter without a default follows one with a default. -/
def DefaultsLast (s : Signature) : Prop :=
  (s.posOnly ++ s.regular).Pairwise fun p q => p.default.isSome → q.default.isSome

instance (s : Signature) : Decidable s.DefaultsLast :=
  inferInstanceAs (Decidable (List.Pairwise _ _))

end Signature

/-- Reads a text that is a parameter list. -/
def readSignature? (text : String) : Option Signature := do
  let ts ← tokens? text
  let items ← itemsToEnd (readParameterItem (parse (15 * ts.length) .expression)) ts.length ts
  (Signature.ofItems? items).filter fun s => s.DefaultsLast

variable {α : Type} {set : Settings} {d fuel n : Nat} {ts us rest : List Token}
  {tss : List (List Token)} {sign : String} {hints : Bool} {f : Fragment} {e : Expr}

/-! Tokens. -/

/-- Nothing follows, or a comma. -/
def AtComma (rest : List Token) : Prop := ∀ t ∈ rest.head?, t = .symbol ","

theorem itemsToEnd_commas {item : Reader α} {as : List α}
    (h : List.Forall₂ (fun ts a => ts ≠ [] ∧ ∀ rest, AtComma rest →
      item (ts ++ rest) = some (a, rest)) tss as) (hn : (commas tss).length ≤ n) :
    itemsToEnd item n (commas tss) = some as := by
  induction h generalizing n with
  | nil => cases n <;> rfl
  | @cons ts a tss as hitem hitems ih =>
    obtain ⟨hne, hread⟩ := hitem
    obtain ⟨t, ts, rfl⟩ := List.exists_cons_of_ne_nil hne
    rw [commas_cons, List.cons_append, List.length_cons, List.length_append] at hn
    obtain ⟨n, rfl⟩ := Nat.exists_eq_succ_of_ne_zero (Nat.ne_of_gt (Nat.zero_lt_of_lt hn))
    have hcomma : AtComma (moreItems tss) := by
      unfold moreItems
      split <;> simp [AtComma]
    have hfirst := hread _ hcomma
    rw [commas_cons, List.cons_append] at *
    rw [itemsToEnd, hfirst]
    · cases hitems with
      | nil => rfl
      | cons =>
        simp only [moreItems, List.isEmpty_cons, Bool.false_eq_true, if_false,
          List.length_cons] at hn
        simp [moreItems, ih (show _ ≤ n by omega)]
    · simp

/-- Tokens are read as an expression after a sign, or there are none. -/
def ParsesOptional (sign : String) (ts : List Token) : Option Expr → Prop
  | none => ts = []
  | some e => ∃ us, ts = .symbol sign :: us ∧ Parses .expression us e

theorem optionalAfter_of_parses {x : Option Expr} (h : ParsesOptional sign ts x)
    (hf : 15 * ts.length ≤ fuel) (hs : Stops 0 rest) (hr : rest.head? ≠ some (.symbol sign)) :
    optionalAfter (parse fuel .expression) sign (ts ++ rest) = some (x, rest) := by
  cases x with
  | none =>
    obtain rfl : ts = [] := h
    simp [optionalAfter, hr]
  | some e =>
    obtain ⟨us, rfl, he⟩ := h
    rw [List.length_cons] at hf
    have hread := he.reads fuel rest (by omega) hs
    simp [optionalAfter, hread]

/-- Tokens are read as a parameter. -/
def ParsesParameter (ts : List Token) (p : Parameter) : Prop :=
  p.name ∉ keywords ∧ ∃ us vs, ts = .word p.name :: (us ++ vs) ∧
    ParsesOptional ":" us p.hint ∧ ParsesOptional "=" vs p.default

theorem readParameter_of_parses {p : Parameter} (h : ParsesParameter ts p)
    (hf : 15 * ts.length ≤ fuel) (hr : AtComma rest) :
    readParameter (parse fuel .expression) (ts ++ rest) = some (p, rest) := by
  obtain ⟨hname, us, vs, rfl, hhint, hdefault⟩ := h
  simp only [List.length_cons, List.length_append] at hf
  have hstops : Stops 0 rest := by
    intro t ht k hk
    rw [hr t ht] at hk
    cases hk
  have hne : ∀ sign, sign ≠ "," → rest.head? ≠ some (.symbol sign) := by
    intro sign hsign ht
    cases hr _ ht
    exact hsign rfl
  -- a hint ends before the sign of a default
  have hnext : Stops 0 (vs ++ rest) ∧ (vs ++ rest).head? ≠ some (.symbol ":") := by
    cases hd : p.default with
    | none =>
      rw [hd] at hdefault
      obtain rfl : vs = [] := hdefault
      exact ⟨hstops, hne ":" (by decide)⟩
    | some e =>
      rw [hd] at hdefault
      obtain ⟨ws, rfl, -⟩ := hdefault
      exact ⟨stops_of_none rfl, by simp⟩
  have hfirst := optionalAfter_of_parses hhint (show _ ≤ fuel by omega) hnext.1 hnext.2
  have hsecond := optionalAfter_of_parses hdefault (show _ ≤ fuel by omega) hstops
    (hne "=" (by decide))
  rw [List.cons_append, List.append_assoc, readParameter, if_neg hname, hfirst]
  simp [hsecond]

def ParsesParameterItem (ts : List Token) : ParameterItem → Prop
  | .plain p => ParsesParameter ts p
  | .slash => ts = [.symbol "/"]
  | .star p => p.default = none ∧ ∃ us, ts = .symbol "*" :: us ∧ ParsesParameter us p

theorem readParameterItem_of_parses {x : ParameterItem} (h : ParsesParameterItem ts x)
    (hf : 15 * ts.length ≤ fuel) :
    ts ≠ [] ∧ ∀ rest, AtComma rest →
      readParameterItem (parse fuel .expression) (ts ++ rest) = some (x, rest) := by
  cases x with
  | slash =>
    obtain rfl : ts = [.symbol "/"] := h
    exact ⟨by simp, fun _ _ => rfl⟩
  | star p =>
    obtain ⟨hdefault, us, rfl, hp⟩ := h
    rw [List.length_cons] at hf
    refine ⟨by simp, ?_⟩
    intro rest hr
    have hread := readParameter_of_parses hp (show _ ≤ fuel by omega) hr
    simp [readParameterItem, hread, hdefault]
  | plain p =>
    have hread := fun rest (hr : AtComma rest) => readParameter_of_parses h hf hr
    obtain ⟨-, us, vs, rfl, -⟩ := h
    refine ⟨by simp, ?_⟩
    intro rest hr
    have hplain := hread rest hr
    rw [List.cons_append] at hplain ⊢
    rw [readParameterItem, hplain]
    · rfl
    · simp
    · simp

/-! Signatures. -/

namespace Signature

theorem group?_items (ps : List Parameter) (varArg : Option Parameter) :
    group? (ps.map .plain ++ varArg.toList.map .star) = some (ps, varArg) := by
  induction ps with
  | nil => cases varArg <;> rfl
  | cons p ps ih =>
    rw [List.map_cons, List.cons_append, group?, ih]
    rfl

/-- The items of a parameter list. -/
def items (s : Signature) : List ParameterItem :=
  s.posOnly.map .plain ++ (if s.posOnly.isEmpty then [] else [.slash]) ++ s.regular.map .plain ++
    s.varArg.toList.map .star

theorem ofItems?_items (s : Signature) : ofItems? s.items = some s := by
  obtain ⟨posOnly, regular, varArg⟩ := s
  have hplain : ∀ ps : List Parameter, ∀ x ∈ ps.map ParameterItem.plain, (!x.isSlash) = true := by
    intro ps x hx
    obtain ⟨p, -, rfl⟩ := List.mem_map.mp hx
    rfl
  have hstar : ∀ x ∈ varArg.toList.map ParameterItem.star, (!x.isSlash) = true := by
    intro x hx
    obtain ⟨p, -, rfl⟩ := List.mem_map.mp hx
    rfl
  cases posOnly with
  | nil =>
    have hnone : (regular.map ParameterItem.plain ++ varArg.toList.map ParameterItem.star).dropWhile
        (!·.isSlash) = [] := by
      rw [List.dropWhile_append_of_pos (hplain regular), List.dropWhile_eq_nil_iff]
      exact hstar
    simp only [ofItems?, items, List.map_nil, List.isEmpty_nil, if_true, List.nil_append, hnone,
      group?_items]
    rfl
  | cons p ps =>
    have hfront := group?_items (p :: ps) none
    simp only [Option.toList_none, List.map_nil, List.append_nil] at hfront
    have hsplit : items ⟨p :: ps, regular, varArg⟩ = (p :: ps).map .plain ++
        .slash :: (regular.map .plain ++ varArg.toList.map .star) := by simp [items]
    have hdrop : (items ⟨p :: ps, regular, varArg⟩).dropWhile (!·.isSlash) =
        .slash :: (regular.map .plain ++ varArg.toList.map .star) := by
      rw [hsplit, List.dropWhile_append_of_pos (hplain (p :: ps))]
      rfl
    have htake : (items ⟨p :: ps, regular, varArg⟩).takeWhile (!·.isSlash) =
        (p :: ps).map .plain := by
      rw [hsplit, List.takeWhile_append_of_pos (hplain (p :: ps)),
        List.takeWhile_cons_of_neg (by simp [ParameterItem.isSlash]), List.append_nil]
    simp only [ofItems?, hdrop, htake, hfront, group?_items]
    rfl

end Signature

/-! Instructions. -/

/-- The hint that is printed for a parameter, if any. -/
def printedHint (hints : Bool) (hint : Option Expr) : Option Expr := if hints then hint else none

/-- What of a parameter its text shows, together with a default. -/
def shownParameter (hints : Bool) (p : Param) (default : Option Expr) : Parameter :=
  match p with
  | .mk name hint =>
    { name, hint := (printedHint hints hint).map shown, default := default.map shown }

/-- A parameter with a name, whose hint is an expression that the reader knows. -/
def isHintedParam : Param → Bool
  | .mk name hint => isIdentifier name && hint.all isReadable

theorem print_param (set : Settings) (hints : Bool) (name : String) (hint : Option Expr) :
    ((Param.mk name hint).fragment set.names).print hints =
      .text name :: optionalPart set ": " (printedHint hints hint) := by
  cases hints <;> cases hint <;>
    simp [Param.fragment, optionFragment, ParamFragment.print, printedHint, optionalPart]

theorem printDefault_param (set : Settings) (hints : Bool) (name : String)
    (hint default : Option Expr) :
    ((Param.mk name hint).fragment set.names).printDefault hints
        (default.map (·.fragment set.names)) =
      optionalPart set (if (printedHint hints hint).isSome then " = " else "=") default := by
  cases hints <;> cases hint <;> cases default <;>
    simp [Param.fragment, optionFragment, ParamFragment.printDefault, ParamFragment.isHinted,
      printedHint, optionalPart]

/-- What is read after an expression, between signs that end with a space. -/
theorem Lays.optionalPart (hset : Plain set) {is : List Instr} {text : String} {x : Option Expr}
    (h : Lays set is d ts) (hsign : Separates set [.text text] d [.symbol sign])
    (hx : ∀ e ∈ x, isReadable e = true) :
    ∃ us, Lays set (is ++ Python.optionalPart set text x) d (ts ++ us) ∧
      ParsesOptional sign us (x.map shown) := by
  cases x with
  | none => exact ⟨[], by simpa [Python.optionalPart] using h, rfl⟩
  | some e =>
    obtain ⟨us, hlays, hparses⟩ := (readsBack hset e (hx e rfl)).bare d
    have hjoin := h.join hsign hlays
    exact ⟨.symbol sign :: us, by simpa [Python.optionalPart] using hjoin, us, rfl, hparses⟩

theorem readable_of_mem_printedHint {hint : Option Expr} (h : hint.all isReadable = true)
    (he : e ∈ printedHint hints hint) : isReadable e = true := by
  cases hints with
  | false => cases he
  | true =>
    obtain rfl : hint = some e := he
    exact h

/-- A parameter and its default are printed as tokens that they are read from. -/
theorem lays_parameter (hset : Plain set) {p : Param} (hp : isHintedParam p = true)
    {default : Option Expr} (hd : ∀ e ∈ default, isReadable e = true) (hints : Bool) (d : Nat) :
    ∃ ts, Lays set ((p.fragment set.names).print hints ++ (p.fragment set.names).printDefault hints
        (default.map (·.fragment set.names))) d ts ∧
      ParsesParameter ts (shownParameter hints p default) := by
  obtain ⟨name, hint⟩ := p
  simp only [isHintedParam, Bool.and_eq_true] at hp
  obtain ⟨hname, hhint⟩ := hp
  have hkeyword := notMem_keywords_of_isIdentifier hname
  have hword := (laysPrimary_word hset d (isWord_of_isIdentifier hname)).lays
  rw [print_param, printDefault_param]
  cases hprinted : printedHint hints hint with
  | some e =>
    have hread : ∀ e' ∈ some e, isReadable e' = true := fun e' he' =>
      readable_of_mem_printedHint hhint (hprinted ▸ he')
    have hequal := separates_spaced_symbol hset d "=" (by decide) (by decide)
    obtain ⟨us, hlays, hus⟩ := hword.optionalPart hset (separates_colon hset d) hread
    obtain ⟨vs, hall, hvs⟩ := hlays.optionalPart hset hequal hd
    refine ⟨_, by simpa [shownParameter] using hall, hkeyword, us, vs, rfl, ?_, hvs⟩
    simpa [shownParameter, hprinted] using hus
  | none =>
    have hnone : ParsesOptional ":" [] (shownParameter hints (.mk name hint) default).hint := by
      rw [shownParameter, hprinted]
      rfl
    cases default with
    | none => exact ⟨_, hword, hkeyword, [], [], rfl, hnone, rfl⟩
    | some e' =>
      obtain ⟨ts, hlays, -, vs, rfl, hvs⟩ :=
        lays_keyword hset (readsBack hset e' (hd e' rfl)) hname d
      exact ⟨_, hlays, hkeyword, [], .symbol "=" :: vs, rfl, hnone, vs, rfl, hvs⟩

theorem lays_slash (hset : Plain set) (d : Nat) : Lays set [.text "/"] d [.symbol "/"] := by
  have hslash : Writes set [.text "/"] (Leads d '/') d d [.symbol "/"] (.symbol ['/']) :=
    writes_symbol hset d (by decide) rfl
  have hclear : Clear '/' := ⟨by decide, by decide⟩
  have hends : ∀ c ∈ enders, (Pending.symbol ['/']).apart c = true := by decide
  exact ⟨_, hslash.mono fun x hx => hx.clear hclear, hends⟩

theorem lays_star (hset : Plain set) {p : Param} (hp : isHintedParam p = true) (hints : Bool)
    (d : Nat) :
    ∃ ts, Lays set (.text "*" :: (p.fragment set.names).print hints) d ts ∧
      ParsesParameterItem ts (.star (shownParameter hints p none)) := by
  obtain ⟨name, hint⟩ := p
  simp only [isHintedParam, Bool.and_eq_true] at hp
  obtain ⟨hname, hhint⟩ := hp
  have hstar : Writes set [.text "*"] (Leads d '*') d d [.symbol "*"] (.symbol ['*']) :=
    writes_symbol hset d (by decide) rfl
  have hclear : Clear '*' := ⟨by decide, by decide⟩
  obtain ⟨c, hc, hword⟩ := writes_word hset d (isWord_of_isIdentifier hname)
  have hapart : (Pending.symbol ['*']).apart c = true := by
    have hall : ∀ s ∈ symbols, s.toList.head? = some '*' → ∀ y ∈ s.toList.tail, y ∈ ['*', '='] := by
      decide
    refine apart_of_next hall ?_
    intro hmem
    have hnot : ∀ y ∈ ['*', '='], isWordStart y = false := by decide
    rw [hnot c hmem] at hc
    cases hc
  have hboth : Lays set ([.text "*"] ++ [.text name]) d ([.symbol "*"] ++ [.word name]) :=
    ⟨_, (hstar.mono fun x hx => hx.clear hclear).append_leads hword hapart, ends_word _⟩
  have hread : ∀ e ∈ printedHint hints hint, isReadable e = true := fun _ =>
    readable_of_mem_printedHint hhint
  obtain ⟨us, hlays, hus⟩ := hboth.optionalPart hset (separates_colon hset d) hread
  rw [print_param]
  exact ⟨_, hlays, rfl, .word name :: us, rfl, notMem_keywords_of_isIdentifier hname, us, [],
    by simp [shownParameter], hus, rfl⟩

/-! Parameter lists. -/

/-- The defaults of some parameters, of which the last ones have one. -/
def aligned (count : Nat) (defaults : List Expr) : List (Option Expr) :=
  List.replicate (count - defaults.length) none ++ defaults.map some

/-- What the text of a parameter list shows. -/
def shownSignature (hints : Bool) : Params → Signature
  | .mk posOnly regular varArg defaults =>
    { posOnly := posOnly.map (shownParameter hints · none)
      regular := List.zipWith (shownParameter hints) regular (aligned regular.length defaults)
      varArg := varArg.map (shownParameter hints · none) }

section Lists

variable {posOnly regular : List Param} {varArg : Option Param} {defaults : List Expr}

theorem length_aligned (h : defaults.length ≤ regular.length) :
    (aligned regular.length defaults).length = regular.length := by
  simp [aligned, h]

theorem alignedDefaults_fragment (names : RuntimeNames) (posOnly : List Param)
    (varArg : Option Param) (h : defaults.length ≤ regular.length) :
    ((Params.mk posOnly regular varArg defaults).fragment names).alignedDefaults =
      (aligned regular.length defaults).map (Option.map (·.fragment names)) := by
  simp [ParamsFragment.alignedDefaults, Params.fragment, paramFragments_eq_map, fragments_eq_map,
    aligned, Nat.sub_eq_zero_of_le h, Function.comp_def]

theorem forall₂_zipWith {α β γ δ : Type} {R : γ → δ → Prop} {f : α → β → γ} {g : α → β → δ}
    {as : List α} {bs : List β} (h : ∀ a ∈ as, ∀ b ∈ bs, R (f a b) (g a b)) :
    List.Forall₂ R (List.zipWith f as bs) (List.zipWith g as bs) := by
  induction as generalizing bs with
  | nil => exact .nil
  | cons a as ih =>
    cases bs with
    | nil => exact .nil
    | cons b bs =>
      exact .cons (h a (by simp) b (by simp)) (ih fun a' ha b' hb =>
        h a' (List.mem_cons_of_mem a ha) b' (List.mem_cons_of_mem b hb))

/-- The items of a printed parameter list are read as those of the list. -/
theorem lays_items (hset : Plain set)
    (hparams : ∀ p ∈ posOnly ++ regular ++ varArg.toList, isHintedParam p = true)
    (hdefaults : ∀ e ∈ defaults, isReadable e = true) (hlength : defaults.length ≤ regular.length)
    (hints : Bool) (d : Nat) :
    List.Forall₂ (fun is x => ∃ ts, Lays set is d ts ∧ ParsesParameterItem ts x)
      (((Params.mk posOnly regular varArg defaults).fragment set.names).items hints)
      (shownSignature hints (.mk posOnly regular varArg defaults)).items := by
  simp only [List.forall_mem_append] at hparams
  obtain ⟨⟨hposOnly, hregular⟩, hvarArg⟩ := hparams
  rw [ParamsFragment.items, alignedDefaults_fragment _ _ _ hlength]
  simp only [Params.fragment, paramFragments_eq_map, shownSignature, Signature.items, List.map_map,
    List.map_zipWith, List.zipWith_map, List.isEmpty_map]
  refine List.rel_append (List.rel_append (List.rel_append ?_ ?_) ?_) ?_
  · rw [List.forall₂_map_left_iff, List.forall₂_map_right_iff, List.forall₂_same]
    intro p hp
    have hnone : ∀ e ∈ (none : Option Expr), isReadable e = true := nofun
    simpa [ParamFragment.printDefault, ParsesParameterItem] using
      lays_parameter hset (hposOnly p hp) hnone hints d
  · split
    · exact .nil
    · exact .cons ⟨_, lays_slash hset d, rfl⟩ .nil
  · refine forall₂_zipWith ?_
    intro p hp default hdefault
    refine lays_parameter hset (hregular p hp) ?_ hints d
    rintro e rfl
    exact hdefaults e (by simpa [aligned] using hdefault)
  · cases varArg with
    | none => exact .nil
    | some p => exact .cons (lays_star hset (hvarArg p (by simp)) hints d) .nil

/-- The regular parameters are those of the list, each side by side with its default. -/
theorem regular_shownSignature (posOnly : List Param) (varArg : Option Param)
    (hlength : defaults.length ≤ regular.length) (hints : Bool) :
    (shownSignature hints (.mk posOnly regular varArg defaults)).regular.map
        ({ · with default := none }) = regular.map (shownParameter hints · none) ∧
    (shownSignature hints (.mk posOnly regular varArg defaults)).regular.map (·.default) =
      List.replicate (regular.length - defaults.length) none ++ defaults.map (some <| shown ·) := by
  have hzip : (shownSignature hints (.mk posOnly regular varArg defaults)).regular =
      (regular.zip (aligned regular.length defaults)).map fun x => shownParameter hints x.1 x.2 :=
    (List.map_zip_eq_zipWith (f := fun x : Param × Option Expr =>
      shownParameter hints x.1 x.2)).symm
  have hparam : ∀ p x, { shownParameter hints p x with default := none } =
      shownParameter hints p none ∧ (shownParameter hints p x).default = x.map shown := by
    rintro ⟨name, hint⟩ x
    exact ⟨rfl, rfl⟩
  have hcount := length_aligned hlength
  have hfst := List.map_fst_zip (Nat.le_of_eq hcount.symm)
  have hsnd := List.map_snd_zip (Nat.le_of_eq hcount)
  rw [hzip, List.map_map, List.map_map]
  constructor
  · simp only [Function.comp_def, hparam]
    exact (List.map_map (f := Prod.fst) (g := (shownParameter hints · none))).symm.trans
      (congrArg (List.map (shownParameter hints · none)) hfst)
  · simp only [Function.comp_def, hparam]
    exact (List.map_map (f := Prod.snd) (g := Option.map shown)).symm.trans
      ((congrArg (List.map (Option.map shown)) hsnd).trans (by simp [aligned, Function.comp_def]))

/-- The parameters with a default are the last ones. -/
theorem defaultsLast_shownSignature (posOnly : List Param) (varArg : Option Param)
    (hlength : defaults.length ≤ regular.length) (hints : Bool) :
    (shownSignature hints (.mk posOnly regular varArg defaults)).DefaultsLast := by
  have hregular := (regular_shownSignature posOnly varArg hlength hints).2
  have hposOnly : (shownSignature hints (.mk posOnly regular varArg defaults)).posOnly.map
      (·.default) = List.replicate posOnly.length none := by
    rw [shownSignature, List.map_map, List.eq_replicate_iff]
    refine ⟨by simp, ?_⟩
    intro x hx
    obtain ⟨⟨name, hint⟩, -, rfl⟩ := List.mem_map.mp hx
    rfl
  generalize shownSignature hints (.mk posOnly regular varArg defaults) = s at hregular hposOnly ⊢
  have hpairwise : ((s.posOnly ++ s.regular).map (·.default)).Pairwise
      fun x y => x.isSome → y.isSome := by
    rw [List.map_append, hregular, hposOnly, ← List.append_assoc, List.replicate_append_replicate,
      List.pairwise_append]
    refine ⟨by simp [List.pairwise_replicate], ?_, by simp⟩
    exact List.pairwise_map.mpr (List.pairwise_of_forall fun _ _ _ => rfl)
  exact List.pairwise_map.mp hpairwise

/-- Counted from the end, every regular parameter has the default in its place. -/
theorem default_shownSignature (posOnly : List Param) (varArg : Option Param)
    (hlength : defaults.length ≤ regular.length) (hints : Bool) (k : Nat) :
    ((shownSignature hints (.mk posOnly regular varArg defaults)).regular.reverse[k]?).bind
      (·.default) = (defaults.reverse[k]?).map shown := by
  have hjoin : ∀ xs : List Parameter,
      (xs.reverse[k]?).bind (·.default) = (((xs.map (·.default)).reverse)[k]?).join := by
    intro xs
    rw [← List.map_reverse, List.getElem?_map]
    cases xs.reverse[k]? <;> rfl
  rw [hjoin, (regular_shownSignature posOnly varArg hlength hints).2, List.reverse_append,
    List.reverse_replicate, ← List.map_reverse, List.getElem?_append]
  split
  · rw [List.getElem?_map]
    cases defaults.reverse[k]? <;> rfl
  · rename_i hk
    rw [List.length_map] at hk
    rw [List.getElem?_replicate, List.getElem?_eq_none (by omega)]
    split <;> rfl

/-- Printed items are read one by one up to the end of the text. -/
theorem readItems_commaSeparated (hset : Plain set) {iss : List (List Instr)}
    {items : List ParameterItem}
    (h : List.Forall₂ (fun is x => ∃ ts, Lays set is 0 ts ∧ ParsesParameterItem ts x) iss items)
    (start : Pass) :
    ∃ pass text ts, perform set (commaSeparated iss) start = { pass } ∧
      pass.page.pending = start.page.pending ++ text ∧ tokens? text = some ts ∧
      itemsToEnd (readParameterItem (parse (15 * ts.length) .expression)) ts.length ts =
        some items := by
  obtain ⟨tss, hlays, hparses⟩ := exists_forall₂ (R := (Lays set · 0)) (S := ParsesParameterItem)
    (g := id) h
  rw [List.map_id] at hlays
  have hread : List.Forall₂ (fun ts x => ts ≠ [] ∧ ∀ rest, AtComma rest →
      readParameterItem (parse (15 * (commas tss).length) .expression) (ts ++ rest) =
        some (x, rest)) tss items := by
    refine forall₂_imp_of_mem hparses ?_
    intro ts hts x hx
    have := length_le_of_mem_commas hts
    exact readParameterItem_of_parses hx (by omega)
  have hitems := itemsToEnd_commas hread (Nat.le_refl _)
  obtain ⟨hnone, hcommas⟩ | ⟨last, hwrites, -⟩ := lays_commaSeparated hset hlays
  · rw [hcommas] at hitems
    exact ⟨start, "", [], by rw [hnone]; rfl, by simp, rfl, hitems⟩
  · obtain ⟨pass, c, cs, hperform, hpending, -, hspells⟩ := hwrites start
    exact ⟨pass, _, _, hperform, hpending, tokens?_of_spells hspells, hitems⟩

/-- Reading the text of a parameter list gives back its parameters. Counted from the end, the
regular ones have the defaults in their places, and no other parameter has one. Without hints the
list is read as if there were none. -/
theorem readSignature?_print (hindent : BlankIndent set)
    (hparams : ∀ p ∈ posOnly ++ regular ++ varArg.toList, isHintedParam p = true)
    (hdefaults : ∀ e ∈ defaults, isReadable e = true) (hlength : defaults.length ≤ regular.length)
    (hints : Bool) {start : Pass} (hkeeps : start.Keeps set
      (((Params.mk posOnly regular varArg defaults).located set.names).inOrder hints)) :
    let params : Params := .mk posOnly regular varArg defaults
    ∃ pass text s, perform set ((params.fragment set.names).print hints) start = { pass } ∧
      pass.page.pending = start.page.pending ++ text ∧ readSignature? text = some s ∧
      s.posOnly = posOnly.map (shownParameter hints · none) ∧
      s.varArg = varArg.map (shownParameter hints · none) ∧
      s.regular.map ({ · with default := none }) = regular.map (shownParameter hints · none) ∧
      ∀ k : Nat, (s.regular.reverse[k]?).bind (·.default) = (defaults.reverse[k]?).map shown := by
  intro params
  have hset := hindent.plain
  rw [(params.prints set hints).perform_withoutChecks hkeeps, ← set.names_withoutChecks]
  generalize set.withoutChecks = set at hset ⊢
  have hlays := lays_items hset hparams hdefaults hlength hints 0
  obtain ⟨pass, text, ts, hperform, hpending, htokens, hitems⟩ :=
    readItems_commaSeparated hset hlays start
  refine ⟨pass, text, shownSignature hints params, hperform, hpending, ?_, rfl, rfl,
    (regular_shownSignature posOnly varArg hlength hints).1,
    default_shownSignature posOnly varArg hlength hints⟩
  have hlast := defaultsLast_shownSignature posOnly varArg hlength hints
  simp [readSignature?, htokens, hitems, Signature.ofItems?_items, params, hlast]

/-- A positional-only parameter with a hint, three regular ones of which the last two have a
default, and one for the rest. -/
theorem readSignature?_print_mixed :
    let posOnly : List Param := [.mk "a" (some (.name "int"))]
    let regular : List Param := [.mk "b" none, .mk "c" (some (.name "T")), .mk "d" none]
    let varArg : Param := .mk "rest" (some (.name "T"))
    let defaults : List Expr := [.int (.ofInt 3), .name "x"]
    let params : Params := .mk posOnly regular varArg defaults
    defaults.length ≤ regular.length ∧
    ∃ pass text s, perform {} ((params.fragment {}).print true) {} = { pass } ∧
      pass.page.pending = "" ++ text ∧ readSignature? text = some s ∧
      s.posOnly = posOnly.map (shownParameter true · none) ∧
      s.varArg = some (shownParameter true varArg none) ∧
      s.regular.map ({ · with default := none }) = regular.map (shownParameter true · none) ∧
      ∀ k : Nat, (s.regular.reverse[k]?).bind (·.default) = (defaults.reverse[k]?).map shown := by
  intro posOnly regular varArg defaults params
  exact ⟨by decide, readSignature?_print (by decide) (by decide +kernel) (by decide +kernel)
    (by decide) true (Settings.unchecked_default.keeps {} _)⟩

end Lists

end CodePrinter.Python
