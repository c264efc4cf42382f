import CodePrinter.Print.Params
import CodePrinter.Proofs.Python.Operators
import CodePrinter.Proofs.Python.Writing

/-! Printed expressions, read back.

Main statement: an expression that is printed in any of its positions is read as the expression,
with parentheses where the position needs them (`ReadsBack.operand`, `ReadsBack.primary`,
`ReadsBack.branch`), and each kind of expression hands this on. -/
namespace CodePrinter.Python

/-- A printed expression is read as an expression. How it can be read tells its shape. -/
structure ReadsBack (set : Settings) (f : Fragment) (e : Expr) : Prop where
  issues : f.issues = []
  body : ∀ d, ∃ ts, Lays set f.body d ts ∧ Parses .expression ts e ∧
    (f.shape ≠ .greedy → Parses .disjunction ts e) ∧
    (f.shape.isAtomic = true → Parses .atom ts e) ∧
    (f.shape.isPrimary = true → LaysPrimary set f.body d ts ∧ Heads ts e)

variable {set : Settings} {f : Fragment} {e : Expr}

namespace ReadsBack

theorem bare (h : ReadsBack set f e) (d : Nat) :
    ∃ ts, Lays set f.bare d ts ∧ Parses .expression ts e := by
  obtain ⟨ts, hlays, hparses, -⟩ := h.body d
  refine ⟨ts, ?_, hparses⟩
  rwa [Fragment.bare, h.issues]

theorem grouped (hset : Plain set) (h : ReadsBack set f e) (d : Nat) :
    ∃ ts, LaysPrimary set f.grouped d ts ∧ Parses .atom ts e := by
  obtain ⟨ts, hlays, hparses, -⟩ := h.body (d + 1)
  have hround : ("(", ")") ∈ brackets := by decide
  refine ⟨_, ?_, parses_group hparses⟩
  rw [Fragment.grouped, h.issues]
  exact laysPrimary_enclosed hset hround (.inr hlays)

theorem operand (hset : Plain set) (h : ReadsBack set f e) (d : Nat) :
    ∃ ts, Lays set f.operand d ts ∧ Parses .atom ts e := by
  unfold Fragment.operand Fragment.operandBody
  split
  · rename_i hatomic
    obtain ⟨ts, hlays, -, -, hparses, -⟩ := h.body d
    rw [h.issues]
    exact ⟨ts, hlays, hparses hatomic⟩
  · obtain ⟨ts, hlays, hparses⟩ := h.grouped hset d
    exact ⟨ts, hlays.lays, hparses⟩

theorem primary (hset : Plain set) (h : ReadsBack set f e) (d : Nat) :
    ∃ ts, LaysPrimary set f.primary d ts ∧ Heads ts e := by
  unfold Fragment.primary
  split
  · rename_i hprimary
    obtain ⟨ts, -, -, -, -, hheads⟩ := h.body d
    rw [Fragment.bare, h.issues]
    exact ⟨ts, hheads hprimary⟩
  · obtain ⟨ts, hlays, hparses⟩ := h.grouped hset d
    exact ⟨ts, hlays, .of_atom hparses⟩

theorem branch (hset : Plain set) (h : ReadsBack set f e) (d : Nat) :
    ∃ ts, Lays set f.branch d ts ∧ Parses .disjunction ts e := by
  unfold Fragment.branch
  split
  · obtain ⟨ts, hlays, hparses⟩ := h.grouped hset d
    exact ⟨ts, hlays.lays, hparses.loosen .disjunction (by decide)⟩
  · rename_i hshape
    obtain ⟨ts, hlays, -, hparses, -⟩ := h.body d
    rw [Fragment.bare, h.issues]
    exact ⟨ts, hlays, hparses hshape⟩

variable {shape : Shape} {body : List Instr}

theorem of_atom (h : ∀ d, ∃ ts, Lays set body d ts ∧ Parses .atom ts e ∧
    (shape.isPrimary = true → LaysPrimary set body d ts)) :
    ReadsBack set { shape, body } e := by
  refine ⟨rfl, ?_⟩
  intro d
  obtain ⟨ts, hlays, hparses, hprimary⟩ := h d
  exact ⟨ts, hlays, hparses.loosen .expression (by decide),
    fun _ => hparses.loosen .disjunction (by decide), fun _ => hparses,
    fun hshape => ⟨hprimary hshape, .of_atom hparses⟩⟩

theorem of_primary (h : ∀ d, ∃ ts, LaysPrimary set body d ts ∧ Heads ts e) :
    ReadsBack set { shape := .primary, body } e := by
  refine ⟨rfl, ?_⟩
  intro d
  obtain ⟨ts, hlays, hheads⟩ := h d
  have hparses := hheads.parses
  exact ⟨ts, hlays.lays, hparses.loosen .expression (by decide),
    fun _ => hparses.loosen .disjunction (by decide), nofun,
    fun _ => ⟨hlays, hheads⟩⟩

/-- An expression with an operator is put in parentheses wherever that matters. -/
theorem of_level {l : Level} (hl : 1 ≤ l.rank)
    (h : ∀ d, ∃ ts, Lays set body d ts ∧ Parses l ts e) :
    ReadsBack set { shape := .other, body } e := by
  refine ⟨rfl, ?_⟩
  intro d
  obtain ⟨ts, hlays, hparses⟩ := h d
  exact ⟨ts, hlays, hparses.loosen .expression (Nat.zero_le _),
    fun _ => hparses.loosen .disjunction hl, nofun,
    nofun⟩

theorem of_greedy (h : ∀ d, ∃ ts, Lays set body d ts ∧ Parses .expression ts e) :
    ReadsBack set { shape := .greedy, body } e := by
  refine ⟨rfl, ?_⟩
  intro d
  obtain ⟨ts, hlays, hparses⟩ := h d
  exact ⟨ts, hlays, hparses, fun hshape => absurd rfl hshape, nofun,
    nofun⟩

end ReadsBack

/-! Names and constants. -/

variable {d : Nat} {text : String}

theorem laysPrimary_word (hset : Plain set) (d : Nat) (h : isWord text = true) :
    LaysPrimary set [.text text] d [.word text] := by
  obtain ⟨c, hc, hw⟩ := writes_word hset d h
  refine ⟨_, hw.mono fun x hx => hx.clear (clear_of_isWordStart hc), ends_word _, ?_⟩
  rfl

theorem laysPrimary_string (hset : Plain set) (d : Nat) (value : String) :
    LaysPrimary set [.text ("\"" ++ Text.escape value ++ "\"")] d [.string value] := by
  have hv : ("\"" ++ Text.escape value ++ "\"").toList =
      '"' :: ((Text.escape value).toList ++ ['"']) := by simp
  have hw := writes_text hset hv (spells_string d value)
  exact ⟨_, hw.mono fun x hx => hx.clear (clear_of_mem (by decide)), ends_closed _, rfl⟩

theorem lays_int (hset : Plain set) (d : Nat) {n : Nat} (h : text.toList = Nat.toDigits 10 n) :
    Lays set [.text text] d [.int n] := by
  cases hd : Nat.toDigits 10 n with
  | nil => exact absurd hd Nat.toDigits_ne_nil
  | cons c cs =>
    have hs := spells_int d n
    rw [hd] at hs
    have hw := writes_text hset (h.trans hd) hs
    have hdigit : Decimal.isDigit c = true := isDigit_of_mem_toDigits (n := n) (by simp [hd])
    have hclear : Clear c := by
      constructor <;> rintro rfl <;> revert hdigit <;> decide
    exact ⟨_, hw.mono fun x hx => hx.clear hclear, ends_int _⟩

theorem isWord_of_isIdentifier (h : isIdentifier text = true) : isWord text = true := by
  simp only [isIdentifier, Bool.and_eq_true] at h
  exact h.1

theorem notMem_keywords_of_isIdentifier (h : isIdentifier text = true) : text ∉ keywords := by
  simp only [isIdentifier, Bool.and_eq_true, decide_eq_true_eq] at h
  exact h.2

namespace ReadsBack

theorem name (hset : Plain set) {id : String} (loc : Option Location)
    (h : isIdentifier id = true) : ReadsBack set (.name id loc) (.name id) := by
  refine of_atom ?_
  intro d
  have hlays := (laysPrimary_word hset d (isWord_of_isIdentifier h)).after_mark hset loc
  exact ⟨_, hlays.lays, parses_name (notMem_keywords_of_isIdentifier h), fun _ => hlays⟩

/-- A constant that is written as a token. -/
theorem constant (hset : Plain set) {value : Constant} (loc : Option Location)
    (ht : value.text = .ok text)
    (h : ∀ d, ∃ ts, Lays set [.text text] d ts ∧ Parses .atom ts e ∧
      (value.isNumber = false → LaysPrimary set [.text text] d ts)) :
    ReadsBack set (.constant value loc) e := by
  unfold Fragment.constant
  rw [ht]
  refine of_atom ?_
  intro d
  obtain ⟨ts, hlays, hparses, hprimary⟩ := h d
  refine ⟨ts, hlays.after_mark hset loc, hparses, ?_⟩
  intro hshape
  refine (hprimary ?_).after_mark hset loc
  cases hn : value.isNumber with
  | false => rfl
  | true => simp [Shape.ofConstant, hn, Shape.isPrimary] at hshape

end ReadsBack

/-! Expressions in brackets. -/

variable {fs : List Fragment} {es : List Expr} {items : List (List Instr)}
  {tss : List (List Token)}

theorem exists_forall₂ {α β γ δ : Type} {R : β → γ → Prop} {S : γ → δ → Prop} {g : α → β}
    {xs : List α} {ys : List δ} (h : List.Forall₂ (fun x y => ∃ t, R (g x) t ∧ S t y) xs ys) :
    ∃ ts, List.Forall₂ R (xs.map g) ts ∧ List.Forall₂ S ts ys := by
  induction h with
  | nil => exact ⟨[], .nil, .nil⟩
  | cons hxy _ ih =>
    obtain ⟨t, hr, hs⟩ := hxy
    obtain ⟨ts, hrs, hss⟩ := ih
    exact ⟨t :: ts, .cons hr hrs, .cons hs hss⟩

theorem forall₂_bare (h : List.Forall₂ (ReadsBack set) fs es) (d : Nat) :
    ∃ tss, List.Forall₂ (Lays set · d) (fs.map Fragment.bare) tss ∧
      List.Forall₂ (Parses .expression) tss es :=
  exists_forall₂ (h.imp fun _ _ hf => hf.bare d)

/-- A list of items is empty or written with commas. -/
theorem lays_commaSeparated (hset : Plain set) (h : List.Forall₂ (Lays set · d) items tss) :
    commaSeparated items = [] ∧ commas tss = [] ∨
      Lays set (commaSeparated items) d (commas tss) := by
  cases h with
  | nil => exact .inl ⟨rfl, by simp [commas]⟩
  | cons hitem hitems =>
    exact .inr (lays_separated (separates_comma hset d) (.cons hitem hitems) (by simp))

theorem Lays.comma (hset : Plain set) {is : List Instr} {ts : List Token} (h : Lays set is d ts) :
    Lays set (is ++ [.text ","]) d (ts ++ [.symbol ","]) := by
  obtain ⟨last, hw, hl⟩ := h
  have hcomma : Writes set [.text ","] (Leads d ',') d d [.symbol ","] (.symbol [',']) :=
    writes_symbol hset d (by decide) rfl
  exact ⟨_, hw.append_leads hcomma (hl ',' (by decide)), ends_bracket (by decide)⟩

/-- A tuple of one element has a comma after it. -/
theorem lays_tupleItems (hset : Plain set) (h : List.Forall₂ (Lays set · d) items tss) :
    commaSeparated items ++ (if items.length = 1 then [.text ","] else []) = [] ∧
        commas tss ++ (if tss.length = 1 then [.symbol ","] else []) = [] ∨
      Lays set (commaSeparated items ++ if items.length = 1 then [.text ","] else []) d
        (commas tss ++ if tss.length = 1 then [.symbol ","] else []) := by
  have hlength := h.length_eq
  cases h with
  | nil => exact .inl ⟨rfl, by simp [commas]⟩
  | cons hitem hitems =>
    right
    have hall := lays_separated (separates_comma hset d) (.cons hitem hitems) (by simp)
    rw [hlength]
    split
    · exact hall.comma hset
    · rwa [List.append_nil, List.append_nil]

namespace ReadsBack

theorem tuple (hset : Plain set) (loc : Option Location)
    (h : List.Forall₂ (ReadsBack set) fs es) : ReadsBack set (.tuple fs loc) (.tuple es) := by
  unfold Fragment.tuple
  refine of_primary ?_
  intro d
  obtain ⟨tss, hlays, hparses⟩ := forall₂_bare h (d + 1)
  refine ⟨_, ?_, .of_atom (parses_tuple hparses)⟩
  have hround : ("(", ")") ∈ brackets := by decide
  have hbody := (laysPrimary_enclosed hset hround (lays_tupleItems hset hlays)).after_mark hset loc
  simpa using hbody

theorem list (hset : Plain set) (loc : Option Location)
    (h : List.Forall₂ (ReadsBack set) fs es) : ReadsBack set (.list fs loc) (.list es) := by
  unfold Fragment.list
  refine of_primary ?_
  intro d
  obtain ⟨tss, hlays, hparses⟩ := forall₂_bare h (d + 1)
  refine ⟨_, ?_, .of_atom (parses_list hparses)⟩
  have hsquare : ("[", "]") ∈ brackets := by decide
  have hbody := (laysPrimary_enclosed hset hsquare (lays_commaSeparated hset hlays)).after_mark
    hset loc
  simpa using hbody

theorem nonemptySet (hset : Plain set) (loc : Option Location)
    (h : List.Forall₂ (ReadsBack set) fs es) (hne : es ≠ []) :
    ReadsBack set (.set fs loc) (.set es) := by
  cases h with
  | nil => exact absurd rfl hne
  | cons hf hfs =>
    refine of_primary ?_
    intro d
    obtain ⟨tss, hlays, hparses⟩ := forall₂_bare (.cons hf hfs) (d + 1)
    cases hparses with
    | cons hfirst hmore =>
      refine ⟨_, ?_, .of_atom (parses_set hfirst hmore)⟩
      have hcurly : ("\x7b", "\x7d") ∈ brackets := by decide
      have hbody := (laysPrimary_enclosed hset hcurly (lays_commaSeparated hset hlays)).after_mark
        hset loc
      simpa using hbody

end ReadsBack

/-- The entries of a dictionary, each on a line of its own. -/
theorem lays_entries {gs : List Fragment} {ks vs : List Expr}
    (hset : Plain set) (hk : List.Forall₂ (ReadsBack set) fs ks)
    (hv : List.Forall₂ (ReadsBack set) gs vs) (d : Nat) :
    ∃ tss, List.Forall₂ (Lays set · d) (Fragment.entries fs gs) tss ∧
      List.Forall₂ ParsesEntry tss (ks.zip vs) := by
  induction hk generalizing gs vs with
  | nil => exact ⟨[], by simp [Fragment.entries], by simp⟩
  | cons hkey _ ih =>
    cases hv with
    | nil => exact ⟨[], by simp [Fragment.entries], by simp⟩
    | cons hvalue hvalues =>
      obtain ⟨tss, hlays, hparses⟩ := ih hvalues
      obtain ⟨us, hleft, hus⟩ := hkey.bare d
      obtain ⟨ws, hright, hws⟩ := hvalue.bare d
      refine ⟨(us ++ [.symbol ":"] ++ ws) :: tss, ?_, ?_⟩
      · exact .cons (hleft.join (separates_colon hset d) hright) hlays
      · exact .cons ⟨us, ws, by simp, hus, hws⟩ hparses

theorem laysPrimary_emptyDict (hset : Plain set) (d : Nat) :
    LaysPrimary set [.text "\x7b\x7d"] d [.symbol "\x7b", .symbol "\x7d"] := by
  have hv : "\x7b\x7d".toList = ['\x7b', '\x7d'] := rfl
  have hs : Spells ['\x7b', '\x7d'] d d [.symbol "\x7b", .symbol "\x7d"] (.symbol ['\x7d']) := by
    intro before
    exact ⟨{ tokens := before ++ [.symbol "\x7b"], depth := d + 1, pending := .symbol ['\x7d'] },
      rfl, rfl, by simp [Scan.settle, Pending.tokens?, Token.depthAfter, symbols]⟩
  have hw := writes_text hset hv hs
  exact ⟨_, hw.mono fun x hx => hx.clear (clear_of_mem (by decide)), ends_closing (by decide)⟩

/-- The entries stand on lines of their own, further in than the braces. -/
theorem laysPrimary_lines (hset : Plain set) {is : List Instr} {ts : List Token}
    (h : Lays set is (d + 1) ts) :
    LaysPrimary set ([.text "\x7b", .newline, .indent] ++ is ++ [.newline, .dedent, .text "\x7d"])
      d ([.symbol "\x7b"] ++ ts ++ [.symbol "\x7d"]) := by
  obtain ⟨last, hw, hl⟩ := h
  have hopen : Writes set [.text "\x7b"] (Leads d '\x7b') d (d + 1) [.symbol "\x7b"]
      (.symbol ['\x7b']) := writes_symbol hset d (by decide) rfl
  have hclose : Writes set [.text "\x7d"] (Leads (d + 1) '\x7d') (d + 1) d [.symbol "\x7d"]
      (.symbol ['\x7d']) := writes_symbol hset (d + 1) (by decide) rfl
  have hin : Writes set ([.newline] ++ [.indent] ++ is) Clear (d + 1) (d + 1) ts last :=
    .after_quiet ((quiet_newline set d).append (quiet_indent set (d + 1))) hw
      fun _ => clear_of_isBlank
  have hout : Writes set ([.newline] ++ [.dedent] ++ [.text "\x7d"]) (Leads (d + 1) '\x7d')
      (d + 1) d [.symbol "\x7d"] (.symbol ['\x7d']) :=
    .after_quiet ((quiet_newline set d).append (quiet_dedent set (d + 1))) hclose fun _ => .inr
  have hbody := ((hopen.mono fun x hx => hx.clear (clear_of_mem (by decide))).append hin
    fun c _ => apart_whole (by decide) c).append_leads hout (hl '\x7d' (by decide))
  exact ⟨.symbol ['\x7d'], by simpa using hbody, ends_closing (by decide)⟩

namespace ReadsBack

theorem dict (hset : Plain set) {gs : List Fragment} {ks vs : List Expr} (loc : Option Location)
    (hk : List.Forall₂ (ReadsBack set) fs ks) (hv : List.Forall₂ (ReadsBack set) gs vs)
    (hlength : ks.length = vs.length) : ReadsBack set (.dict fs gs loc) (.dict ks vs) := by
  unfold Fragment.dict
  refine of_primary ?_
  intro d
  obtain ⟨tss, hlays, hparses⟩ := lays_entries hset hk hv (d + 1)
  have hatom := parses_dict hparses
  rw [List.map_fst_zip (by omega), List.map_snd_zip (by omega)] at hatom
  refine ⟨_, .after_mark hset loc ?_, .of_atom hatom⟩
  cases hentries : Fragment.entries fs gs with
  | nil =>
    rw [hentries] at hlays
    cases hlays
    exact laysPrimary_emptyDict hset d
  | cons entry entries =>
    rw [hentries] at hlays
    exact laysPrimary_lines hset
      (lays_separated (separates_comma_newline hset d) hlays (by simp))

end ReadsBack

/-! Attributes, subscripts and calls. -/

theorem LaysPrimary.attr (hset : Plain set) {is : List Instr} {ts : List Token}
    (h : LaysPrimary set is d ts) (ht : isWord text = true) :
    LaysPrimary set (is ++ [.text ".", .text text]) d (ts ++ [.symbol ".", .word text]) := by
  obtain ⟨last, hw, -, hpoint⟩ := h
  obtain ⟨c, hc, hword⟩ := writes_word hset d ht
  have hdot : Writes set [.text "."] (Leads d '.') d d [.symbol "."] (.symbol ['.']) :=
    writes_symbol hset d (by decide) rfl
  have hbody := (hw.append_leads hdot hpoint).append_leads hword (apart_point hc)
  exact ⟨_, by simpa using hbody, ends_word _, rfl⟩

namespace ReadsBack

theorem attr (hset : Plain set) (loc : Option Location) (h : ReadsBack set f e)
    (ht : isIdentifier text = true) : ReadsBack set (.attr f text loc) (.attr e text) := by
  unfold Fragment.attr
  refine of_primary ?_
  intro d
  obtain ⟨ts, hlays, hheads⟩ := h.primary hset d
  refine ⟨_, ?_, hheads.attr (notMem_keywords_of_isIdentifier ht)⟩
  rw [List.append_assoc]
  exact (hlays.attr hset (isWord_of_isIdentifier ht)).after_mark hset loc

theorem subscript (hset : Plain set) {g : Fragment} {e' : Expr} (loc : Option Location)
    (h : ReadsBack set f e) (hg : ReadsBack set g e') :
    ReadsBack set (.subscript f g loc) (.subscript e e') := by
  unfold Fragment.subscript
  refine of_primary ?_
  intro d
  obtain ⟨ts, hlays, hheads⟩ := h.primary hset d
  obtain ⟨us, hslice, hparses⟩ := hg.bare (d + 1)
  have hsquare : ("[", "]") ∈ [("(", ")"), ("[", "]")] := by decide
  have hbody := (hlays.lays.then_enclosed hset hsquare (.inr hslice)).after_mark hset loc
  exact ⟨_, by simpa using hbody, by simpa using hheads.subscript hparses⟩

end ReadsBack

/-- A keyword argument. -/
theorem lays_keyword (hset : Plain set) (h : ReadsBack set f e) (ht : isIdentifier text = true)
    (d : Nat) : ∃ ts, Lays set (Fragment.keyword text f) d ts ∧
      ParsesArgument ts (some text, e) := by
  obtain ⟨c, hc, hword⟩ := writes_word hset d (isWord_of_isIdentifier ht)
  obtain ⟨us, ⟨last, hvalue, hl⟩, hparses⟩ := h.bare d
  have hsign : Writes set [.text "="] (Leads d '=') d d [.symbol "="] (.symbol ['=']) :=
    writes_symbol hset d (by decide) rfl
  have hname := (hword.mono fun x hx => hx.clear (clear_of_isWordStart hc)).append_leads hsign rfl
  have hbody := hname.append hvalue fun c => apart_sign (by decide)
  exact ⟨_, ⟨last, hbody, hl⟩, notMem_keywords_of_isIdentifier ht, us, rfl, hparses⟩

theorem forall₂_keyword (hset : Plain set) {ks : List (String × Fragment)}
    {named : List (String × Expr)}
    (h : List.Forall₂ (fun k x => k.1 = x.1 ∧ isIdentifier x.1 = true ∧ ReadsBack set k.2 x.2)
      ks named) (d : Nat) :
    ∃ tss, List.Forall₂ (Lays set · d) (ks.map fun k => Fragment.keyword k.1 k.2) tss ∧
      List.Forall₂ ParsesArgument tss (named.map fun x => (some x.1, x.2)) := by
  obtain ⟨tss, hlays, hparses⟩ := exists_forall₂ (R := (Lays set · d))
    (S := fun ts x => ParsesArgument ts (some x.1, x.2)) (g := fun k => Fragment.keyword k.1 k.2)
    (h.imp fun k x ⟨hname, ht, hvalue⟩ => hname ▸ lays_keyword hset hvalue (hname ▸ ht) d)
  exact ⟨tss, hlays, List.forall₂_map_right_iff.mpr hparses⟩

/-- The arguments of a call are one list. -/
theorem separated_append (separator : List Instr) (xs ys : List (List Instr)) :
    separated separator xs ++ (if xs.isEmpty || ys.isEmpty then [] else separator) ++
      separated separator ys = separated separator (xs ++ ys) := by
  induction xs with
  | nil => simp [separated]
  | cons x xs ih =>
    cases xs with
    | nil => cases ys <;> simp [separated]
    | cons y zs =>
      calc separated separator (x :: y :: zs) ++
            (if (x :: y :: zs).isEmpty || ys.isEmpty then [] else separator) ++
            separated separator ys
          = x ++ separator ++ (separated separator (y :: zs) ++
            (if (y :: zs).isEmpty || ys.isEmpty then [] else separator) ++
            separated separator ys) := by simp [separated]
        _ = x ++ separator ++ separated separator (y :: zs ++ ys) := by rw [ih]
        _ = separated separator (x :: y :: zs ++ ys) := by simp [separated]

namespace ReadsBack

theorem call (hset : Plain set) {ks : List (String × Fragment)} {named : List (String × Expr)}
    (loc : Option Location) (h : ReadsBack set f e) (hargs : List.Forall₂ (ReadsBack set) fs es)
    (hnamed : List.Forall₂
      (fun k x => k.1 = x.1 ∧ isIdentifier x.1 = true ∧ ReadsBack set k.2 x.2) ks named) :
    ReadsBack set (.call f fs ks loc) (.call e es (named.map fun x => .mk x.1 x.2)) := by
  unfold Fragment.call
  refine of_primary ?_
  intro d
  obtain ⟨ts, hlays, hheads⟩ := h.primary hset d
  obtain ⟨tss, hleft, hpos⟩ := forall₂_bare hargs (d + 1)
  obtain ⟨uss, hright, hkey⟩ := forall₂_keyword hset hnamed (d + 1)
  have hplain : List.Forall₂ ParsesArgument tss (es.map (none, ·)) :=
    List.forall₂_map_right_iff.mpr hpos
  have hitems := List.rel_append hplain hkey
  have hround : ("(", ")") ∈ [("(", ")"), ("[", "]")] := by decide
  have hinside := lays_commaSeparated hset (List.rel_append hleft hright)
  have hbody := (hlays.lays.then_enclosed hset hround hinside).after_mark hset loc
  refine ⟨_, ?_, by simpa using hheads.call hitems (splitArguments_append es named)⟩
  rw [commaSeparated, ← separated_append] at hbody
  simpa [commaSeparated] using hbody

end ReadsBack

end CodePrinter.Python
