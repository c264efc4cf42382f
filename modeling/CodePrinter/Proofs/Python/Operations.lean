import CodePrinter.Proofs.Python.Fragments

/-! Printed expressions with operators, read back. -/
namespace CodePrinter.Python

variable {set : Settings} {f g : Fragment} {e e' : Expr} {d : Nat} {text : String}

/-- A binary operator is a symbol of a level, with spaces around it. -/
theorem binaryOp_text {op : BinaryOp} (h : op ∈ BinaryOp.all) :
    ∃ sign, op.text = .ok (" " ++ sign ++ " ") ∧ sign ∈ symbols ∧
      sign ∉ ["(", "[", "\x7b", ")", "]", "\x7d"] ∧
      (op = .pow ∧ sign = "**" ∨ ∃ l : Level, l.binaryOps.lookup sign = some op) := by
  cases op with
  | add => exact ⟨"+", rfl, by decide, by decide, .inr ⟨.sum, rfl⟩⟩
  | sub => exact ⟨"-", rfl, by decide, by decide, .inr ⟨.sum, rfl⟩⟩
  | mult => exact ⟨"*", rfl, by decide, by decide, .inr ⟨.product, rfl⟩⟩
  | div => exact ⟨"/", rfl, by decide, by decide, .inr ⟨.product, rfl⟩⟩
  | floorDiv => exact ⟨"//", rfl, by decide, by decide, .inr ⟨.product, rfl⟩⟩
  | mod => exact ⟨"%", rfl, by decide, by decide, .inr ⟨.product, rfl⟩⟩
  | pow => exact ⟨"**", rfl, by decide, by decide, .inl ⟨rfl, rfl⟩⟩
  | lShift => exact ⟨"<<", rfl, by decide, by decide, .inr ⟨.shift, rfl⟩⟩
  | rShift => exact ⟨">>", rfl, by decide, by decide, .inr ⟨.shift, rfl⟩⟩
  | bitOr => exact ⟨"|", rfl, by decide, by decide, .inr ⟨.bitOr, rfl⟩⟩
  | bitXor => exact ⟨"^", rfl, by decide, by decide, .inr ⟨.bitXor, rfl⟩⟩
  | bitAnd => exact ⟨"&", rfl, by decide, by decide, .inr ⟨.bitAnd, rfl⟩⟩
  | matMult => exact ⟨"@", rfl, by decide, by decide, .inr ⟨.product, rfl⟩⟩
  | unknown _ => simp [BinaryOp.all] at h

namespace ReadsBack

theorem binary (hset : Plain set) {op : BinaryOp} (loc : Option Location) (hf : ReadsBack set f e)
    (hg : ReadsBack set g e') (hop : op ∈ BinaryOp.all) :
    ReadsBack set (.binary f op g loc) (.binary e op e') := by
  obtain ⟨sign, htext, hsign, hplain, hlevel⟩ := binaryOp_text hop
  have hlays : ∀ d, ∃ ts us, Lays set (Fragment.binary f op g loc).body d
      (ts ++ .symbol sign :: us) ∧ Parses .atom ts e ∧ Parses .atom us e' := by
    intro d
    obtain ⟨ts, hleft, hts⟩ := hf.operand hset d
    obtain ⟨us, hright, hus⟩ := hg.operand hset d
    have hbody := (hleft.join (separates_spaced_symbol hset d sign hsign hplain) hright).after_mark
      hset loc
    refine ⟨ts, us, ?_, hts, hus⟩
    simpa [Fragment.binary, htext, textOr] using hbody
  rcases hlevel with ⟨rfl, rfl⟩ | ⟨l, hl⟩
  · refine of_level (l := .power) (by decide) ?_
    intro d
    obtain ⟨ts, us, hbody, hts, hus⟩ := hlays d
    exact ⟨_, hbody,
      parses_power (hts.loosen .primary (by decide)) (hus.loosen .factor (by decide))⟩
  · have hrank : 1 ≤ l.rank := by
      cases l with
      | expression => simp [Level.binaryOps] at hl
      | _ => decide
    refine of_level hrank ?_
    intro d
    obtain ⟨ts, us, hbody, hts, hus⟩ := hlays d
    have htighter := l.tighter.rank_le
    exact ⟨_, hbody, parses_binary hl (hts.loosen _ htighter) (hus.loosen _ htighter)⟩

end ReadsBack

/-- A sign, or `not` and a space. -/
theorem unaryOp_text (hset : Plain set) {op : UnaryOp} (h : op ∈ UnaryOp.all) :
    op = .not ∨ ∃ sign c, op.text = .ok sign ∧ unaryOps.lookup sign = some op ∧
      c ∈ ['+', '-', '~'] ∧
      ∀ d, Writes set [.text sign] (Leads d c) d d [.symbol sign] (.symbol [c]) := by
  cases op with
  | invert =>
    exact .inr ⟨"~", '~', rfl, rfl, by decide, fun d => writes_symbol hset d (by decide) rfl⟩
  | not => exact .inl rfl
  | uAdd =>
    exact .inr ⟨"+", '+', rfl, rfl, by decide, fun d => writes_symbol hset d (by decide) rfl⟩
  | uSub =>
    exact .inr ⟨"-", '-', rfl, rfl, by decide, fun d => writes_symbol hset d (by decide) rfl⟩
  | unknown _ => simp [UnaryOp.all] at h

theorem writes_not (hset : Plain set) (d : Nat) :
    Writes set [.text "not "] (Leads d 'n') d d [.word "not"] .idle := by
  refine writes_text hset (show "not ".toList = ['n', 'o', 't', ' '] from rfl) ?_
  intro before
  exact ⟨{ tokens := before ++ [.word "not"], depth := d }, rfl, rfl,
    by simp [Scan.settle, Pending.tokens?]⟩

namespace ReadsBack

theorem unary (hset : Plain set) {op : UnaryOp} (loc : Option Location) (hf : ReadsBack set f e)
    (hop : op ∈ UnaryOp.all) : ReadsBack set (.unary op f loc) (.unary op e) := by
  rcases unaryOp_text hset hop with rfl | ⟨sign, c, htext, hlookup, hc, hsign⟩
  · refine of_level (l := .inversion) (by decide) ?_
    intro d
    obtain ⟨ts, ⟨last, hw, hl⟩, hts⟩ := hf.operand hset d
    have hnot := (writes_not hset d).mono fun x hx => hx.clear (clear_of_isWordStart (by decide))
    have hlays : Lays set ([.text "not "] ++ f.operand) d ([.word "not"] ++ ts) :=
      ⟨last, hnot.append hw fun _ _ => rfl, hl⟩
    refine ⟨_, ?_, parses_not (hts.loosen .inversion (by decide))⟩
    simpa [UnaryOp.text, textOr] using hlays.after_mark hset loc
  · have hkinds : ∀ x ∈ ['+', '-', '~'], x ∈ ['+', '-', '~', '='] ∧
        x ∈ ['(', '[', '\x7b', '+', '-', '~', '"'] := by decide
    refine of_level (l := .factor) (by decide) ?_
    intro d
    obtain ⟨ts, ⟨last, hw, hl⟩, hts⟩ := hf.operand hset d
    have hone := (hsign d).mono fun x hx => hx.clear (clear_of_mem (hkinds c hc).2)
    have hlays : Lays set ([.text sign] ++ f.operand) d ([.symbol sign] ++ ts) :=
      ⟨last, hone.append hw fun x hx => apart_sign (hkinds c hc).1 hx, hl⟩
    refine ⟨_, ?_, parses_sign hlookup (hts.loosen .factor (by decide))⟩
    simpa [htext, textOr] using hlays.after_mark hset loc

end ReadsBack

variable {fs : List Fragment} {es : List Expr}

theorem intercalate_cons (separator first : List Token) (more : List (List Token)) :
    separator.intercalate (first :: more) = first ++ (more.map (separator ++ ·)).flatten := by
  induction more generalizing first with
  | nil => simp
  | cons next more ih => simp [List.intercalate_cons_cons, ih]

theorem boolOp_text {op : BoolOp} (h : op ∈ BoolOp.all) :
    ∃ word l, op.text = .ok (" " ++ word ++ " ") ∧ isWord word = true ∧ 1 ≤ l.rank ∧ l ≠ .atom ∧
      (Token.word word).joinRank? = some l.rank ∧
      ∀ p, readLevel p l = readBoolean op word (p l.tighter) := by
  cases op with
  | and => exact ⟨"and", .conjunction, rfl, by decide, by decide, by decide, rfl, fun _ => rfl⟩
  | or => exact ⟨"or", .disjunction, rfl, by decide, by decide, by decide, rfl, fun _ => rfl⟩
  | unknown _ => simp [BoolOp.all] at h

theorem forall₂_operand (hset : Plain set) (h : List.Forall₂ (ReadsBack set) fs es) (d : Nat) :
    ∃ tss, List.Forall₂ (Lays set · d) (fs.map Fragment.operand) tss ∧
      List.Forall₂ (Parses .atom) tss es :=
  exists_forall₂ (h.imp fun _ _ hf => hf.operand hset d)

namespace ReadsBack

theorem boolean (hset : Plain set) {op : BoolOp} (loc : Option Location)
    (h : List.Forall₂ (ReadsBack set) fs es) (hop : op ∈ BoolOp.all) (hlength : 2 ≤ es.length) :
    ReadsBack set (.boolean op fs loc) (.boolean op es) := by
  obtain ⟨word, l, htext, hword, hl, hatom, hjoin, hrule⟩ := boolOp_text hop
  refine of_level hl ?_
  intro d
  obtain ⟨tss, hlays, hparses⟩ := forall₂_operand hset h d
  have hne : fs.map Fragment.operand ≠ [] := by
    have hsame := h.length_eq
    intro hnil
    simp only [List.map_eq_nil_iff] at hnil
    simp [hnil] at hsame
    omega
  have hbody :=
    (lays_separated (separates_spaced_word hset d word hword) hlays hne).after_mark hset loc
  cases hparses with
  | nil => simp at hlength
  | @cons ts e tss es hfirst hmore =>
    have htighter := l.tighter.rank_le
    refine ⟨_, by simpa [htext, textOr] using hbody, ?_⟩
    rw [intercalate_cons]
    refine parses_boolean_chain hatom hrule hjoin (hfirst.loosen _ htighter)
      (hmore.imp fun _ _ hp => hp.loosen _ htighter) ?_
    rintro rfl
    simp at hlength

end ReadsBack

theorem separates_words (hset : Plain set) (d : Nat) (first second : String)
    (hf : isWord first = true) (hs : isWord second = true) :
    Separates set [.text (" " ++ (first ++ " " ++ second) ++ " ")] d
      [.word first, .word second] := by
  obtain ⟨a, as, hfirst, -, hleft⟩ := spells_of_isWord d hf
  obtain ⟨b, bs, hsecond, -, hright⟩ := spells_of_isWord d hs
  have hblank : Spells [' '] d d [] .idle := spells_blank (by simp [isBlank])
  have htext : (first ++ " " ++ second).toList = first.toList ++ ' ' :: second.toList := by simp
  rw [hsecond] at hright htext
  have hgap : Spells (' ' :: b :: bs) d d [.word second] (.word (b :: bs)) :=
    hblank.append hright rfl
  have hapart : (Pending.word first.toList).apart ' ' = true := rfl
  have hboth : Spells (first ++ " " ++ second).toList d d [.word first, .word second]
      (.word (b :: bs)) := by
    rw [htext]
    exact hleft.append hgap hapart
  exact ⟨' ', .inl rfl, writes_spaced hset (by simp [hfirst]) hboth⟩

theorem compareOp_text (hset : Plain set) {op : CompareOp} (h : op ∈ CompareOp.all) :
    compareTokens op ≠ [] ∧ ∃ text, op.text = .ok text ∧
      ∀ d, Separates set [.text text] d (compareTokens op) := by
  have hsymbol : ∀ sign ∈ ["==", "!=", "<", "<=", ">", ">="], ∀ d,
      Separates set [.text (" " ++ sign ++ " ")] d [.symbol sign] := by
    intro sign hsign d
    have hall : ∀ sign ∈ ["==", "!=", "<", "<=", ">", ">="],
        sign ∈ symbols ∧ sign ∉ ["(", "[", "\x7b", ")", "]", "\x7d"] := by decide
    exact separates_spaced_symbol hset d sign (hall sign hsign).1 (hall sign hsign).2
  cases op with
  | eq => exact ⟨nofun, _, rfl, hsymbol "==" (by decide)⟩
  | notEq => exact ⟨nofun, _, rfl, hsymbol "!=" (by decide)⟩
  | lt => exact ⟨nofun, _, rfl, hsymbol "<" (by decide)⟩
  | ltE => exact ⟨nofun, _, rfl, hsymbol "<=" (by decide)⟩
  | gt => exact ⟨nofun, _, rfl, hsymbol ">" (by decide)⟩
  | gtE => exact ⟨nofun, _, rfl, hsymbol ">=" (by decide)⟩
  | is => exact ⟨nofun, _, rfl, fun d => separates_spaced_word hset d "is" (by decide)⟩
  | isNot =>
    exact ⟨nofun, _, rfl, fun d =>
      separates_words hset d "is" "not" (by decide) (by decide)⟩
  | «in» => exact ⟨nofun, _, rfl, fun d => separates_spaced_word hset d "in" (by decide)⟩
  | notIn =>
    exact ⟨nofun, _, rfl, fun d =>
      separates_words hset d "not" "in" (by decide) (by decide)⟩
  | unknown _ => simp [CompareOp.all] at h

theorem lays_comparisons (hset : Plain set) {ops : List CompareOp} {is : List Instr}
    {ts : List Token} (h : List.Forall₂ (ReadsBack set) fs es)
    (hops : ∀ op ∈ ops, op ∈ CompareOp.all) (hfirst : Lays set is d ts) :
    ∃ tss, Lays set (is ++ Fragment.comparisons ops fs) d (ts ++ tss.flatten) ∧
      List.Forall₂ ParsesComparison tss (ops.zip es) := by
  induction h generalizing ops is ts with
  | nil =>
    refine ⟨[], ?_, by simp⟩
    cases ops <;> simpa [Fragment.comparisons] using hfirst
  | @cons f e fs es hf _ ih =>
    cases ops with
    | nil => exact ⟨[], by simpa [Fragment.comparisons] using hfirst, by simp⟩
    | cons op ops =>
      obtain ⟨hne, text, htext, hsep⟩ := compareOp_text hset (hops op (by simp))
      obtain ⟨us, hright, hus⟩ := hf.operand hset d
      have hlink := hfirst.join (hsep d) hright
      obtain ⟨tss, hlays, hparses⟩ := ih (fun x hx => hops x (List.mem_cons_of_mem op hx)) hlink
      refine ⟨(compareTokens op ++ us) :: tss, ?_, ?_⟩
      · simpa [Fragment.comparisons, htext, textOr] using hlays
      · exact .cons ⟨hne, us, rfl, hus.loosen .bitOr (by decide)⟩ hparses

namespace ReadsBack

theorem compare (hset : Plain set) {ops : List CompareOp} (loc : Option Location)
    (h : ReadsBack set f e) (hmore : List.Forall₂ (ReadsBack set) fs es)
    (hops : ∀ op ∈ ops, op ∈ CompareOp.all) (hne : ops ≠ []) (hlength : ops.length = es.length) :
    ReadsBack set (.compare f ops fs loc) (.compare e ops es) := by
  refine of_level (l := .comparison) (by decide) ?_
  intro d
  obtain ⟨ts, hleft, hts⟩ := h.operand hset d
  obtain ⟨tss, hlays, hparses⟩ := lays_comparisons hset hmore hops hleft
  refine ⟨_, by simpa using hlays.after_mark hset loc, ?_⟩
  have hchain := parses_compare (hts.loosen .bitOr (by decide)) hparses (by
    rw [Ne, List.zip_eq_nil_iff]
    rintro (hnil | hnil)
    · exact hne hnil
    · rw [hnil] at hlength
      exact hne (List.eq_nil_of_length_eq_zero hlength))
  rwa [List.map_fst_zip (by omega), List.map_snd_zip (by omega)] at hchain

end ReadsBack

theorem lays_conditional (hset : Plain set) {k : Fragment} {d : Nat} {ts us vs : List Token}
    (loc : Option Location) (htest : Lays set f.grouped d us) (hbody : Lays set g.branch d ts)
    (helse : Lays set k.grouped d vs) :
    Lays set (Fragment.conditional f g k loc).body d
      (ts ++ .word "if" :: (us ++ .word "else" :: vs)) := by
  have hif := separates_spaced_word hset d "if" (by decide)
  have helseWord := separates_spaced_word hset d "else" (by decide)
  have hlays := ((hbody.join hif htest).join helseWord helse).after_mark hset loc
  have htexts : (" " ++ "if" ++ " " : String) = " if " ∧
      (" " ++ "else" ++ " " : String) = " else " := ⟨rfl, rfl⟩
  rw [htexts.1, htexts.2] at hlays
  simpa [Fragment.conditional] using hlays

namespace ReadsBack

theorem conditional (hset : Plain set) {k : Fragment} {e'' : Expr} (loc : Option Location)
    (hf : ReadsBack set f e) (hg : ReadsBack set g e') (hk : ReadsBack set k e'') :
    ReadsBack set (.conditional f g k loc) (.conditional e e' e'') := by
  refine of_greedy ?_
  intro d
  obtain ⟨ts, hbody, hts⟩ := hg.branch hset d
  obtain ⟨us, htest, hus⟩ := hf.grouped hset d
  obtain ⟨vs, helse, hvs⟩ := hk.grouped hset d
  exact ⟨_, lays_conditional hset loc htest.lays hbody helse.lays,
    parses_conditional hts (hus.loosen .disjunction (by decide))
      (hvs.loosen .expression (by decide))⟩

theorem named (hset : Plain set) {id : String} (loc target : Option Location)
    (hid : isIdentifier id = true) (h : ReadsBack set f e) :
    ReadsBack set (.named (.name id target) f loc) (.named (.name id) e) := by
  refine of_level (l := .atom) (by decide) ?_
  intro d
  have hname := ((laysPrimary_word hset (d + 1) (isWord_of_isIdentifier hid)).after_mark hset
    target).lays
  obtain ⟨ts, hvalue, hts⟩ := h.bare (d + 1)
  have hsign := separates_spaced_symbol hset (d + 1) ":=" (by decide) (by decide)
  have hround : ("(", ")") ∈ brackets := by decide
  have hlays := ((laysPrimary_enclosed hset hround (.inr (hname.join hsign hvalue))).after_mark hset
    loc).lays
  refine ⟨_, ?_, parses_named (notMem_keywords_of_isIdentifier hid) hts⟩
  have htext : (" " ++ ":=" ++ " " : String) = " := " := rfl
  rw [htext] at hlays
  simpa [parenthesized, Fragment.bare, Fragment.name] using hlays

end ReadsBack

/-- Parameters that are names and nothing else. -/
def plainParams (names : List String) : ParamsFragment :=
  { posOnly := [], regular := names.map fun name => { name, hint := none }, varArg := none,
    defaults := [] }

/-- Parameters without defaults are printed by themselves. -/
theorem items_of_no_defaults {hints : Bool} {p : ParamsFragment} (h : p.defaults = []) :
    p.items hints =
      p.posOnly.map (·.print hints) ++ (if p.posOnly.isEmpty then [] else [[.text "/"]]) ++
      p.regular.map (·.print hints) ++ p.varArg.toList.map fun q => .text "*" :: q.print hints := by
  have hregular : ∀ qs : List ParamFragment,
      List.zipWith (fun q d => q.print hints ++ q.printDefault hints d) qs
        (List.replicate qs.length none) = qs.map (·.print hints) := by
    intro qs
    induction qs with
    | nil => rfl
    | cons q qs ih =>
      rw [List.length_cons, List.replicate_succ, List.zipWith_cons_cons, ih, List.map_cons]
      simp [ParamFragment.printDefault]
  simp [ParamsFragment.items, ParamsFragment.alignedDefaults, h, hregular]

theorem print_plainParams (names : List String) :
    (plainParams names).print false = commaSeparated (names.map fun name => [.text name]) := by
  rw [ParamsFragment.print, items_of_no_defaults rfl]
  simp [plainParams, Function.comp_def, ParamFragment.print]

theorem separates_space (hset : Plain set) (d : Nat) : Separates set [.text " "] d [] :=
  ⟨' ', .inl rfl, writes_text hset (show " ".toList = [' '] from rfl)
    (spells_blank (by simp [isBlank]))⟩

/-- The parameters of a lambda, with a space before them if there are any. -/
theorem lays_lambdaHead (hset : Plain set) {names : List String}
    (h : ∀ name ∈ names, isIdentifier name = true) (d : Nat) :
    Lays set ([.text "lambda"] ++ (if (plainParams names).isEmpty then [] else [.text " "]) ++
      (plainParams names).print false) d
      (.word "lambda" :: commas (names.map fun name => [.word name])) := by
  have hlambda := (laysPrimary_word hset d (show isWord "lambda" = true by decide)).lays
  rw [print_plainParams]
  cases names with
  | nil =>
    simpa [plainParams, ParamsFragment.isEmpty, commaSeparated, separated, commas] using hlambda
  | cons name names =>
    have hitems : List.Forall₂ (Lays set · d) ((name :: names).map fun name => [.text name])
        ((name :: names).map fun name => [.word name]) := by
      rw [List.forall₂_map_left_iff, List.forall₂_map_right_iff, List.forall₂_same]
      intro x hx
      exact (laysPrimary_word hset d (isWord_of_isIdentifier (h x hx))).lays
    have hnames := lays_separated (separates_comma hset d) hitems (by simp)
    have hbody := hlambda.join (separates_space hset d) hnames
    simpa [plainParams, ParamsFragment.isEmpty, commaSeparated, commas] using hbody

theorem lays_lambda (hset : Plain set) {names : List String} {d : Nat} {ts : List Token}
    (loc : Option Location) (hnames : ∀ name ∈ names, isIdentifier name = true)
    (h : Lays set f.bare d ts) :
    Lays set (Fragment.lambda (plainParams names) f loc).body d
      (.word "lambda" :: (commas (names.map fun name => [.word name]) ++ .symbol ":" :: ts)) := by
  have hbody :=
    ((lays_lambdaHead hset hnames d).join (separates_colon hset d) h).after_mark hset loc
  simpa [Fragment.lambda] using hbody

namespace ReadsBack

theorem lambda (hset : Plain set) {names : List String} (loc : Option Location)
    (hnames : ∀ name ∈ names, isIdentifier name = true) (h : ReadsBack set f e) :
    ReadsBack set (.lambda (plainParams names) f loc)
      (.lambda (.mk [] (names.map (.mk · none)) none []) e) := by
  refine of_greedy ?_
  intro d
  obtain ⟨ts, hvalue, hts⟩ := h.bare d
  exact ⟨_, lays_lambda hset loc hnames hvalue,
    parses_lambda (fun name hn => notMem_keywords_of_isIdentifier (hnames name hn)) hts⟩

end ReadsBack

end CodePrinter.Python
