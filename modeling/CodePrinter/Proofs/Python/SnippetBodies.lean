import CodePrinter.Proofs.Names
import CodePrinter.Proofs.Python.RoundTrip
import CodePrinter.Proofs.SnippetLines

/-! Snippets that are the body of a conditional.

A snippet is not put in parentheses there, whatever its text is. Main statement: if the text is that
of an expression, the conditional is read as it was meant unless the expression is a conditional or
a lambda, which take the rest of the text for a part of themselves
(`readExpr?_render_snippetBody`). -/
namespace CodePrinter.Python

/-- Whether an expression takes a conditional that follows it for a part of itself. -/
def isGreedy : Expr → Bool
  | .conditional _ _ _ _ => true
  | .lambda _ _ _ => true
  | _ => false

/-- How an expression is read where the rest of a conditional follows it. -/
def regrouped (test orElse : Expr) : Expr → Expr
  | .conditional innerTest body innerElse _ =>
    .conditional innerTest body (.conditional test innerElse orElse)
  | .lambda params body _ => .lambda params (regrouped test orElse body)
  | e => .conditional test e orElse

theorem regrouped_eq_iff (test orElse e : Expr) :
    regrouped test orElse e = .conditional test e orElse ↔ isGreedy e = false := by
  constructor
  · intro h
    cases e with
    | conditional innerTest body innerElse loc =>
      -- the new conditional would be a part of itself
      simp only [regrouped, Expr.conditional.injEq] at h
      have hsize := congrArg sizeOf h.2.2.1
      simp only [Expr.conditional.sizeOf_spec] at hsize
      omega
    | lambda params body loc => simp [regrouped] at h
    | _ => rfl
  · intro h
    cases e with
    | conditional innerTest body innerElse loc => cases h
    | lambda params body loc => cases h
    | _ => rfl

theorem isGreedy_shown (e : Expr) : isGreedy (shown e) = isGreedy e := by
  cases e <;> simp [shown, isGreedy]

variable {set : Settings} {is js : List Instr} {f : Fragment} {e : Expr} {value : String}

/-! Reading. -/

theorem shape_ne_greedy (names : RuntimeNames) (he : isReadable e = true)
    (hg : isGreedy e = false) : (e.fragment names).shape ≠ .greedy := by
  cases e with
  | constant value loc =>
    rw [Expr.fragment, Fragment.constant]
    unfold Shape.ofConstant
    split <;> simp
  | conditional test body orElse loc => cases hg
  | lambda params body loc => cases hg
  | typedLiteral type value loc => cases he
  | typeTest type value loc => cases he
  | _ => simp [Expr.fragment, Fragment.name, Fragment.call, Fragment.attr, Fragment.subscript,
      Fragment.binary, Fragment.unary, Fragment.boolean, Fragment.compare, Fragment.tuple,
      Fragment.list, Fragment.set, Fragment.dict, Fragment.named, isReadable] at he ⊢

/-- Tokens of an expression with the rest of a conditional after them are read as if the expression
took part in it as far as it can. -/
theorem parses_regrouped (hset : Plain set) (e : Expr) (he : isReadable e = true) (d : Nat) :
    ∃ ts, Lays set (e.fragment set.names).bare d ts ∧
      ∀ us vs test orElse, Parses .atom us test → Parses .atom vs orElse →
        Parses .expression (ts ++ .word "if" :: (us ++ .word "else" :: vs))
          (regrouped test orElse (shown e)) := by
  by_cases hg : isGreedy e = false
  · have hback := readsBack hset e he
    obtain ⟨ts, hlays, -, hparses, -⟩ := hback.body d
    refine ⟨ts, by rwa [Fragment.bare, hback.issues], ?_⟩
    intro us vs test orElse hus hvs
    rw [(regrouped_eq_iff test orElse (shown e)).mpr (by rwa [isGreedy_shown])]
    exact parses_conditional (hparses (shape_ne_greedy set.names he hg))
      (hus.loosen .disjunction (by decide)) (hvs.loosen .expression (by decide))
  · cases e with
    | conditional innerTest body innerElse loc =>
      simp only [isReadable, Bool.and_eq_true] at he
      obtain ⟨ts, hbody, hts⟩ := (readsBack hset body he.1.2).branch hset d
      obtain ⟨us, htest, hus⟩ := (readsBack hset innerTest he.1.1).grouped hset d
      obtain ⟨vs, helse, hvs⟩ := (readsBack hset innerElse he.2).grouped hset d
      have hlays := lays_conditional hset loc htest.lays hbody helse.lays
      refine ⟨_, by rwa [Expr.fragment], ?_⟩
      intro xs ys test orElse hxs hys
      have hrest := parses_conditional (hvs.loosen .disjunction (by decide))
        (hxs.loosen .disjunction (by decide)) (hys.loosen .expression (by decide))
      have hparses := parses_conditional hts (hus.loosen .disjunction (by decide)) hrest
      simpa [shown, regrouped] using hparses
    | lambda params body loc =>
      simp only [isReadable, Bool.and_eq_true] at he
      obtain ⟨ids, hids, hfragment, hshown⟩ := plainParams_of_isPlainParams set.names he.1
      obtain ⟨ts, hbody, hparses⟩ := parses_regrouped hset body he.2 d
      have hlays := lays_lambda hset loc hids hbody
      refine ⟨_, by rwa [Expr.fragment, hfragment], ?_⟩
      intro us vs test orElse hus hvs
      have hlambda := parses_lambda
        (fun id hid => notMem_keywords_of_isIdentifier (hids id hid))
        (hparses us vs test orElse hus hvs)
      simpa [shown, regrouped, hshown] using hlambda
    | _ => exact absurd rfl hg

/-! The first character of an expression. -/

/-- At the margin, instructions print first a character that is no white space. -/
def Begins (set : Settings) (is : List Instr) : Prop :=
  ∀ p : Pass, p.page.depth = 0 → ∃ c, Text.isBlank c = false ∧
    p.page.pending.toList ++ [c] <+: (perform set is p).pass.page.pending.toList

theorem startLine_margin (unit : String) {page : Page} (h : page.depth = 0) :
    page.startLine unit = page := by
  obtain ⟨pending, line, column, hasText, depth⟩ := page
  obtain rfl : depth = 0 := h
  unfold Page.startLine
  split
  · simp_all [Page.indentation]
  · rfl

theorem begins_text (set : Settings) (h : value.toList.head?.any (!Text.isBlank ·) = true) :
    Begins set [.text value] := by
  intro p hp
  cases hv : value.toList with
  | nil => simp [hv] at h
  | cons c cs =>
    refine ⟨c, by simpa [hv] using h, ?_⟩
    rw [perform_singleton, Instr.perform, Pass.onPage, Page.print, startLine_margin _ hp]
    simp [hv]

namespace Begins

theorem append (h : Begins set is) (js : List Instr) : Begins set (is ++ js) := by
  intro p hp
  obtain ⟨c, hc, hstart⟩ := h p hp
  refine ⟨c, hc, hstart.trans ?_⟩
  rw [perform_append, Outcome.andThen]
  split
  · exact (perform_extends set js _).pending
  · exact List.prefix_refl _

theorem after_mark (hset : Plain set) (loc : Option Location) (h : Begins set is) :
    Begins set (markAt loc ++ is) := by
  intro p hp
  obtain ⟨q, hq, -, hpage⟩ := perform_markAt hset.maps loc p
  rw [startLine_margin _ hp, ite_self] at hpage
  rw [perform_append, hq, ← hpage]
  exact h q (hpage ▸ hp)

theorem parenthesized (set : Settings) (is : List Instr) : Begins set (parenthesized is) := by
  have hopen : Begins set [.text "("] := begins_text set (by decide)
  exact hopen.append _

/-- An expression begins like its parts, or with a parenthesis. -/
theorem positions (hi : f.issues = []) (h : Begins set f.bare) :
    Begins set f.operand ∧ Begins set f.primary ∧ Begins set f.branch := by
  have hgrouped : Begins set f.grouped := by
    rw [Fragment.grouped, hi]
    exact parenthesized set f.body
  refine ⟨?_, ?_, ?_⟩
  · unfold Fragment.operand Fragment.operandBody
    split
    · exact h
    · exact hgrouped
  · unfold Fragment.primary
    split
    · exact h
    · exact hgrouped
  · unfold Fragment.branch
    split
    · exact hgrouped
    · exact h

end Begins

/-- A name that begins with no white space, as every name of Python does. The reader takes any
character beyond ASCII for a letter. -/
def IsFlush (text : String) : Prop := text.toList.head?.all (!Text.isBlank ·) = true

instance : DecidablePred IsFlush := fun _ => inferInstanceAs (Decidable (_ = true))

theorem isBlank_of_isDigit {c : Char} (h : Decimal.isDigit c = true) : Text.isBlank c = false := by
  have hbounds : 0x30 ≤ c.toNat ∧ c.toNat ≤ 0x39 := by
    simpa [Decimal.isDigit, Char.le_def, UInt32.le_iff_toNat_le] using h
  simp only [Text.isBlank, Bool.or_eq_false_iff, Bool.and_eq_false_imp, decide_eq_true_eq,
    decide_eq_false_iff_not]
  omega

theorem begins_identifier (set : Settings) (h : isIdentifier value = true) (hn : IsFlush value) :
    Begins set [.text value] := by
  refine begins_text set ?_
  have hw := isWord_of_isIdentifier h
  unfold isWord at hw
  split at hw
  · cases hw
  · rename_i c cs hv
    simpa [IsFlush, hv] using hn

theorem begins_constant {constant : Constant} (hset : Plain set) (loc : Option Location)
    (h : isReadableConstant constant = true) :
    Begins set (Fragment.constant constant loc).bare := by
  suffices hvalue : ∃ value, constant.text = .ok value ∧
      value.toList.head?.any (!Text.isBlank ·) = true by
    obtain ⟨value, hvalue, hc⟩ := hvalue
    have hbegins := (begins_text set hc).after_mark hset loc
    simpa [Fragment.bare, Fragment.constant, hvalue, textOr] using hbegins
  cases constant with
  | bool value => cases value <;> exact ⟨_, rfl, by decide⟩
  | string value => exact ⟨_, rfl, by simp; decide⟩
  | none => exact ⟨_, rfl, by decide⟩
  | number value kind =>
    obtain ⟨n, hn, htext⟩ := exists_nat_of_isReadableConstant h
    refine ⟨value.numeral, htext, ?_⟩
    rw [Double.toList_numeral hn]
    cases hd : Nat.toDigits 10 n with
    | nil => exact absurd hd Nat.toDigits_ne_nil
    | cons c cs =>
      have hdigit : Decimal.isDigit c = true := isDigit_of_mem_toDigits (n := n) (by simp [hd])
      simp [isBlank_of_isDigit hdigit]
  | unknown _ => cases h

/-- An expression begins with no white space, if no name in it does. -/
theorem begins (hset : Plain set) (e : Expr) (he : isReadable e = true) (hn : e.AllNames IsFlush) :
    Begins set (e.fragment set.names).bare := by
  -- an expression begins with a text of its own, or with a part that stands in a position
  have hfirst : ∀ {is rest} (loc : Option Location), Begins set is →
      Begins set (markAt loc ++ (is ++ rest)) :=
    fun loc h => (h.append _).after_mark hset loc
  cases e with
  | name id loc =>
    rw [Expr.fragment]
    exact (begins_identifier set he hn).after_mark hset loc
  | constant value loc =>
    rw [Expr.fragment]
    exact begins_constant hset loc he
  | call func args keywords loc =>
    simp only [isReadable, Bool.and_eq_true] at he
    have hfunc := (begins hset func he.1.1 hn.1).positions (readsBack hset func he.1.1).issues
    simpa [Expr.fragment, Fragment.bare, Fragment.call] using hfirst loc hfunc.2.1
  | attr value member loc =>
    simp only [isReadable, Bool.and_eq_true] at he
    have hvalue := (begins hset value he.1 hn.1).positions (readsBack hset value he.1).issues
    simpa [Expr.fragment, Fragment.bare, Fragment.attr] using hfirst loc hvalue.2.1
  | subscript value slice loc =>
    simp only [isReadable, Bool.and_eq_true] at he
    have hvalue := (begins hset value he.1 hn.1).positions (readsBack hset value he.1).issues
    simpa [Expr.fragment, Fragment.bare, Fragment.subscript] using hfirst loc hvalue.2.1
  | binary left op right loc =>
    simp only [isReadable, Bool.and_eq_true] at he
    have hleft := (begins hset left he.1.1 hn.1).positions (readsBack hset left he.1.1).issues
    simpa [Expr.fragment, Fragment.bare, Fragment.binary] using hfirst loc hleft.1
  | unary op operand loc =>
    simp only [isReadable, Bool.and_eq_true, decide_eq_true_eq] at he
    rw [Expr.fragment, Fragment.bare, Fragment.unary, List.append_assoc]
    cases op with
    | unknown name => simp [UnaryOp.all] at he
    | _ => exact hfirst loc (begins_text set (by decide))
  | boolean op values loc =>
    simp only [isReadable, Bool.and_eq_true, decide_eq_true_eq] at he
    obtain ⟨⟨-, hlength⟩, hvalues⟩ := he
    rcases values with _ | ⟨first, _ | ⟨second, more⟩⟩
    · simp at hlength
    · simp at hlength
    · simp only [areReadable, Bool.and_eq_true] at hvalues
      have hleft := (begins hset first hvalues.1 hn.1).positions
        (readsBack hset first hvalues.1).issues
      simpa [Expr.fragment, fragments, Fragment.bare, Fragment.boolean, separated] using
        hfirst loc hleft.1
  | compare left ops comparators loc =>
    simp only [isReadable, Bool.and_eq_true] at he
    have hreadable := he.1.1.1.1
    have hleft := (begins hset left hreadable hn.1).positions (readsBack hset left hreadable).issues
    simpa [Expr.fragment, Fragment.bare, Fragment.compare] using hfirst loc hleft.1
  | conditional test body orElse loc =>
    simp only [isReadable, Bool.and_eq_true] at he
    have hbody := (begins hset body he.1.2 hn.2.1).positions (readsBack hset body he.1.2).issues
    simpa [Expr.fragment, Fragment.bare, Fragment.conditional] using hfirst loc hbody.2.2
  | lambda params body loc =>
    have hword : Begins set [.text "lambda"] := begins_text set (by decide)
    simpa [Expr.fragment, Fragment.bare, Fragment.lambda] using hfirst loc hword
  | tuple elements loc =>
    have hopen : Begins set [.text "("] := begins_text set (by decide)
    simpa [Expr.fragment, Fragment.bare, Fragment.tuple] using hfirst loc hopen
  | list elements loc =>
    have hopen : Begins set [.text "["] := begins_text set (by decide)
    simpa [Expr.fragment, Fragment.bare, Fragment.list] using hfirst loc hopen
  | set elements loc =>
    rw [Expr.fragment, Fragment.bare, Fragment.set]
    refine .after_mark hset loc ?_
    split
    · exact begins_text set (by decide)
    · exact ((begins_text set (by decide)).append _).append _
  | dict keys values loc =>
    rw [Expr.fragment, Fragment.bare, Fragment.dict]
    refine .after_mark hset loc ?_
    split
    · exact begins_text set (by decide)
    · have hopen : Begins set [.text "\x7b"] := begins_text set (by decide)
      exact ((hopen.append [.newline, .indent]).append _).append _
  | named target value loc =>
    rw [Expr.fragment]
    exact (Begins.parenthesized set _).after_mark hset loc
  | _ => cases he

theorem head_render (hset : Plain set) (he : isReadable e = true) (hn : e.AllNames IsFlush) :
    (e.render set).pass.page.pending.toList.head?.any (!Text.isBlank ·) = true := by
  obtain ⟨c, hc, rest, hrest⟩ := begins hset e he hn {} rfl
  rw [Expr.render, ← hrest]
  simpa using hc

/-! Printing. -/

theorem splitLines_of_oneLine {cs : List Char} (h : '\n' ∉ cs) : Text.splitLines cs = [cs] := by
  induction cs with
  | nil => rfl
  | cons c cs ih =>
    rw [List.mem_cons, not_or] at h
    rw [Template.splitLines_cons (Ne.symm h.1), ih h.2]
    · rfl
    · rintro ds - rfl
      simp at h

/-- A text without macros and references is printed as it is. -/
theorem perform_snippet {text : String} (hline : '\n' ∉ text.toList) (href : '$' ∉ text.toList)
    (hgroup : ¬ Template.openBraces <:+: text.toList)
    (hc : text.toList.head?.any (!Text.isBlank ·) = true) {p : Pass} (hp : p.page.hasText = false)
    (hcache : p.cache.Sound) :
    ∃ q, perform set (Fragment.snippet text []) p = { pass := q } ∧
      q.page = p.page.print set.indent text := by
  have hnone : ∀ cs, cs <:+ text.toList → Template.reference? cs = none := by
    intro cs hcs
    cases cs with
    | nil => rfl
    | cons c cs =>
      exact Template.reference?_cons (ne_of_mem_of_not_mem (hcs.subset (by simp)) href)
  have hplain : Template.Plain text := by
    refine ⟨?_, hgroup⟩
    intro cs hcs
    rw [Template.spread?, hnone cs hcs]
  have hsplit : (p.cache.split text).1 = Template.textParts text.toList := by
    rw [hcache.fst_split, Template.split, Template.scan_of_none hnone, Template.joinChars_chars]
  obtain ⟨c, cs, htext, hblank⟩ : ∃ c cs, text.toList = c :: cs ∧ Text.isBlank c = false := by
    cases ht : text.toList with
    | nil => simp [ht] at hc
    | cons c cs => exact ⟨c, cs, rfl, by simpa [ht] using hc⟩
  have htrim : Text.trimStart text.toList = text.toList := by
    rw [htext, Text.trimStart, List.dropWhile_cons_of_neg (by simp [hblank])]
  have hne : text ≠ "" := by
    rintro rfl
    cases htext
  have hparts := perform_textParts set [] [] text.toList []
    { p with cache := (p.cache.split text).2 }
  rw [List.append_nil, Fragment.fill, perform_nil, splitLines_of_oneLine hline] at hparts
  rw [snippet_eq hplain, perform_singleton, Instr.perform, hsplit, hparts]
  refine ⟨_, rfl, ?_⟩
  simp [Page.snippet, Page.snippetLine, hp, htrim, hne]

theorem writes_conditionalRest (hset : Plain set) {g : Fragment} {us vs : List Token}
    (htest : Lays set f.grouped 0 us) (helse : Lays set g.grouped 0 vs) :
    ∃ last, Writes set ([.text " if "] ++ (f.grouped ++ [.text " else "] ++ g.grouped))
      (Leads 0 ' ') 0 0 (.word "if" :: (us ++ .word "else" :: vs)) last := by
  obtain ⟨last, hw, -⟩ := htest.join (separates_spaced_word hset 0 "else" (by decide)) helse
  have hif := writes_spaced_word hset 0 (show isWord "if" = true by decide)
  have hrest := hif.append hw fun _ _ => rfl
  exact ⟨last, by simpa using hrest⟩

/-- The text of a snippet in the body of a conditional, and then the rest of the conditional. -/
theorem render_snippetBody (hset : Plain set) {text : String} (hline : '\n' ∉ text.toList)
    (href : '$' ∉ text.toList) (hgroup : ¬ Template.openBraces <:+: text.toList)
    (hc : text.toList.head?.any (!Text.isBlank ·) = true) {test orElse : Expr} {us vs : List Token}
    (htest : Lays set (test.fragment set.names).grouped 0 us)
    (helse : Lays set (orElse.fragment set.names).grouped 0 vs) (loc place : Option Location) :
    ∃ q x xs last, (Expr.conditional test (.emit text [] place) orElse loc).render set =
        { pass := q } ∧
      q.page.pending = text ++ String.ofList (x :: xs) ∧ Leads 0 ' ' x ∧
      Spells (x :: xs) 0 0 (.word "if" :: (us ++ .word "else" :: vs)) last := by
  obtain ⟨last, hrest⟩ := writes_conditionalRest hset htest helse
  obtain ⟨p, hp, hcache, hpage⟩ := perform_marks hset.maps place loc {}
  rw [startLine_margin _ rfl, ite_self] at hpage
  obtain ⟨q, hq, hqpage⟩ : ∃ q, perform set (Fragment.snippet text []) p = { pass := q } ∧
      q.page = p.page.print set.indent text :=
    perform_snippet hline href hgroup hc (by rw [hpage]) (hcache ▸ Template.Cache.sound_empty)
  have hpending : q.page.pending = text := by
    rw [hqpage, hpage, Page.print, startLine_margin _ rfl]
    simp
  obtain ⟨r, x, xs, hr, hrpending, hx, hspells⟩ := hrest q
  refine ⟨r, x, xs, last, ?_, by rw [hrpending, hpending], hx, hspells⟩
  have hinstrs :
      ((Expr.conditional test (.emit text [] place) orElse loc).fragment set.names).bare =
        (markAt loc ++ markAt place) ++ (Fragment.snippet text [] ++ ([.text " if "] ++
          ((test.fragment set.names).grouped ++ [.text " else "] ++
            (orElse.fragment set.names).grouped))) := by
    simp [Expr.fragment, fragments, Fragment.bare, Fragment.conditional, Fragment.branch,
      Fragment.emit]
  rw [Expr.render, hinstrs]
  exact perform_append_eq_pass.mpr ⟨p, hp, perform_append_eq_pass.mpr ⟨q, hq, hr⟩⟩

/-- A conditional whose body is the text of an expression is read as the expression is read with
the rest of a conditional after it: as it was meant if and only if the expression is neither a
conditional nor a lambda. -/
theorem readExpr?_render_snippetBody (hindent : BlankIndent set) {test body orElse : Expr}
    {text : String} (htest : isReadable test = true) (hbody : isReadable body = true)
    (helse : isReadable orElse = true) (hn : body.AllNames IsFlush)
    (htext : (body.render set).pass.page.pending = text) (hline : '\n' ∉ text.toList)
    (href : '$' ∉ text.toList) (hgroup : ¬ Template.openBraces <:+: text.toList)
    (loc place : Option Location) (hbodyKeeps : Pass.Keeps set {} (body.located set.names))
    (hkeeps : Pass.Keeps set {}
      ((Expr.conditional test (.emit text [] place) orElse loc).located set.names)) :
    let printed := (Expr.conditional test (.emit text [] place) orElse loc).render set
    printed.failure = none ∧
      readExpr? printed.pass.page.pending =
        some (regrouped (shown test) (shown orElse) (shown body)) ∧
      (readExpr? printed.pass.page.pending = some (shown (.conditional test body orElse loc)) ↔
        isGreedy body = false) := by
  intro printed
  have hset := hindent.plain
  rw [Expr.render_withoutChecks hbodyKeeps] at htext
  have hrun : printed = _ := Expr.render_withoutChecks hkeeps
  generalize set.withoutChecks = set at hset htext hrun
  obtain ⟨ts, ⟨last, hwrites, -⟩, hparses⟩ := parses_regrouped hset body hbody 0
  obtain ⟨us, hus, htestParses⟩ := (readsBack hset test htest).grouped hset 0
  obtain ⟨vs, hvs, helseParses⟩ := (readsBack hset orElse helse).grouped hset 0
  obtain ⟨b, c, cs, hb, hpending, -, hspells⟩ := hwrites {}
  have hchars : text = String.ofList (c :: cs) := by
    rw [← htext, Expr.render, hb]
    simpa using hpending
  have hfirst := head_render hset hbody hn
  rw [htext] at hfirst
  obtain ⟨q, x, xs, last', hprinted, hwhole, hx, hrest⟩ :=
    render_snippetBody hset hline href hgroup hfirst hus.lays hvs.lays loc place
  have hapart : last.apart x = true := by
    rcases hx with rfl | hx
    · exact apart_blank (d := 0) rfl hspells.tokens?_ne_none
    · exact apart_blank hx hspells.tokens?_ne_none
  have hread : readExpr? printed.pass.page.pending =
      some (regrouped (shown test) (shown orElse) (shown body)) := by
    rw [hrun, hprinted, hwhole, hchars, ← String.ofList_append]
    exact readExpr?_of_parses (tokens?_of_spells (hspells.append hrest hapart))
      (hparses us vs _ _ htestParses helseParses)
  refine ⟨congrArg Outcome.failure (hrun.trans hprinted), hread, ?_⟩
  rw [hread, Option.some.injEq, shown, regrouped_eq_iff, isGreedy_shown]

/-- The text of a lambda whose body is a conditional takes in the conditional that it is the body
of. -/
theorem readExpr?_render_snippetBody_lambda :
    let inner : Expr := .conditional (.name "a") (.name "x") (.name "y")
    let body : Expr := .lambda (.mk [] [.mk "x" none] none []) inner
    let text := "lambda x: x if (a) else (y)"
    let whole := "lambda x: x if (a) else (y) if (b) else (z)"
    (body.render {}).pass.page.pending = text ∧
      ((Expr.conditional (.name "b") (.emit text []) (.name "z")).render {}).pass.page.pending =
        whole ∧
      readExpr? whole = some (.lambda (.mk [] [.mk "x" none] none [])
        (.conditional (.name "a") (.name "x")
          (.conditional (.name "b") (.name "y") (.name "z")))) ∧
      readExpr? whole ≠ some (shown (.conditional (.name "b") body (.name "z"))) := by
  intro inner body text whole
  have htext : (body.render {}).pass.page.pending = text := by decide +kernel
  have hwhole : ((Expr.conditional (.name "b") (.emit text []) (.name "z")).render
      {}).pass.page.pending = whole := by decide +kernel
  have hnames : body.AllNames IsFlush := by
    simp only [body, inner, Expr.AllNames, Params.AllNames, paramsAllNames, Param.AllNames,
      optionAllNames, optionParamAllNames, exprsAllNames]
    decide +kernel
  have hreadable : isReadable (.name "b") = true ∧ isReadable body = true ∧
      isReadable (.name "z") = true := by
    decide +kernel
  have hkeeps := Settings.unchecked_default.keeps {}
  obtain ⟨-, hread, hmeant⟩ := readExpr?_render_snippetBody (by decide) hreadable.1
    hreadable.2.1 hreadable.2.2 hnames htext (by decide) (by decide) (by decide +kernel) none none
    (hkeeps _) (hkeeps _)
  rw [hwhole] at hread hmeant
  refine ⟨htext, hwhole, ?_, ?_⟩
  · rw [hread]
    simp [body, inner, shown, shownParams, shownParamList, shownParam, shownOption, shownAll,
      regrouped]
  · rw [Ne, hmeant]
    decide

end CodePrinter.Python
