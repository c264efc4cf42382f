import CodePrinter.Proofs.KeptMappings
import CodePrinter.Proofs.OneLine
import CodePrinter.Proofs.TemplateLines

/-! The lines of snippets.

A template is cut at its references before it is cut into lines, and a line break that directly
follows a reference is lost. Main statement: a snippet prints the lines of its template that have
text on them, each without the white space it begins with, where a line that ends with a reference
goes on with the next one (`snippet_lines`). -/
namespace CodePrinter

namespace Page

variable {unit : String} {p : Page}

/-- The page with some more text on the current line. -/
def begun (unit text : String) (p : Page) : Page := if text = "" then p else p.print unit text

/-- The page with some more lines. -/
def addLines (unit : String) : List String → Page → Page
  | [], p => p
  | line :: lines, p => addLines unit lines (p.print unit line).newline

theorem begun_print (s : String) {t : String} (ht : t ≠ "") :
    (p.begun unit s).print unit t = p.begun unit (s ++ t) := by
  have hne : s ++ t ≠ "" := by simp [String.append_eq_empty_iff, ht]
  unfold begun
  rw [if_neg hne]
  split
  · rename_i hs
    rw [hs, String.empty_append]
  · exact print_print unit s t p

theorem hasText_startLine (unit : String) (p : Page) : (p.startLine unit).hasText = p.hasText := by
  unfold startLine
  split <;> rfl

theorem hasText_begun (text : String) (hp : p.hasText = false) :
    (p.begun unit text).hasText = decide (text ≠ "") := by
  unfold begun
  split
  · rename_i ht
    simp [ht, hp]
  · simp [print, hasText_startLine, hp]

/-- A line of a snippet counts from its first text on. -/
theorem begun_snippetLine (text : String) (hp : p.hasText = false) (line : List Char)
    (more : Bool) :
    (p.begun unit text).snippetLine unit (String.ofList line) more =
      let value := String.ofList (if text = "" then Text.trimStart line else line)
      if value = "" then p.begun unit text
      else if more then (p.print unit (text ++ value)).newline
      else p.begun unit (text ++ value) := by
  have hvalue : (if (p.begun unit text).hasText = true then String.ofList line
      else String.ofList (Text.trimStart (String.ofList line).toList)) =
      String.ofList (if text = "" then Text.trimStart line else line) := by
    rw [hasText_begun text hp]
    by_cases ht : text = "" <;> simp [ht]
  unfold snippetLine
  simp only [hvalue]
  generalize String.ofList (if text = "" then Text.trimStart line else line) = value
  split
  · rfl
  · rename_i hne
    have happend : text ++ value ≠ "" := by simp [String.append_eq_empty_iff, hne]
    have hbegun : p.begun unit (text ++ value) = p.print unit (text ++ value) := if_neg happend
    rw [begun_print text hne, hbegun]

/-- A text of a snippet, line by line. -/
def snippet (unit : String) : List (List Char) → Page → Page
  | [], p => p
  | [line], p => p.snippetLine unit (String.ofList line) false
  | line :: lines, p => snippet unit lines (p.snippetLine unit (String.ofList line) true)

end Page

namespace Template

section Run

variable {text : Nat → String} {unit : String} {p : Page} {line next : List (Token Nat)}
  {lines : List (List (Token Nat))}

theorem continued_of_endsWithHit (h : endsWithHit line = true) :
    continued line (next :: lines) = continuing line (next :: lines) := by
  rw [continued, if_pos h]
  rfl

theorem continued_of_not_endsWithHit (h : endsWithHit line = false) :
    continued line (next :: lines) = line :: continuing [] (next :: lines) := by
  rw [continued, if_neg (by simp [h])]
  rfl

theorem addLines_textLines_cons (h : lineText text line ≠ "") :
    p.addLines unit (textLines text (line :: lines)) =
      (p.print unit (lineText text line)).newline.addLines unit (textLines text lines) := by
  simp [textLines, h, Page.addLines]

theorem textLines_cons_of_empty (h : lineText text line = "") :
    textLines text (line :: lines) = textLines text lines := by
  simp [textLines, h]

theorem lineText_append_chars (htext : ∀ index, text index ≠ "") (line : List (Token Nat))
    (cs : List Char) :
    lineText text (line ++ cs.map .char) = lineText text line ++
      String.ofList (if lineText text line = "" then Text.trimStart cs else cs) := by
  rw [lineText_append htext, lineText_chars, fillText_chars]
  by_cases hline : lineText text line = ""
  · simp only [hline, if_true, String.empty_append]
  · simp only [hline, if_false]

/-- The last piece of a text leaves its line open. -/
theorem begun_snippetLine_last (htext : ∀ index, text index ≠ "") (hp : p.hasText = false)
    (cs : List Char) :
    (p.begun unit (lineText text line)).snippetLine unit (String.ofList cs) false =
      p.begun unit (lineText text (line ++ cs.map .char)) := by
  rw [Page.begun_snippetLine _ hp, lineText_append_chars htext]
  dsimp only
  generalize String.ofList (if lineText text line = "" then Text.trimStart cs else cs) = value
  split
  · rename_i he
    rw [he, String.append_empty]
  · rfl

/-- A piece with a line break after it ends its line, unless nothing came after a reference. -/
theorem begun_snippetLine_more (htext : ∀ index, text index ≠ "") (hp : p.hasText = false)
    (hline : Open line) (cs : List Char) :
    ∃ (q : Page) (rest : List (Token Nat)), q.hasText = false ∧ Open rest ∧
      (p.begun unit (lineText text line)).snippetLine unit (String.ofList cs) true =
        q.begun unit (lineText text rest) ∧
      ∀ next lines,
        p.addLines unit (textLines text (continued (line ++ cs.map .char) (next :: lines))) =
          q.addLines unit (textLines text (continuing rest (next :: lines))) := by
  have hfull := lineText_append_chars htext line cs
  rw [Page.begun_snippetLine _ hp]
  dsimp only
  by_cases hends : endsWithHit (line ++ cs.map .char) = true
  · obtain rfl : cs = [] := by
      by_contra hc
      simp [endsWithHit_append_chars hc] at hends
    rw [List.map_nil, List.append_nil] at hends ⊢
    have hne := lineText_of_endsWithHit htext hends
    refine ⟨p, line, hp, .inr hends, by simp [hne], ?_⟩
    intro next lines
    rw [continued_of_endsWithHit hends]
  · rw [Bool.not_eq_true] at hends
    by_cases hempty : lineText text (line ++ cs.map .char) = ""
    · rw [hempty] at hfull
      obtain ⟨hline, hvalue⟩ := String.append_eq_empty_iff.mp hfull.symm
      refine ⟨p, [], hp, .inl rfl, ?_, ?_⟩
      · rw [if_pos hvalue, hline]
        rfl
      · intro next lines
        rw [continued_of_not_endsWithHit hends, textLines_cons_of_empty hempty]
    · have hvalue :
          String.ofList (if lineText text line = "" then Text.trimStart cs else cs) ≠ "" := by
        intro hvalue
        rw [hvalue, String.append_empty] at hfull
        rcases hline with rfl | hline
        · exact hempty hfull
        · rw [if_neg (lineText_of_endsWithHit htext hline)] at hvalue
          have hnil : cs = [] := String.ofList_injective hvalue
          rw [hnil, List.map_nil, List.append_nil, hline] at hends
          cases hends
      refine ⟨(p.print unit (lineText text (line ++ cs.map .char))).newline, [], rfl, .inl rfl,
        ?_, ?_⟩
      · rw [if_neg hvalue, if_pos rfl, hfull]
        rfl
      · intro next lines
        rw [continued_of_not_endsWithHit hends, addLines_textLines_cons hempty]

/-- One text between references takes the page from one open line to another, and what follows
adds the same lines from there. -/
theorem begun_snippet (unit : String) (htext : ∀ index, text index ≠ "") (hp : p.hasText = false)
    (hline : Open line) (pieces : List (List Char)) (hpieces : pieces ≠ []) :
    ∃ (q : Page) (last : List (Token Nat)), q.hasText = false ∧
      (p.begun unit (lineText text line)).snippet unit pieces = q.begun unit (lineText text last) ∧
      ∀ next lines,
        p.addLines unit (textLines text
            (continuing line (joinLines (pieces.map (·.map .char)) (next :: lines)))) =
          q.addLines unit (textLines text (continued (last ++ next) lines)) := by
  induction pieces generalizing p line with
  | nil => exact absurd rfl hpieces
  | cons cs pieces ih =>
    cases pieces with
    | nil =>
      refine ⟨p, line ++ cs.map Token.char, hp, ?_, ?_⟩
      · rw [Page.snippet]
        exact begun_snippetLine_last htext hp cs
      · intro next lines
        simp only [List.map_cons, List.map_nil, joinLines, continuing, List.append_assoc]
    | cons ds pieces =>
      obtain ⟨q, rest, hq, hrest, hpage, hlines⟩ := begun_snippetLine_more htext hp hline cs
      obtain ⟨r, last, hr, hsnippet, hmore⟩ := ih hq hrest (by simp)
      refine ⟨r, last, hr, ?_, ?_⟩
      · rw [Page.snippet, hpage, hsnippet]
        simp
      · intro next lines
        rw [← hmore]
        obtain ⟨first, others, hjoin⟩ : ∃ first others,
            joinLines ((ds :: pieces).map (·.map Token.char)) (next :: lines) =
              first :: others := by
          cases pieces with
          | nil => exact ⟨_, _, rfl⟩
          | cons es pieces => exact ⟨_, _, rfl⟩
        have hcons : joinLines ((cs :: ds :: pieces).map (·.map Token.char)) (next :: lines) =
            cs.map .char :: first :: others := by
          rw [← hjoin]
          rfl
        rw [hcons, hjoin]
        exact hlines first others

end Run

/-- A fact about tokens holds if it holds of texts, and of a text and a reference before tokens of
which it holds. -/
theorem token_induction {motive : List (Token Nat) → Prop}
    (chars : ∀ cs : List Char, motive (cs.map .char))
    (hit : ∀ (cs : List Char) (index : Nat) (ts : List (Token Nat)), motive ts →
      motive (cs.map .char ++ .hit index :: ts)) (ts : List (Token Nat)) : motive ts := by
  have hgeneral : ∀ cs : List Char, motive (cs.map .char ++ ts) := by
    induction ts with
    | nil =>
      intro cs
      rw [List.append_nil]
      exact chars cs
    | cons t ts ih =>
      intro cs
      cases t with
      | char c =>
        have hmore := ih (cs ++ [c])
        rwa [List.map_append, List.append_assoc] at hmore
      | hit index => exact hit cs index ts (ih [])
  exact hgeneral []

/-- A text as the parts of a template. -/
def textParts (cs : List Char) : List Part := if cs = [] then [] else [.text (String.ofList cs)]

theorem consChar_textParts (c : Char) (cs : List Char) (parts : List Part)
    (h : ∀ value more, parts ≠ .text value :: more) :
    consChar c (textParts cs ++ parts) = textParts (c :: cs) ++ parts := by
  cases cs with
  | nil =>
    cases parts with
    | nil => rfl
    | cons part parts =>
      cases part with
      | text value => exact absurd rfl (h value parts)
      | arg index => rfl
  | cons d cs =>
    simp only [textParts, consChar, reduceCtorEq, if_false, List.cons_append, List.nil_append]
    rw [← String.ofList_cons]

theorem joinChars_chars (cs : List Char) : joinChars (cs.map .char) = textParts cs := by
  induction cs with
  | nil => rfl
  | cons c cs ih =>
    have hcons := consChar_textParts c cs [] (by simp)
    rw [List.append_nil, List.append_nil] at hcons
    rw [List.map_cons, joinChars, ih, hcons]

theorem joinChars_hit (cs : List Char) (index : Nat) (ts : List (Token Nat)) :
    joinChars (cs.map .char ++ .hit index :: ts) = textParts cs ++ .arg index :: joinChars ts := by
  induction cs with
  | nil => rfl
  | cons c cs ih =>
    rw [List.map_cons, List.cons_append, joinChars, ih, consChar_textParts _ _ _ (by simp)]

end Template

namespace Page

theorem snippet_empty (unit : String) (p : Page) : p.snippet unit [[]] = p := by
  simp [snippet, snippetLine, Text.trimStart]

theorem endLine_begun {unit text : String} {p : Page} (ht : text ≠ "") :
    (p.begun unit text).endLine = (p.print unit text).newline := by
  have hcolumn : (p.print unit text).column ≠ 0 := by
    have hwidth : Text.width text ≠ 0 := fun h => ht (Text.width_eq_zero.mp h)
    simp only [print]
    omega
  rw [begun, if_neg ht, endLine, if_neg hcolumn]

end Page

open Template Fragment

section Printing

variable {set : Settings} {text : Nat → String} {args : List Fragment}

theorem perform_snippetLines (set : Settings) (lines : List (List Char)) (p : Pass) :
    perform set (snippetLines lines) p =
      { pass := { p with page := p.page.snippet set.indent lines } } := by
  induction lines generalizing p with
  | nil => exact perform_nil set p
  | cons line lines ih =>
    cases lines with
    | nil => exact perform_singleton set _ p
    | cons next lines =>
      rw [snippetLines, perform_cons, Instr.perform, Page.snippet]
      · exact ih _
      · simp
      · simp

theorem perform_textParts (set : Settings) (args : List Fragment) (used : List Nat) (cs : List Char)
    (parts : List Part) (p : Pass) :
    perform set (fill args used (textParts cs ++ parts)) p =
      perform set (fill args used parts)
        { p with page := p.page.snippet set.indent (Text.splitLines cs) } := by
  by_cases hc : cs = []
  · subst hc
    rw [Text.splitLines, Page.snippet_empty]
    rfl
  · rw [textParts, if_neg hc, List.singleton_append, fill, perform_append, perform_snippetLines,
      String.toList_ofList]
    rfl

/-- A reference is printed as an argument, or as `None` if there is no such argument. -/
def argInstrs (args : List Fragment) (used : List Nat) (index : Nat) : List Instr :=
  match args[index]? with
  | some f => firstUse args used index ++ f.operandBody
  | none => [.text "None"]

theorem fill_arg (args : List Fragment) (used : List Nat) (index : Nat) (parts : List Part) :
    fill args used (.arg index :: parts) =
      argInstrs args used index ++ fill args (index :: used) parts := by
  cases h : args[index]? with
  | none => simp only [fill, argInstrs, h]
  | some f => simp only [fill, argInstrs, h]

/-- Every reference prints a text. -/
def Fills (set : Settings) (args : List Fragment) (text : Nat → String) : Prop :=
  ∀ used index, Puts set (argInstrs args used index) (text index)

/-- What is left of a template adds its lines to the page, from an open line on. -/
theorem perform_fill (htext : ∀ index, text index ≠ "") (hfills : Fills set args text)
    (ts : List (Token Nat)) (used : List Nat) {p : Pass} {page : Page} {line : List (Token Nat)}
    (hp : page.hasText = false) (hline : Open line)
    (hpage : p.page = page.begun set.indent (lineText text line)) :
    ∃ q, perform set (fill args used (joinChars ts)) p = { pass := q } ∧
      q.page.endLine =
        (page.addLines set.indent (textLines text (continuing line (tokenLines ts)))).endLine := by
  induction ts using token_induction generalizing used p page line with
  | chars cs =>
    obtain ⟨q, last, hq, hsnippet, hmore⟩ := begun_snippet set.indent htext hp hline
      (Text.splitLines cs) (Text.splitLines_ne_nil cs)
    have hlines : tokenLines (cs.map .char) =
        joinLines ((Text.splitLines cs).map (·.map .char)) [[]] := by
      have happend := tokenLines_chars_append [] (by simp) cs
      rwa [List.append_nil] at happend
    have hparts := perform_textParts set args used cs [] p
    rw [List.append_nil] at hparts
    rw [joinChars_chars, hparts, fill, perform_nil]
    refine ⟨_, rfl, ?_⟩
    rw [hlines, hmore, List.append_nil, hpage, hsnippet]
    by_cases hempty : lineText text last = ""
    · rw [hempty, continued, textLines_cons_of_empty hempty]
      rfl
    · rw [Page.endLine_begun hempty, continued, addLines_textLines_cons hempty]
      rfl
  | hit cs index ts ih =>
    obtain ⟨q, last, hq, hsnippet, hmore⟩ := begun_snippet set.indent htext hp hline
      (Text.splitLines cs) (Text.splitLines_ne_nil cs)
    obtain ⟨next, lines, hnext⟩ := List.exists_cons_of_ne_nil (tokenLines_ne_nil ts)
    obtain ⟨r, hr, hrpage⟩ := hfills used index
      { p with page := p.page.snippet set.indent (Text.splitLines cs) }
    have hlast : lineText text (last ++ [.hit index]) = lineText text last ++ text index := by
      rw [lineText_append htext, fillText_hit]
      split
      · rename_i he
        rw [he, String.empty_append]
        exact fillText_hit index
      · rfl
    have hbegun : r.page = q.begun set.indent (lineText text (last ++ [.hit index])) := by
      rw [hrpage, hlast, ← Page.begun_print _ (htext index), ← hsnippet, hpage]
    obtain ⟨t, ht, htpage⟩ :=
      ih (index :: used) hq (.inr (by simp [endsWithHit, Token.isHit])) hbegun
    refine ⟨t, ?_, ?_⟩
    · rw [joinChars_hit, perform_textParts, fill_arg, perform_append, hr]
      exact ht
    · rw [htpage, tokenLines_chars_append _ (by simp), tokenLines_of_not_break (by simp) (by simp),
        hnext]
      have hjoin : joinLines [[Token.hit index]] (next :: lines) =
          (.hit index :: next) :: lines := rfl
      rw [hjoin, hmore]
      simp [continuing]

/-- The text of an argument that is a name, or a number without a sign. -/
def Expr.plainText? : Expr → Option String
  | .name id _ => if id = "" then none else some id
  | .constant (.number value kind) _ =>
    if value.isNegative then none else some (Constant.numberText value kind)
  | _ => none

/-- The text of an argument; one that does not exist is `None`. -/
def argText (args : List Expr) (index : Nat) : String :=
  ((args[index]?).bind Expr.plainText?).getD "None"

theorem plainText?_ne_empty {e : Expr} {value : String} (h : e.plainText? = some value) :
    value ≠ "" := by
  unfold Expr.plainText? at h
  split at h
  · split at h
    · cases h
    · rename_i hid
      cases h
      exact hid
  · split at h
    · cases h
    · cases h
      exact Constant.numberText_ne_empty _ _
  · cases h

theorem argText_ne_empty (args : List Expr) (index : Nat) : argText args index ≠ "" := by
  unfold argText
  cases h : (args[index]?).bind Expr.plainText? with
  | none => decide
  | some value =>
    obtain ⟨e, -, he⟩ := Option.bind_eq_some_iff.mp h
    exact plainText?_ne_empty he

/-- Names and numbers without a sign need no parentheses. -/
theorem puts_plainText (hm : set.Unchecked) {e : Expr} {value : String}
    (h : e.plainText? = some value) :
    (e.fragment set.names).issues = [] ∧ Puts set (e.fragment set.names).operandBody value := by
  unfold Expr.plainText? at h
  split at h
  · rename_i id loc
    split at h
    · cases h
    · cases h
      rw [Expr.fragment]
      exact ⟨rfl, (puts_text set _).after_mark hm loc⟩
  · rename_i value kind loc
    split at h
    · cases h
    · rename_i hnegative
      cases h
      have hshape : (Shape.ofConstant (.number value kind)).isAtomic = true := by
        simp [Shape.ofConstant, Constant.isNumber, Shape.isAtomic, Constant.isNegativeNumber,
          hnegative]
      have hbody : (constant (.number value kind) loc).operandBody =
          (constant (.number value kind) loc).body := if_pos hshape
      rw [Expr.fragment, hbody]
      exact ⟨rfl, (puts_text set _).after_mark hm loc⟩
  · cases h

theorem fills_argText (hm : set.Unchecked) {args : List Expr}
    (hargs : ∀ e ∈ args, e.plainText?.isSome) :
    Fills set (fragments set.names args) (argText args) := by
  intro used index
  unfold argInstrs argText
  rw [fragments_eq_map, List.getElem?_map]
  cases he : args[index]? with
  | none => exact puts_text set "None"
  | some e =>
    obtain ⟨value, hvalue⟩ := Option.isSome_iff_exists.mp (hargs e (List.mem_of_getElem? he))
    obtain ⟨hissues, hputs⟩ := puts_plainText hm hvalue
    have hfirst : firstUse (args.map (·.fragment set.names)) used index = [] := by
      unfold firstUse
      simp [he, hissues]
    simp only [Option.map_some, hfirst, List.nil_append, Option.bind_some, hvalue, Option.getD_some]
    exact hputs

/-- Instructions of a snippet whose template has no macros. -/
theorem snippet_eq {template : String} (h : Template.Plain template) (args : List Fragment) :
    snippet template args = [.template template (fill args [])] := by
  unfold snippet
  dsimp only
  rw [h.choiceIndices_eq, h.expand_eq]
  rfl

end Printing

namespace Page

variable {unit : String} {p : Page}

theorem print_startLine (unit text : String) (p : Page) :
    (p.startLine unit).print unit text = p.print unit text := by
  rw [startLine_eq_print, print_print, String.empty_append]

/-- A mark at the start of a line makes no difference to the lines that follow. -/
theorem addLines_startLine {lines : List String} (h : lines ≠ []) :
    (p.startLine unit).addLines unit lines = p.addLines unit lines := by
  obtain ⟨line, lines, rfl⟩ := List.exists_cons_of_ne_nil h
  rw [addLines, print_startLine, addLines]

/-- What lines add to a page at the start of a line. -/
theorem addLines_eq (hcolumn : p.column = 0) (hhasText : p.hasText = false) (lines : List String) :
    p.addLines unit lines =
      { p with
        pending := p.pending ++
          String.join (lines.map fun line => indentation unit p.depth ++ line ++ "\n")
        line := p.line + lines.length } := by
  induction lines generalizing p with
  | nil => simp [addLines]
  | cons line lines ih =>
    have hline : (p.print unit line).newline =
        { p with
          pending := p.pending ++ (indentation unit p.depth ++ line ++ "\n")
          line := p.line + 1 } := by
      simp [print, startLine, hcolumn, newline, hhasText, String.append_assoc]
    rw [addLines, hline, ih]
    · simp [String.append_assoc]
      omega
    · exact hcolumn
    · exact hhasText

/-- The page after a snippet, if the line was begun with a mark or not. -/
theorem endLine_addLines (hcolumn : p.column = 0) (hhasText : p.hasText = false) (marked : Bool)
    (lines : List String) :
    ((if marked then p.startLine unit else p).addLines unit lines).endLine =
      if lines = [] ∧ marked then (p.startLine unit).endLine
      else { p with
        pending := p.pending ++
          String.join (lines.map fun line => indentation unit p.depth ++ line ++ "\n")
        line := p.line + lines.length } := by
  have hended : (p.addLines unit lines).endLine = p.addLines unit lines := by
    rw [addLines_eq hcolumn hhasText, endLine, if_pos (by exact hcolumn)]
  rw [← addLines_eq hcolumn hhasText]
  cases marked with
  | false => simpa using hended
  | true =>
    by_cases hl : lines = []
    · subst hl
      simp [addLines]
    · simpa [hl, addLines_startLine hl] using hended

end Page

section Statement

variable {set : Settings} {p : Pass}

/-- The marks of a statement and of the snippet in it begin the line, if there are any. -/
theorem perform_marks (hm : set.Unchecked) (loc place : Option Location)
    (p : Pass) :
    ∃ q, perform set (markAt place ++ markAt loc) p = { pass := q } ∧ q.cache = p.cache ∧
      q.page = if loc.isSome || place.isSome then p.page.startLine set.indent else p.page := by
  obtain ⟨q, hq, hqcache, hqpage⟩ := perform_markAt hm place p
  obtain ⟨r, hr, hrcache, hrpage⟩ := perform_markAt hm loc q
  refine ⟨r, perform_append_eq_pass.mpr ⟨q, hq, hr⟩, hrcache.trans hqcache, ?_⟩
  have htwice : (p.page.startLine set.indent).startLine set.indent =
      p.page.startLine set.indent := by
    rw [Page.startLine_eq_print set.indent p.page, Page.startLine_print]
  rw [hrpage, hqpage]
  cases place <;> cases loc <;> simp [htwice]

/-- A template without macros adds its lines to a page on which a line may be begun. -/
theorem perform_template (template : String) {args : List Fragment} {text : Nat → String}
    (htext : ∀ index, text index ≠ "") (hfills : Fills set args text) (hcache : p.cache.Sound)
    (hp : p.page.hasText = false) :
    ∃ q, perform set [.template template (fill args []), .endLine] p = { pass := q } ∧
      q.page = (p.page.addLines set.indent (printedLines text template)).endLine := by
  obtain ⟨q, hq, hpage⟩ := perform_fill htext hfills (scan reference? template.toList) []
    (p := { p with cache := (p.cache.split template).2 }) hp (.inl rfl) rfl
  refine ⟨{ q with page := q.page.endLine }, ?_, ?_⟩
  · have hsplit : (p.cache.split template).1 = joinChars (scan reference? template.toList) :=
      hcache.fst_split template
    rw [perform_cons, Instr.perform, hsplit, hq]
    exact perform_singleton set .endLine q
  · rw [printedLines, ← tokenLines_scan]
    exact hpage

end Statement

/-- A snippet that stands as a statement at the start of a line prints the lines of its template
that have text on them, each on a line of its own at the current indentation, without the white
space it begins with and with its references filled in. A line that ends with a reference goes on
with the next one; if there is none before the last, these are the lines of the template. Where no
line has text, a mark leaves the indentation behind. -/
theorem snippet_lines (set : Settings) {template : String}
    (htemplate : Template.Plain template) {args : List Expr}
    (hargs : ∀ e ∈ args, e.plainText?.isSome) (loc place : Option Location) {p : Pass}
    (hkeeps : p.Keeps set (stmtsLocated set.names [.expr (.emit template args loc) place]))
    (hcolumn : p.page.column = 0) (hhasText : p.page.hasText = false) (hcache : p.cache.Sound) :
    let lines := printedLines (argText args) template
    (∃ q, renderStmts set [.expr (.emit template args loc) place] p = { pass := q } ∧
      q.page =
        if lines = [] ∧ (loc.isSome || place.isSome) then (p.page.startLine set.indent).endLine
        else { p.page with
          pending := p.page.pending ++ String.join (lines.map fun line =>
            Page.indentation set.indent p.page.depth ++ line ++ "\n")
          line := p.page.line + lines.length }) ∧
    ((∀ line ∈ (Text.splitLines template.toList).dropLast,
        endsWithHit (scan reference? line) = false) →
      lines = ((Text.splitLines template.toList).filter fun line => !line.all Text.isBlank).map
        fun line => fillText (argText args) (scan reference? (Text.trimStart line))) := by
  intro lines
  refine ⟨?_, printedLines_eq (argText_ne_empty args)⟩
  have hm := set.unchecked_withoutChecks
  rw [renderStmts_withoutChecks hkeeps, ← set.indent_withoutChecks]
  generalize set.withoutChecks = set at hm ⊢
  have hinstrs : stmtsInstrs set [.expr (.emit template args loc) place] =
      (markAt place ++ markAt loc) ++
        [.template template (fill (fragments set.names args) []), .endLine] := by
    simp [stmtsInstrs, Stmt.instrs, Expr.fragment, Fragment.emit, Fragment.bare,
      snippet_eq htemplate]
  obtain ⟨q, hq, hqcache, hqpage⟩ := perform_marks hm loc place p
  have hqtext : q.page.hasText = false := by
    rw [hqpage]
    split
    · rw [Page.hasText_startLine, hhasText]
    · exact hhasText
  obtain ⟨r, hr, hrpage⟩ := perform_template template (argText_ne_empty args)
    (fills_argText hm hargs) (hqcache ▸ hcache) hqtext
  refine ⟨r, ?_, ?_⟩
  · rw [renderStmts, hinstrs]
    exact perform_append_eq_pass.mpr ⟨q, hq, hr⟩
  · rw [hrpage, hqpage, Page.endLine_addLines hcolumn hhasText]

/-- The line break after a reference is lost, and the one after a text is not. The place of the
statement is one that a map can hold. -/
theorem snippet_lines_joined :
    let set : Settings := { maps := .checked "main.fs" }
    let place := some (Location.span 3 4)
    let template := "if x:\n    a = $0\n    b = $1;"
    let args : List Expr := [.name "y", .constant (.number (.zero false) .int32)]
    let p : Pass := { page := { depth := 1 } }
    Template.Plain template ∧ (∀ e ∈ args, e.plainText?.isSome) ∧
    (∃ q, renderStmts set [.expr (.emit template args) place] p = { pass := q } ∧
      q.page.pending = "    if x:\n    a = y    b = 0;\n") ∧
    ¬ ∀ line ∈ (Text.splitLines template.toList).dropLast,
      endsWithHit (scan reference? line) = false := by
  intro set place template args p
  have htemplate : Template.Plain template := by decide
  have hargs : ∀ e ∈ args, e.plainText?.isSome := by decide
  have hprinted : printedLines (argText args) template = ["if x:", "a = y    b = 0;"] := by
    decide +kernel
  have hkeeps : p.Keeps set (stmtsLocated set.names [.expr (.emit template args) place]) := by
    intro source hs
    cases hs
    exact ⟨by decide, Template.Cache.sound_empty, by decide +kernel⟩
  obtain ⟨⟨q, hq, hpage⟩, -⟩ := snippet_lines set htemplate hargs none place hkeeps
    rfl rfl Template.Cache.sound_empty
  refine ⟨htemplate, hargs, ⟨q, hq, ?_⟩, by decide⟩
  rw [hpage, hprinted]
  rfl

end CodePrinter
