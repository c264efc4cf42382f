import CodePrinter.Proofs.Outline

/-! The lines that instructions print, if they do not fail.

Instructions print a text on one line (`Inline`) or whole lines (`Rows`). Main statements: what a
header and a suite print is an outline (`Outlined.suite`, `Outlined.block`), and so is what two
lists of instructions print one after the other (`Outlined.append`). -/
namespace CodePrinter

open Text

namespace Text

def isInline (c : Char) : Bool := c ≠ '\n'

/-- Neither a line feed nor a colon. -/
def isClean (c : Char) : Bool := c ≠ '\n' && c ≠ ':'

end Text

variable {set : Settings} {is js : List Instr} {line : String} {p q : Pass}

/-! Instructions that stay on one line. -/

/-- Instructions print a text on a line, if they do not fail. -/
def Inline (set : Settings) (is : List Instr) (line : String) : Prop :=
  ∀ p q, perform set is p = { pass := q } →
    q.page.startLine set.indent = p.page.print set.indent line

theorem inline_nil (set : Settings) : Inline set [] "" := by
  intro p q hq
  rw [perform_nil] at hq
  cases hq
  exact p.page.startLine_eq_print set.indent

theorem inline_text (set : Settings) (value : String) : Inline set [.text value] value := by
  intro p q hq
  rw [perform_singleton] at hq
  cases hq
  exact Page.startLine_print set.indent value p.page

theorem inline_mark (set : Settings) (loc : Option Location) : Inline set (markAt loc) "" := by
  cases loc with
  | none => exact inline_nil set
  | some loc =>
    intro p q hq
    rw [markAt, perform_singleton, Instr.perform, Pass.mark_eq] at hq
    obtain rfl := (Outcome.mk.inj hq).1
    simp only [Page.startLine_eq_print, Page.print_print, String.append_empty]

theorem inline_problem (set : Settings) (what : Problem) (loc : Option Location) :
    Inline set [.problem what loc] "" := by
  intro p q hq
  rw [perform_singleton, Instr.perform, Pass.problem_eq] at hq
  split at hq
  · cases hq
  · cases hq
    exact p.page.startLine_eq_print set.indent

theorem inline_fail (set : Settings) (what : Failure) (line : String) :
    Inline set [.fail what] line := by
  intro p q hq
  rw [perform_singleton] at hq
  cases hq

theorem Inline.append {other : String} (h : Inline set is line) (hj : Inline set js other) :
    Inline set (is ++ js) (line ++ other) := by
  intro p r hr
  obtain ⟨q, hq, hr⟩ := perform_append_eq_pass.mp hr
  rw [hj q r hr, ← Page.print_startLine, h p q hq, Page.print_print]

theorem Inline.after (h : Inline set is line) (hj : Inline set js "") :
    Inline set (js ++ is) line := by
  have := hj.append h
  rwa [String.empty_append] at this

/-- A text at the start of a line is on the page. -/
theorem Inline.page_eq (h : Inline set is line) (hl : line ≠ "") (hp : p.page.column = 0)
    (hq : perform set is p = { pass := q }) : q.page = p.page.print set.indent line := by
  have hstart := h p q hq
  by_cases hc : q.page.column = 0
  · have hwidth : width line ≠ 0 := mt width_eq_zero.mp hl
    have hdepth := congrArg Page.depth hstart
    have hcolumn := congrArg Page.column hstart
    simp only [Page.print, Page.startLine, if_pos hc, if_pos hp] at hdepth hcolumn
    rw [hdepth] at hcolumn
    omega
  · rwa [Page.startLine, if_neg hc] at hstart

/-- Instructions print characters of some kind on a line. -/
def Within (set : Settings) (ok : Char → Bool) (is : List Instr) : Prop :=
  ∃ line, Inline set is line ∧ line.toList.all ok = true

namespace Within

variable {ok : Char → Bool}

theorem nil (set : Settings) (ok : Char → Bool) : Within set ok [] :=
  ⟨"", inline_nil set, by simp⟩

theorem text (set : Settings) (value : String) (h : value.toList.all ok = true) :
    Within set ok [.text value] :=
  ⟨value, inline_text set value, h⟩

theorem append (h : Within set ok is) (hj : Within set ok js) : Within set ok (is ++ js) := by
  obtain ⟨s, hs, hok⟩ := h
  obtain ⟨t, ht, hok'⟩ := hj
  refine ⟨s ++ t, hs.append ht, ?_⟩
  rw [String.toList_append, List.all_append, hok, hok', Bool.and_self]

theorem cons (value : String) (h : value.toList.all ok = true) (hi : Within set ok is) :
    Within set ok (.text value :: is) :=
  append (text set value h) hi

theorem separated {separator : List Instr} {items : List (List Instr)}
    (hs : Within set ok separator) (h : ∀ item ∈ items, Within set ok item) :
    Within set ok (separated separator items) := by
  induction items using CodePrinter.separated.induct with
  | case1 => exact nil set ok
  | case2 is => exact h is (by simp)
  | case3 is rest hrest ih =>
    rw [CodePrinter.separated]
    · refine ((h is (by simp)).append hs).append (ih fun item hm => h item ?_)
      exact List.mem_cons_of_mem is hm
    · exact hrest

theorem commaSeparated {items : List (List Instr)} (hs : (", ".toList.all ok) = true)
    (h : ∀ item ∈ items, Within set ok item) : Within set ok (commaSeparated items) :=
  separated (text set ", " hs) h

theorem inline (h : Within set isClean is) : Within set isInline is := by
  obtain ⟨s, hs, hok⟩ := h
  refine ⟨s, hs, List.all_eq_true.mpr fun c hc => ?_⟩
  have := List.all_eq_true.mp hok c hc
  simp_all [isClean, isInline]

end Within

/-- Instructions print characters of some kind on a line, and the first of them is no blank. -/
def Leads (set : Settings) (ok : Char → Bool) (is : List Instr) : Prop :=
  ∃ line, Inline set is line ∧ line.toList.all ok = true ∧
    ∃ c cs, line.toList = c :: cs ∧ isIndent c = false

theorem begins_of_head {cs : List Char} (h : cs.head?.any (!isIndent ·) = true) :
    ∃ c rest, cs = c :: rest ∧ isIndent c = false := by
  cases cs with
  | nil => simp at h
  | cons c rest => exact ⟨c, rest, rfl, by simpa using h⟩

namespace Leads

variable {ok : Char → Bool}

theorem text (set : Settings) (value : String) (hok : value.toList.all ok = true)
    (hc : value.toList.head?.any (!isIndent ·) = true) : Leads set ok [.text value] :=
  ⟨value, inline_text set value, hok, begins_of_head hc⟩

theorem after (h : Leads set ok is) (hj : Inline set js "") : Leads set ok (js ++ is) := by
  obtain ⟨line, hline, hrest⟩ := h
  exact ⟨line, hline.after hj, hrest⟩

theorem mark (h : Leads set ok is) (loc : Option Location) : Leads set ok (markAt loc ++ is) :=
  h.after (inline_mark set loc)

theorem append (h : Leads set ok is) (hj : Within set ok js) : Leads set ok (is ++ js) := by
  obtain ⟨line, hline, hok, c, cs, hcs, hc⟩ := h
  obtain ⟨more, hmore, hok'⟩ := hj
  refine ⟨line ++ more, hline.append hmore, ?_, c, cs ++ more.toList, ?_, hc⟩
  · rw [String.toList_append, List.all_append, hok, hok', Bool.and_self]
  · rw [String.toList_append, hcs, List.cons_append]

theorem within (h : Leads set ok is) : Within set ok is := by
  obtain ⟨line, hline, hok, -⟩ := h
  exact ⟨line, hline, hok⟩

end Leads

theorem within_textOr {r : Except Failure String}
    (h : (match r with | .ok path => path.toList.all isClean | .error _ => true) = true) :
    Within set isClean (textOr id r) := by
  cases r with
  | ok path => exact .text set path h
  | error what => exact ⟨"", inline_fail set what "", by simp⟩

open Outline (IsText)

/-- Instructions print a line that is a header, or one that is none. -/
def Tells (set : Settings) (is : List Instr) (header : Bool) : Prop :=
  ∃ line, Inline set is line ∧ IsText line.toList ∧ isHeader line.toList = header

theorem isText_of_all (h : line.toList.all isInline = true)
    (hc : ∃ c cs, line.toList = c :: cs ∧ isIndent c = false) : IsText line.toList := by
  refine ⟨?_, hc⟩
  intro hm
  have := List.all_eq_true.mp h _ hm
  contradiction

theorem tells_row (h : Leads set isClean is) : Tells set is false := by
  obtain ⟨line, hline, hok, hc⟩ := h
  have hclean (c : Char) (hm : c ∈ line.toList) : isInline c = true ∧ c ≠ ':' := by
    simpa [isClean, isInline] using List.all_eq_true.mp hok c hm
  refine ⟨line, hline, isText_of_all (List.all_eq_true.mpr fun c hm => (hclean c hm).1) hc, ?_⟩
  rw [isHeader, decide_eq_false_iff_not]
  exact fun hm => (hclean _ (List.mem_of_getLast? hm)).2 rfl

theorem tells_header (h : Leads set isInline is) : Tells set (is ++ [.text ":"]) true := by
  obtain ⟨line, hline, hok, c, cs, hcs, hc⟩ := h
  refine ⟨line ++ ":", hline.append (inline_text set ":"), isText_of_all ?_ ?_, ?_⟩
  · rw [String.toList_append, List.all_append, hok]
    rfl
  · exact ⟨c, cs ++ [':'], by rw [String.toList_append, hcs]; rfl, hc⟩
  · simp [isHeader]

/-- A header that is always the same. -/
theorem tells_keyword (set : Settings) (keyword : String)
    (hok : keyword.toList.all isInline = true)
    (hc : keyword.toList.head?.any (!isIndent ·) = true)
    (hh : isHeader keyword.toList = true) : Tells set [.text keyword] true :=
  ⟨keyword, inline_text set keyword, isText_of_all hok (begins_of_head hc), hh⟩

theorem Tells.mark {header : Bool} (h : Tells set is header) (loc : Option Location) :
    Tells set (markAt loc ++ is) header := by
  obtain ⟨line, hline, hrest⟩ := h
  exact ⟨line, hline.after (inline_mark set loc), hrest⟩

/-! Whole lines. -/

/-- From the start of a line, instructions print the lines of an outline if they do not fail. -/
def Rows (set : Settings) (is : List Instr) (o : Outline) : Prop :=
  ∀ p q, p.page.column = 0 → perform set is p = { pass := q } →
    q.page.column = 0 ∧ q.page.depth = p.page.depth ∧
      q.page.pending = p.page.pending ++ o.render set.indent p.page.depth

theorem Rows.append {a b : Outline} (h : Rows set is a) (hj : Rows set js b) :
    Rows set (is ++ js) (a.append b) := by
  intro p r hp hr
  obtain ⟨q, hq, hr⟩ := perform_append_eq_pass.mp hr
  obtain ⟨hcolumn, hdepth, hpending⟩ := h p q hp hq
  obtain ⟨hcolumn', hdepth', hpending'⟩ := hj q r hcolumn hr
  refine ⟨hcolumn', hdepth'.trans hdepth, ?_⟩
  rw [hpending', hpending, hdepth, String.append_assoc, Outline.render_append]

theorem rows_nil (set : Settings) : Rows set [] .done := by
  intro p q hp hq
  rw [perform_nil] at hq
  cases hq
  exact ⟨hp, rfl, by simp [Outline.render, Outline.lines]⟩

theorem rows_endLine (set : Settings) : Rows set [.endLine] .done := by
  intro p q hp hq
  rw [perform_singleton, Instr.perform, Pass.onPage, Page.endLine, if_pos hp] at hq
  cases hq
  exact ⟨hp, rfl, by simp [Outline.render, Outline.lines]⟩

/-- A location by itself is printed as indentation, where there is any. -/
theorem rows_gap (hne : set.indent ≠ "") (loc : Location) :
    Rows set ([.mark loc] ++ [.endLine]) (.gap .done) := by
  intro p r hp hr
  obtain ⟨q, hq, hr⟩ := perform_append_eq_pass.mp hr
  rw [perform_singleton, Instr.perform, Pass.mark_eq] at hq
  obtain rfl := (Outcome.mk.inj hq).1
  rw [perform_singleton] at hr
  obtain rfl := (Outcome.mk.inj hr).1
  simp only [Page.startLine, if_pos hp, Page.endLine, width_eq_zero]
  by_cases hd : p.page.depth = 0
  · simp [hd, Outline.render, Outline.lines, Page.indentation]
  · have hmargin := Outline.indentation_ne_empty hne hd
    simp [hd, hmargin, Outline.render, Outline.lines, Outline.margin, Page.newline,
      String.append_assoc]

/-- A line of text. -/
theorem rows_line (h : Inline set is line) (ht : IsText line.toList) {last : Instr}
    (hl : last = .newline ∨ last = .endLine) :
    Rows set (is ++ [last]) (.row line.toList .done) := by
  intro p r hp hr
  obtain ⟨q, hq, hr⟩ := perform_append_eq_pass.mp hr
  obtain ⟨c, cs, hcs, -⟩ := ht.begins
  have hne : line ≠ "" := by
    rintro rfl
    cases hcs
  have hpage := h.page_eq hne hp hq
  have hcolumn : q.page.column ≠ 0 := by
    have hwidth : width line ≠ 0 := mt width_eq_zero.mp hne
    rw [hpage, Page.print]
    simp only
    omega
  obtain rfl : { q with page := q.page.newline } = r := by
    rw [perform_singleton] at hr
    rcases hl with rfl | rfl
    · exact (Outcome.mk.inj hr).1
    · rw [Instr.perform, Pass.onPage, Page.endLine, if_neg hcolumn] at hr
      exact (Outcome.mk.inj hr).1
  refine ⟨rfl, ?_, ?_⟩
  · rw [hpage]
    exact p.page.depth_print set.indent line
  · simp [hpage, Page.newline, Page.print, Page.startLine, hp, Outline.render, Outline.lines,
      Outline.margin, String.append_assoc]

/-- A header and its suite. -/
theorem rows_suite {o : Outline} (h : Inline set is line) (ht : IsText line.toList)
    (hb : Rows set js o) :
    Rows set (is ++ suite js) (.suite line.toList o false .done) := by
  intro p r hp hr
  have hsuite : is ++ suite js = (is ++ [.newline]) ++ ([.indent] ++ (js ++ [.dedent])) := by
    simp [suite]
  rw [hsuite] at hr
  obtain ⟨q, hq, hr⟩ := perform_append_eq_pass.mp hr
  obtain ⟨hcolumn, hdepth, hpending⟩ := rows_line h ht (.inl rfl) p q hp hq
  obtain ⟨deeper, hd, hr⟩ := perform_append_eq_pass.mp hr
  rw [perform_singleton] at hd
  obtain rfl := (Outcome.mk.inj hd).1
  obtain ⟨last, hlast, hr⟩ := perform_append_eq_pass.mp hr
  obtain ⟨hcolumn', hdepth', hpending'⟩ := hb { q with page := q.page.indent } last hcolumn hlast
  rw [perform_singleton] at hr
  obtain rfl := (Outcome.mk.inj hr).1
  simp only [Page.indent] at hdepth' hpending'
  refine ⟨hcolumn', ?_, ?_⟩
  · simp only [Page.dedent]
    omega
  · simp [Page.dedent, hpending', hpending, hdepth, Outline.render, Outline.lines,
      String.append_assoc]

/-- A header and its suite, before an empty line. -/
theorem rows_block {o : Outline} (h : Inline set is line) (ht : IsText line.toList)
    (hb : Rows set js o) :
    Rows set (is ++ block js) (.suite line.toList o true .done) := by
  intro p r hp hr
  have hblock : is ++ block js = (is ++ [.text ""]) ++ suite js ++ [.newline] := by
    simp [block]
  have hheader := h.append (inline_text set "")
  rw [String.append_empty] at hheader
  rw [hblock] at hr
  obtain ⟨q, hq, hr⟩ := perform_append_eq_pass.mp hr
  obtain ⟨hcolumn, hdepth, hpending⟩ := rows_suite hheader ht hb p q hp hq
  rw [perform_singleton] at hr
  obtain rfl := (Outcome.mk.inj hr).1
  refine ⟨rfl, hdepth, ?_⟩
  simp [Page.newline, hpending, Outline.render, Outline.lines, String.append_assoc]

/-- Instructions print the lines of an outline. It is known whether there is a line that is no gap,
and whether every suite has such a line. -/
def Outlined (set : Settings) (is : List Instr) (opens filled : Bool) : Prop :=
  ∃ o : Outline, Rows set is o ∧ o.WellFormed ∧ o.opens = opens ∧ o.isFilled = filled

namespace Outlined

variable {a b f g : Bool}

theorem nil (set : Settings) : Outlined set [] false true :=
  ⟨.done, rows_nil set, trivial, rfl, rfl⟩

theorem append (h : Outlined set is a f) (hj : Outlined set js b g) :
    Outlined set (is ++ js) (a || b) (f && g) := by
  obtain ⟨o, ho, hwf, rfl, rfl⟩ := h
  obtain ⟨o', ho', hwf', rfl, rfl⟩ := hj
  exact ⟨o.append o', ho.append ho', hwf.append hwf', o.opens_append o', o.isFilled_append o'⟩

theorem endLine (h : Outlined set is a f) : Outlined set (is ++ [.endLine]) a f := by
  have := h.append ⟨.done, rows_endLine set, trivial, rfl, rfl⟩
  simpa [Outline.opens, Outline.isFilled] using this

theorem gap (hne : set.indent ≠ "") (loc : Option Location) :
    Outlined set (markAt loc ++ [.endLine]) false true := by
  cases loc with
  | none => exact (nil set).endLine
  | some loc => exact ⟨.gap .done, rows_gap hne loc, trivial, rfl, rfl⟩

theorem row {last : Instr} (hl : last = .newline ∨ last = .endLine) (h : Leads set isClean is) :
    Outlined set (is ++ [last]) true true := by
  obtain ⟨line, hline, ht, hh⟩ := tells_row h
  exact ⟨.row line.toList .done, rows_line hline ht hl, ⟨ht, hh, trivial⟩, rfl, rfl⟩

theorem suite (h : Tells set is true) (hb : Outlined set js a f) :
    Outlined set (is ++ suite js) true (a && f) := by
  obtain ⟨line, hline, ht, hh⟩ := h
  obtain ⟨o, ho, hwf, rfl, rfl⟩ := hb
  refine ⟨.suite line.toList o false .done, rows_suite hline ht ho, ⟨ht, hh, hwf, trivial⟩, rfl, ?_⟩
  simp [Outline.isFilled]

theorem block (h : Tells set is true) (hb : Outlined set js a f) :
    Outlined set (is ++ block js) true (a && f) := by
  obtain ⟨line, hline, ht, hh⟩ := h
  obtain ⟨o, ho, hwf, rfl, rfl⟩ := hb
  refine ⟨.suite line.toList o true .done, rows_block hline ht ho, ⟨ht, hh, hwf, trivial⟩, rfl, ?_⟩
  simp [Outline.isFilled]

end Outlined

end CodePrinter
