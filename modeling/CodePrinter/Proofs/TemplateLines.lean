import CodePrinter.Template.Part
import CodePrinter.Text.Lines
import Mathlib.Data.List.Infix
import Mathlib.Data.List.TakeWhile

/-! The lines of templates.

Main statement: references do not reach over line breaks, so that a template has the same lines
whether it is cut at its references first or into lines first (`tokenLines_scan`). -/
namespace CodePrinter.Template

def Token.isBlank : Token Nat → Bool
  | .char c => Text.isBlank c
  | .hit _ => false

def Token.isHit : Token Nat → Bool
  | .char _ => false
  | .hit _ => true

/-- The line ends with a reference. -/
def endsWithHit (line : List (Token Nat)) : Bool := line.getLast?.any Token.isHit

/-- Lines, the first of them begun already. One that ends with a reference goes on with the next. -/
def continued (line : List (Token Nat)) : List (List (Token Nat)) → List (List (Token Nat))
  | [] => [line]
  | next :: lines =>
    if endsWithHit line then continued (line ++ next) lines else line :: continued next lines

/-- What stands for some tokens if every reference is replaced by a text. -/
def fillText (text : Nat → String) (ts : List (Token Nat)) : String :=
  String.ofList (replace (fun index => (text index).toList) ts)

/-- The text of a line, without the white space that it begins with. -/
def lineText (text : Nat → String) (line : List (Token Nat)) : String :=
  fillText text (line.dropWhile Token.isBlank)

/-- The texts of the lines that have one. -/
def textLines (text : Nat → String) (lines : List (List (Token Nat))) : List String :=
  (lines.map (lineText text)).filter (· ≠ "")

section Text

variable {text : Nat → String} {a b line : List (Token Nat)} {cs : List Char}

theorem replace_append {α : Type} (f : α → List Char) (a b : List (Token α)) :
    replace f (a ++ b) = replace f a ++ replace f b := by
  induction a with
  | nil => rfl
  | cons t a ih => cases t <;> simp [replace, ih]

theorem replace_chars {α : Type} (f : α → List Char) (cs : List Char) :
    replace f (cs.map .char) = cs := by
  induction cs with
  | nil => rfl
  | cons c cs ih => simp [replace, ih]

theorem hits_append {α : Type} (a b : List (Token α)) : hits (a ++ b) = hits a ++ hits b := by
  induction a with
  | nil => rfl
  | cons t a ih => cases t <;> simp [hits, ih]

theorem hits_chars {α : Type} (cs : List Char) : hits (cs.map (Token.char (α := α))) = [] := by
  induction cs with
  | nil => rfl
  | cons c cs ih => exact ih

theorem fillText_append (a b : List (Token Nat)) :
    fillText text (a ++ b) = fillText text a ++ fillText text b := by
  simp [fillText, replace_append]

theorem fillText_chars (cs : List Char) : fillText text (cs.map .char) = String.ofList cs := by
  rw [fillText, replace_chars]

theorem fillText_hit (index : Nat) : fillText text [.hit index] = text index := by
  simp [fillText, replace]

theorem fillText_cons_ne (htext : ∀ index, text index ≠ "") (t : Token Nat) :
    fillText text (t :: line) ≠ "" := by
  have hne : ∀ index, (text index).toList ≠ [] := fun index h =>
    htext index (String.toList_inj.mp (by rw [h]; rfl))
  intro h
  have hnil := congrArg String.toList h
  cases t with
  | char c => simp [fillText, replace] at hnil
  | hit index => simp [fillText, replace, hne] at hnil

theorem lineText_eq_empty (htext : ∀ index, text index ≠ "") :
    lineText text line = "" ↔ ∀ t ∈ line, t.isBlank = true := by
  unfold lineText
  constructor
  · intro h
    cases hd : line.dropWhile Token.isBlank with
    | nil => exact List.dropWhile_eq_nil_iff.mp hd
    | cons t rest =>
      rw [hd] at h
      exact absurd h (fillText_cons_ne htext t)
  · intro h
    rw [List.dropWhile_eq_nil_iff.mpr h]
    rfl

/-- Before the first text of a line white space is dropped, after it everything counts. -/
theorem lineText_append (htext : ∀ index, text index ≠ "") (a b : List (Token Nat)) :
    lineText text (a ++ b) =
      if lineText text a = "" then lineText text b else lineText text a ++ fillText text b := by
  split
  · rename_i h
    have hblank := (lineText_eq_empty htext).mp h
    rw [lineText, List.dropWhile_append, List.dropWhile_eq_nil_iff.mpr hblank]
    rfl
  · rename_i h
    have hne : (a.dropWhile Token.isBlank).isEmpty = false := by
      cases hd : a.dropWhile Token.isBlank with
      | nil => exact absurd (by rw [lineText, hd]; rfl) h
      | cons t rest => rfl
    rw [lineText, List.dropWhile_append, hne, if_neg (by simp), fillText_append]
    rfl

theorem lineText_chars (cs : List Char) :
    lineText text (cs.map .char) = String.ofList (Text.trimStart cs) := by
  have hblank : Token.isBlank ∘ Token.char = Text.isBlank := rfl
  rw [lineText, List.dropWhile_map, hblank, fillText_chars]
  rfl

theorem lineText_of_endsWithHit (htext : ∀ index, text index ≠ "") (h : endsWithHit line = true) :
    lineText text line ≠ "" := by
  intro he
  unfold endsWithHit at h
  cases hl : line.getLast? with
  | none => simp [hl] at h
  | some t =>
    have hblank := (lineText_eq_empty htext).mp he t (List.mem_of_getLast? hl)
    cases t with
    | char c => simp [hl, Token.isHit] at h
    | hit index => cases hblank

theorem endsWithHit_append_chars (hc : cs ≠ []) : endsWithHit (a ++ cs.map .char) = false := by
  obtain ⟨ds, d, rfl⟩ := List.eq_nil_or_concat cs |>.resolve_left hc
  simp [endsWithHit, Token.isHit]

end Text

/-- Puts lists of lines one after the other; the last of the first goes on with the first of the
second. -/
def joinLines {α : Type} : List (List α) → List (List α) → List (List α)
  | [], lines => lines
  | [line], next :: lines => (line ++ next) :: lines
  | [line], [] => [line]
  | line :: lines, more => line :: joinLines lines more

/-- Lines that go on from one that is begun. -/
def continuing (line : List (Token Nat)) : List (List (Token Nat)) → List (List (Token Nat))
  | [] => [line]
  | next :: lines => continued (line ++ next) lines

/-- Nothing stands on the line, or it ends with a reference. -/
def Open (line : List (Token Nat)) : Prop := line = [] ∨ endsWithHit line = true

/-- The lines of tokens. -/
def tokenLines : List (Token Nat) → List (List (Token Nat))
  | [] => [[]]
  | .char '\n' :: ts => [] :: tokenLines ts
  | .char '\r' :: .char '\n' :: ts => [] :: tokenLines ts
  | t :: ts => joinLines [[t]] (tokenLines ts)

theorem tokenLines_ne_nil (ts : List (Token Nat)) : tokenLines ts ≠ [] := by
  fun_induction tokenLines ts with
  | case1 | case2 | case3 => simp
  | case4 t ts _ _ ih =>
    obtain ⟨line, lines, h⟩ := List.exists_cons_of_ne_nil ih
    simp [h, joinLines]

theorem joinLines_cons {α : Type} {line : List α} {lines more : List (List α)} (h : lines ≠ []) :
    joinLines (line :: lines) more = line :: joinLines lines more := by
  obtain ⟨next, rest, rfl⟩ := List.exists_cons_of_ne_nil h
  rfl

theorem joinLines_append {α : Type} {a line : List α} {lines more : List (List α)}
    (hm : more ≠ []) :
    joinLines ((a ++ line) :: lines) more = joinLines [a] (joinLines (line :: lines) more) := by
  obtain ⟨next, rest, rfl⟩ := List.exists_cons_of_ne_nil hm
  cases lines with
  | nil => simp [joinLines]
  | cons other lines => rfl

theorem tokenLines_of_not_break {t : Token Nat} {ts : List (Token Nat)} (hn : t ≠ .char '\n')
    (hr : ∀ us, t = .char '\r' → ts ≠ .char '\n' :: us) :
    tokenLines (t :: ts) = joinLines [[t]] (tokenLines ts) := by
  rw [tokenLines]
  · exact hn
  · intro us ht hts
    exact hr us ht hts

/-- The lines of a text with references after it. -/
theorem tokenLines_chars_append (ts : List (Token Nat)) (hts : ∀ us, ts ≠ .char '\n' :: us)
    (cs : List Char) :
    tokenLines (cs.map .char ++ ts) =
      joinLines ((Text.splitLines cs).map (·.map .char)) (tokenLines ts) := by
  fun_induction Text.splitLines cs with
  | case1 =>
    obtain ⟨line, lines, h⟩ := List.exists_cons_of_ne_nil (tokenLines_ne_nil ts)
    simp [h, joinLines]
  | case2 cs ih =>
    rw [List.map_cons, List.cons_append, tokenLines, ih, List.map_cons, joinLines_cons]
    · rfl
    · simpa using Text.splitLines_ne_nil cs
  | case3 cs ih =>
    rw [List.map_cons, List.map_cons, List.cons_append, List.cons_append, tokenLines, ih,
      List.map_cons, joinLines_cons]
    · rfl
    · simpa using Text.splitLines_ne_nil cs
  | case4 c cs _ _ h => exact absurd h (Text.splitLines_ne_nil cs)
  | case5 c cs hn hr line lines h ih =>
    rw [List.map_cons, List.cons_append, tokenLines_of_not_break, ih, h]
    · exact (joinLines_append (a := [Token.char c]) (tokenLines_ne_nil ts)).symm
    · intro hc
      exact hn (Token.char.inj hc)
    · intro us hc hus
      cases cs with
      | nil => exact hts us hus
      | cons d ds =>
        obtain ⟨hd, -⟩ := List.cons.inj hus
        exact hr ds (Token.char.inj hc) (by rw [Token.char.inj hd])

theorem splitLines_cons {c : Char} {cs : List Char} (hn : c ≠ '\n')
    (hr : ∀ ds, c = '\r' → cs ≠ '\n' :: ds) :
    Text.splitLines (c :: cs) = joinLines [[c]] (Text.splitLines cs) := by
  obtain ⟨line, lines, h⟩ := List.exists_cons_of_ne_nil (Text.splitLines_ne_nil cs)
  rw [Text.splitLines]
  · simp [h, joinLines]
  · exact hn
  · intro ds hc hds
    exact hr ds hc hds

theorem splitLines_append {ds : List Char} (hds : ∀ d ∈ ds, d ≠ '\n' ∧ d ≠ '\r') (cs : List Char) :
    Text.splitLines (ds ++ cs) = joinLines [ds] (Text.splitLines cs) := by
  obtain ⟨line, lines, h⟩ := List.exists_cons_of_ne_nil (Text.splitLines_ne_nil cs)
  induction ds with
  | nil => simp [h, joinLines]
  | cons d ds ih =>
    have hd := hds d (by simp)
    rw [List.cons_append, splitLines_cons hd.1 fun _ he => absurd he hd.2,
      ih fun x hx => hds x (List.mem_cons_of_mem d hx), h]
    rfl

/-- A first line that is not empty begins like the text. -/
theorem head?_of_splitLines {cs line : List Char} {lines : List (List Char)} {d : Char}
    (h : Text.splitLines cs = line :: lines) (hd : line.head? = some d) : cs.head? = some d := by
  fun_cases Text.splitLines cs with
  | case1 | case2 cs | case3 cs =>
    rw [Text.splitLines] at h
    cases h
    cases hd
  | case4 c cs hn hr he => exact absurd he (Text.splitLines_ne_nil cs)
  | case5 c cs hn hr first rest he =>
    rw [splitLines_cons hn fun ds hc hds => hr ds hc hds, he] at h
    cases h
    exact hd

/-- No digit comes first. -/
def NoDigit (cs : List Char) : Prop := ∀ d, cs.head? = some d → Decimal.isDigit d = false

theorem takeWhile_of_noDigit {cs : List Char} (h : NoDigit cs) :
    cs.takeWhile Decimal.isDigit = [] := by
  cases cs with
  | nil => rfl
  | cons d cs => simp [h d rfl]

theorem noDigit_dropWhile (cs : List Char) : NoDigit (cs.dropWhile Decimal.isDigit) := by
  intro d hd
  have hnot := List.head?_dropWhile_not Decimal.isDigit cs
  rw [hd] at hnot
  simpa using hnot

/-- The first line of a text begins with a digit only if the text does. -/
theorem NoDigit.line {cs line : List Char} {lines : List (List Char)} (h : NoDigit cs)
    (hl : Text.splitLines cs = line :: lines) : NoDigit line :=
  fun d hd => h d (head?_of_splitLines hl hd)

theorem reference?_cons {c : Char} {cs : List Char} (h : c ≠ '$') :
    reference? (c :: cs) = none := by
  rw [reference?]
  intro ds hds
  exact h (List.cons.inj hds).1

theorem reference?_digits {ds cs : List Char} (hne : ds ≠ [])
    (hds : ∀ d ∈ ds, Decimal.isDigit d = true)
    (hcs : NoDigit cs) : reference? ('$' :: (ds ++ cs)) = some (Decimal.ofDigits ds, cs) := by
  have htake : (ds ++ cs).takeWhile Decimal.isDigit = ds := by
    rw [List.takeWhile_append_of_pos hds, takeWhile_of_noDigit hcs, List.append_nil]
  have hdrop : (ds ++ cs).dropWhile Decimal.isDigit = cs := by
    have hall := List.takeWhile_append_dropWhile (p := Decimal.isDigit) (l := ds ++ cs)
    rw [htake] at hall
    exact List.append_cancel_left hall
  simp [reference?, htake, hdrop, hne]

/-- A character begins a reference, or it does not in any text that goes on like this one. -/
theorem reference?_cases (c : Char) (cs : List Char) :
    (∃ ds rest, c = '$' ∧ ds ≠ [] ∧ (∀ d ∈ ds, Decimal.isDigit d = true) ∧ cs = ds ++ rest ∧
      NoDigit rest) ∨ c ≠ '$' ∨ NoDigit cs := by
  by_cases hc : c = '$'
  · by_cases hds : cs.takeWhile Decimal.isDigit = []
    · refine .inr (.inr ?_)
      have hall := List.takeWhile_append_dropWhile (p := Decimal.isDigit) (l := cs)
      rw [hds, List.nil_append] at hall
      rw [← hall]
      exact noDigit_dropWhile cs
    · exact .inl ⟨_, _, hc, hds, fun d hd => List.all_eq_true.mp List.all_takeWhile d hd,
        List.takeWhile_append_dropWhile.symm, noDigit_dropWhile cs⟩
  · exact .inr (.inl hc)

theorem reference?_eq_none {c : Char} {cs : List Char} (h : c ≠ '$' ∨ NoDigit cs) :
    reference? (c :: cs) = none := by
  by_cases hc : c = '$'
  · subst hc
    simp [reference?, takeWhile_of_noDigit (h.resolve_left (by simp))]
  · exact reference?_cons hc

theorem isDigit_not_break {d : Char} (h : Decimal.isDigit d = true) : d ≠ '\n' ∧ d ≠ '\r' := by
  constructor <;> rintro rfl <;> exact absurd h (by decide)

theorem scan_eq_char {cs : List Char} {d : Char} {us : List (Token Nat)}
    (h : scan reference? cs = .char d :: us) : cs = d :: cs.tail := by
  cases cs with
  | nil => cases h
  | cons c cs =>
    rcases reference?_cases c cs with ⟨ds, tail, rfl, hne, hds, rfl, htail⟩ | hplain
    · rw [scan_hit _ (reference?_digits hne hds htail)] at h
      cases h
    · rw [scan_char _ (reference?_eq_none hplain)] at h
      cases h
      rfl

/-- References do not reach over line breaks. -/
theorem tokenLines_scan (cs : List Char) :
    tokenLines (scan reference? cs) = (Text.splitLines cs).map (scan reference?) := by
  induction hn : cs.length using Nat.strong_induction_on generalizing cs with
  | h n ih =>
    subst hn
    fun_cases Text.splitLines cs with
    | case1 => rfl
    | case2 cs =>
      rw [scan_char _ (reference?_cons (by decide)), tokenLines, ih cs.length (by simp) cs rfl]
      rfl
    | case3 cs =>
      rw [scan_char _ (reference?_cons (by decide)), scan_char _ (reference?_cons (by decide)),
        tokenLines, ih cs.length (by simp only [List.length_cons]; omega) cs rfl]
      rfl
    | case4 c cs _ _ h => exact absurd h (Text.splitLines_ne_nil cs)
    | case5 c cs hn hr first rest hsplit =>
      rcases reference?_cases c cs with ⟨ds, tail, rfl, hne, hds, rfl, htail⟩ | hplain
      · obtain ⟨line, lines, hl⟩ := List.exists_cons_of_ne_nil (Text.splitLines_ne_nil tail)
        have hlines := splitLines_append (fun d hd => isDigit_not_break (hds d hd)) tail
        rw [hsplit, hl] at hlines
        cases hlines
        rw [scan_hit _ (reference?_digits hne hds htail), List.map_cons,
          scan_hit _ (reference?_digits hne hds (htail.line hl)),
          tokenLines_of_not_break (by simp) (by simp), ih tail.length _ tail rfl, hl]
        · rfl
        · simp only [List.length_cons, List.length_append]
          omega
      · have hline : c ≠ '$' ∨ NoDigit first := hplain.imp_right fun h => h.line hsplit
        rw [scan_char _ (reference?_eq_none hplain), tokenLines_of_not_break,
          ih cs.length (by simp) cs rfl, hsplit]
        · simp [joinLines, scan_char _ (reference?_eq_none hline)]
        · intro he
          exact hn (Token.char.inj he)
        · intro us hc hus
          exact hr _ (Token.char.inj hc) (scan_eq_char hus)

/-! Templates without macros. -/

theorem scan_of_none {α : Type} {read : List Char → Option (α × List Char)} {cs : List Char}
    (h : ∀ s, s <:+ cs → read s = none) : scan read cs = cs.map .char := by
  induction cs with
  | nil => rfl
  | cons c cs ih =>
    rw [scan_char read (h _ List.suffix_rfl), List.map_cons,
      ih fun s hs => h s (hs.trans (List.suffix_cons c cs))]

/-- Nothing but references is replaced in a template. -/
structure Plain (template : String) : Prop where
  spreads : ∀ cs, cs <:+ template.toList → spread? cs = none
  groups : ¬ openBraces <:+: template.toList

namespace Plain

variable {template : String}

theorem iff_tails : Plain template ↔
    ∀ cs ∈ template.toList.tails, spread? cs = none ∧ openBraces.isPrefixOf cs = false := by
  constructor
  · intro h cs hc
    rw [List.mem_tails] at hc
    refine ⟨h.spreads cs hc, Bool.eq_false_iff.mpr fun hp => h.groups ?_⟩
    exact (List.isPrefixOf_iff_prefix.mp hp).isInfix.trans hc.isInfix
  · intro h
    refine ⟨fun cs hc => (h cs (List.mem_tails cs _ |>.mpr hc)).1, fun hi => ?_⟩
    obtain ⟨cs, hp, hs⟩ := List.infix_iff_prefix_suffix.mp hi
    have hnot := (h cs (List.mem_tails cs _ |>.mpr hs)).2
    rw [List.isPrefixOf_iff_prefix.mpr hp] at hnot
    cases hnot

instance : Decidable (Plain template) := decidable_of_iff _ iff_tails.symm

theorem not_openBraces (h : Plain template) {cs : List Char} (hs : cs <:+ template.toList) :
    openBraces.isPrefixOf cs = false :=
  (iff_tails.mp h cs ((List.mem_tails cs _).mpr hs)).2

theorem scan_spreads (h : Plain template) :
    scan spread? template.toList = template.toList.map .char :=
  scan_of_none h.spreads

theorem scan_choices (h : Plain template) :
    scan choice? template.toList = template.toList.map .char := by
  refine scan_of_none fun cs hs => ?_
  rw [choice?, h.not_openBraces hs]
  rfl

theorem scan_groups (h : Plain template) :
    scan group? template.toList = template.toList.map .char := by
  refine scan_of_none fun cs hs => ?_
  rw [group?, h.not_openBraces hs]
  rfl

theorem expandSpreads_eq (h : Plain template) (count : Nat) :
    expandSpreads count template.toList = template.toList := by
  rw [expandSpreads, h.scan_spreads, replace_chars]

theorem expand_eq (h : Plain template) (count : Nat) (isConstant : Nat → Bool) :
    expand count isConstant template = template := by
  rw [expand, h.expandSpreads_eq, expandChoices, h.scan_choices, replace_chars, expandGroups,
    h.scan_groups, replace_chars, String.ofList_toList]

theorem choiceIndices_eq (h : Plain template) (count : Nat) :
    choiceIndices (expandSpreads count template.toList) = [] := by
  rw [h.expandSpreads_eq, choiceIndices, h.scan_choices, hits_chars]
  rfl

end Plain

/-! Lines by themselves. -/

/-- Reading references and dropping the white space that a line begins with can be done in any
order. -/
theorem scan_trimStart (line : List Char) :
    scan reference? (Text.trimStart line) = (scan reference? line).dropWhile Token.isBlank := by
  induction line with
  | nil => rfl
  | cons c cs ih =>
    by_cases hblank : Text.isBlank c = true
    · have hc : c ≠ '$' := by
        rintro rfl
        exact absurd hblank (by decide)
      have htrim : Text.trimStart (c :: cs) = Text.trimStart cs := by simp [Text.trimStart, hblank]
      rw [htrim, ih, scan_char _ (reference?_cons hc), List.dropWhile_cons,
        if_pos (by exact hblank)]
    · have htrim : Text.trimStart (c :: cs) = c :: cs := by simp [Text.trimStart, hblank]
      rw [htrim]
      rcases reference?_cases c cs with ⟨ds, tail, rfl, hne, hds, rfl, htail⟩ | hplain
      · rw [scan_hit _ (reference?_digits hne hds htail)]
        rfl
      · rw [scan_char _ (reference?_eq_none hplain), List.dropWhile_cons, if_neg (by exact hblank)]

theorem scan_eq_nil {cs : List Char} (h : scan reference? cs = []) : cs = [] := by
  cases cs with
  | nil => rfl
  | cons c cs =>
    rcases reference?_cases c cs with ⟨ds, tail, rfl, hne, hds, rfl, htail⟩ | hplain
    · rw [scan_hit _ (reference?_digits hne hds htail)] at h
      cases h
    · rw [scan_char _ (reference?_eq_none hplain)] at h
      cases h

/-- The lines of a template, where one that ends with a reference goes on with the next one. -/
def printedLines (text : Nat → String) (template : String) : List String :=
  textLines text (continuing [] ((Text.splitLines template.toList).map (scan reference?)))

/-- A line that does not end with a reference, or that is the last one, is by itself. -/
theorem continued_eq {line : List (Token Nat)} {lines : List (List (Token Nat))}
    (h : ∀ l ∈ (line :: lines).dropLast, endsWithHit l = false) :
    continued line lines = line :: lines := by
  induction lines generalizing line with
  | nil => rfl
  | cons next lines ih =>
    rw [List.dropLast_cons_cons] at h
    rw [continued, if_neg (by simp [h line (by simp)]),
      ih fun l hl => h l (List.mem_cons_of_mem _ hl)]

/-- If no line goes on with the next one, those that are not blank are printed, each without the
white space it begins with. -/
theorem printedLines_eq {text : Nat → String} {template : String} (htext : ∀ index, text index ≠ "")
    (h : ∀ line ∈ (Text.splitLines template.toList).dropLast,
      endsWithHit (scan reference? line) = false) :
    printedLines text template =
      ((Text.splitLines template.toList).filter fun line => !line.all Text.isBlank).map
        fun line => fillText text (scan reference? (Text.trimStart line)) := by
  obtain ⟨first, rest, hs⟩ := List.exists_cons_of_ne_nil (Text.splitLines_ne_nil template.toList)
  have hcontinuing : continuing [] ((first :: rest).map (scan reference?)) =
      (first :: rest).map (scan reference?) := by
    refine continued_eq fun l hl => ?_
    rw [List.nil_append, ← List.map_cons, ← List.map_dropLast] at hl
    obtain ⟨line, hm, rfl⟩ := List.mem_map.mp hl
    exact h line (by rwa [hs])
  have hblank (line : List Char) :
      fillText text (scan reference? (Text.trimStart line)) = "" ↔
        line.all Text.isBlank = true := by
    rw [List.all_eq_true, ← List.dropWhile_eq_nil_iff]
    constructor
    · intro he
      cases hscan : scan reference? (Text.trimStart line) with
      | nil => exact scan_eq_nil hscan
      | cons t ts =>
        rw [hscan] at he
        exact absurd he (fillText_cons_ne htext t)
    · intro he
      rw [Text.trimStart, he]
      rfl
  rw [printedLines, hs, hcontinuing, textLines, List.map_map, List.filter_map]
  have hline : lineText text ∘ scan reference? =
      fun line => fillText text (scan reference? (Text.trimStart line)) := by
    funext line
    rw [Function.comp_apply, lineText, scan_trimStart]
  rw [hline]
  congr 1
  refine List.filter_congr fun line _ => ?_
  have hiff := hblank line
  cases hall : line.all Text.isBlank <;> rw [hall] at hiff <;> simp [hiff]

end CodePrinter.Template
