import CodePrinter.Proofs.Python.Spelling
import CodePrinter.Proofs.TemplateLines

/-! What the patterns of macros read.

Main statements: a choice is read up to its first closing braces, a text in braces without a
question mark is no choice (`choice?_choice`, `choice?_group`), and the last reference in braces
decides what becomes of them (`expandGroups_braced`). -/
namespace CodePrinter.Template

/-- The number in a reference, as it is written. -/
structure Numeral where
  digits : List Char
  ne_nil : digits ≠ []
  isDigit : ∀ d ∈ digits, Decimal.isDigit d = true

def Numeral.value (n : Numeral) : Nat := Decimal.ofDigits n.digits

section Scanning

variable {α : Type} {read : List Char → Option (α × List Char)} {x : Char} {cs rest : List Char}

/-- Nothing is found where the character is missing that every occurrence begins with. -/
theorem scan_plain (hread : ∀ c cs, c ≠ x → read (c :: cs) = none) (hcs : ∀ c ∈ cs, c ≠ x)
    (rest : List Char) : scan read (cs ++ rest) = cs.map .char ++ scan read rest := by
  induction cs with
  | nil => rfl
  | cons c cs ih =>
    rw [List.cons_append, scan_char read (hread c _ (hcs c (by simp))),
      ih fun d hd => hcs d (List.mem_cons_of_mem c hd)]
    rfl

theorem replace_plain (f : α → List Char) (hread : ∀ c cs, c ≠ x → read (c :: cs) = none)
    (hcs : ∀ c ∈ cs, c ≠ x) (rest : List Char) :
    replace f (scan read (cs ++ rest)) = cs ++ replace f (scan read rest) := by
  rw [scan_plain hread hcs, replace_append, replace_chars]

theorem replace_none (f : α → List Char) {c : Char} (h : read (c :: cs) = none) :
    replace f (scan read (c :: cs)) = c :: replace f (scan read cs) := by
  rw [scan_char read h, replace]

theorem replace_hit (f : α → List Char) {value : α} (hne : cs ≠ [])
    (h : read (cs ++ rest) = some (value, rest)) :
    replace f (scan read (cs ++ rest)) = f value ++ replace f (scan read rest) := by
  obtain ⟨c, cs, rfl⟩ := List.exists_cons_of_ne_nil hne
  rw [List.cons_append, scan_hit read h, replace]

end Scanning

variable {count : Nat} {isConstant : Nat → Bool} {cs rest : List Char}

theorem ne_of_isDigit {c d : Char} (h : Decimal.isDigit c = true) (hd : Decimal.isDigit d = false) :
    c ≠ d := by
  rintro rfl
  rw [h] at hd
  cases hd

theorem Numeral.reference? (n : Numeral) {rest : List Char} (h : NoDigit rest) :
    Template.reference? ('$' :: (n.digits ++ rest)) = some (n.value, rest) :=
  reference?_digits n.ne_nil n.isDigit h

theorem trimStart_append (h : ∀ c ∈ cs, Text.isBlank c = true) {x : Char}
    (hx : Text.isBlank x = false) (rest : List Char) :
    Text.trimStart (cs ++ x :: rest) = x :: rest := by
  rw [Text.trimStart, List.dropWhile_append_of_pos h, List.dropWhile_cons_of_neg (by simp [hx])]

theorem noDigit_append (h : ∀ c ∈ cs, Text.isBlank c = true) {x : Char}
    (hx : Decimal.isDigit x = false) (rest : List Char) : NoDigit (cs ++ x :: rest) := by
  intro d hd
  cases cs with
  | nil =>
    cases hd
    exact hx
  | cons c cs =>
    cases hd
    have hblank := h d (by simp)
    by_contra hdigit
    obtain ⟨hlow, hhigh⟩ := Python.toNat_of_isDigit (by simpa using hdigit)
    simp [Text.isBlank] at hblank
    omega

theorem NoDigit.append (h : NoDigit cs) {x : Char} (hx : Decimal.isDigit x = false)
    (rest : List Char) : NoDigit (cs ++ x :: rest) := by
  cases cs with
  | nil =>
    intro d hd
    cases hd
    exact hx
  | cons c cs => exact h

/-- A closing brace ends a reference. -/
theorem reference?_brace (cs rest : List Char) :
    reference? (cs ++ '\x7d' :: rest) =
      (reference? cs).map fun r => (r.1, r.2 ++ '\x7d' :: rest) := by
  cases cs with
  | nil => exact reference?_cons (by decide)
  | cons c cs =>
    rcases reference?_cases c cs with ⟨ds, tail, rfl, hne, hds, rfl, htail⟩ | hplain
    · rw [reference?_digits hne hds htail, List.cons_append, List.append_assoc,
        reference?_digits hne hds (htail.append (by decide) rest)]
      rfl
    · rw [reference?_eq_none hplain, List.cons_append,
        reference?_eq_none (hplain.imp_right (·.append (by decide) rest))]
      rfl

theorem trimStart_brace (cs rest : List Char) :
    Text.trimStart (cs ++ '\x7d' :: rest) = Text.trimStart cs ++ '\x7d' :: rest := by
  rw [Text.trimStart, List.dropWhile_append, List.dropWhile_cons_of_neg (by decide)]
  split
  · rename_i h
    rw [Text.trimStart, List.isEmpty_iff.mp h]
    rfl
  · rfl

theorem reference?_suffix {index : Nat} {tail : List Char}
    (h : reference? cs = some (index, tail)) : tail <:+ cs := by
  cases cs with
  | nil => cases h
  | cons c cs =>
    rcases reference?_cases c cs with ⟨ds, rest, rfl, hne, hds, rfl, hrest⟩ | hplain
    · rw [reference?_digits hne hds hrest] at h
      cases h
      exact ⟨'$' :: ds, rfl⟩
    · rw [reference?_eq_none hplain] at h
      cases h

/-! Choices and groups. -/

theorem not_open_cons {c : Char} (cs : List Char) (h : c ≠ '\x7b') :
    openBraces.isPrefixOf (c :: cs) = false := by
  simp [openBraces, List.isPrefixOf, Ne.symm h]

theorem not_open_second {c : Char} (cs : List Char) (h : c ≠ '\x7b') :
    openBraces.isPrefixOf ('\x7b' :: c :: cs) = false := by
  simp [openBraces, List.isPrefixOf, Ne.symm h]

theorem choice?_of_not_open (h : openBraces.isPrefixOf cs = false) : choice? cs = none := by
  rw [choice?, h]
  rfl

theorem group?_of_not_open (h : openBraces.isPrefixOf cs = false) : group? cs = none := by
  rw [group?, h]
  rfl

/-- A text on one line, with a mark that is found right after it and not before. -/
def Precedes (stop cs : List Char) : Prop :=
  (∀ c ∈ cs, Text.isLineTerminator c = false) ∧ ¬ stop <:+: cs ++ stop.dropLast

theorem precedes_of_ne {x : Char} (more : List Char)
    (hcs : ∀ c ∈ cs, c ≠ x ∧ Text.isLineTerminator c = false) : Precedes (x :: more) cs := by
  refine ⟨fun c hc => (hcs c hc).2, ?_⟩
  induction cs with
  | nil =>
    intro h
    have := h.length_le
    simp only [List.nil_append, List.length_dropLast, List.length_cons] at this
    omega
  | cons c cs ih =>
    rw [List.cons_append, List.infix_cons_iff, not_or]
    refine ⟨?_, ih fun d hd => hcs d (List.mem_cons_of_mem c hd)⟩
    intro h
    exact (hcs c (by simp)).1 (List.cons_prefix_cons.mp h).1.symm

theorem precedes_cons {stop : List Char} {c : Char} :
    Precedes stop (c :: cs) ↔ Text.isLineTerminator c = false ∧
      ¬ stop <+: c :: (cs ++ stop.dropLast) ∧ Precedes stop cs := by
  unfold Precedes
  rw [List.cons_append, List.infix_cons_iff, List.forall_mem_cons]
  tauto

theorem append_dropLast_isPrefix (cs stop rest : List Char) :
    cs ++ stop.dropLast <+: cs ++ (stop ++ rest) := by
  rw [List.prefix_append_right_inj]
  exact (List.dropLast_prefix stop).trans (List.prefix_append stop rest)

/-- What stands before the first occurrence of a mark is found if there is no line break in it. -/
theorem lineUntil?_append {stop : List Char} (hs : stop ≠ []) (h : Precedes stop cs)
    (rest : List Char) : lineUntil? stop (cs ++ (stop ++ rest)) = some (cs, rest) := by
  induction cs with
  | nil =>
    obtain ⟨x, more, rfl⟩ := List.exists_cons_of_ne_nil hs
    simp [lineUntil?]
  | cons c cs ih =>
    obtain ⟨hl, hstop, hcs⟩ := precedes_cons.mp h
    have hnot : stop.isPrefixOf (c :: (cs ++ (stop ++ rest))) = false := by
      rw [Bool.eq_false_iff, Ne, List.isPrefixOf_iff_prefix]
      intro hp
      -- a mark at this place would end before the one that is there
      have hbefore := append_dropLast_isPrefix (c :: cs) stop rest
      refine hstop (List.prefix_of_prefix_length_le hp hbefore ?_)
      simp only [List.length_cons, List.length_append, List.length_dropLast]
      omega
    rw [List.cons_append, lineUntil?, hnot, hl, ih hcs]
    rfl

/-- A choice is read up to the braces that it ends with. -/
theorem choice?_choice {before after constant otherwise : List Char} (n : Numeral)
    (hb : ∀ c ∈ before, Text.isBlank c = true) (ha : ∀ c ∈ after, Text.isBlank c = true)
    (hc : Precedes [':'] constant) (ho : Precedes closeBraces otherwise) (rest : List Char) :
    choice? (openBraces ++ (before ++ '$' :: (n.digits ++ (after ++ '?' :: (constant ++
      ([':'] ++ (otherwise ++ (closeBraces ++ rest)))))))) =
      some ({ index := n.value, constant, otherwise }, rest) := by
  have hopen : ∀ cs, openBraces.isPrefixOf (openBraces ++ cs) = true := fun cs => by
    simp [List.isPrefixOf_iff_prefix]
  have hdrop : ∀ cs, (openBraces ++ cs).drop 2 = cs := fun cs => rfl
  rw [choice?, if_pos (hopen _), hdrop, trimStart_append hb (by decide),
    n.reference? (noDigit_append ha (by decide) _)]
  simp only [trimStart_append ha (show Text.isBlank '?' = false by decide),
    lineUntil?_append (List.cons_ne_nil _ _) hc,
    lineUntil?_append (show closeBraces ≠ [] by decide) ho]
  rfl

/-- Without a question mark before its first closing brace nothing is a choice. -/
theorem choice?_group (h : '?' ∉ cs) (rest : List Char) :
    choice? (openBraces ++ (cs ++ '\x7d' :: rest)) = none := by
  have hopen : openBraces.isPrefixOf (openBraces ++ (cs ++ '\x7d' :: rest)) = true := by
    simp [List.isPrefixOf_iff_prefix]
  have hdrop : (openBraces ++ (cs ++ '\x7d' :: rest)).drop 2 = cs ++ '\x7d' :: rest := rfl
  rw [choice?, if_pos hopen, hdrop, trimStart_brace, reference?_brace]
  cases hr : reference? (Text.trimStart cs) with
  | none => rfl
  | some r =>
    obtain ⟨index, tail⟩ := r
    have hsuffix : Text.trimStart tail <:+ cs :=
      (List.dropWhile_suffix _).trans ((reference?_suffix hr).trans (List.dropWhile_suffix _))
    simp only [Option.map_some, trimStart_brace]
    split
    · rename_i more heq
      cases htail : Text.trimStart tail with
      | nil =>
        rw [htail] at heq
        cases heq
      | cons d ds =>
        rw [htail] at heq hsuffix
        cases heq
        exact absurd (hsuffix.subset (by simp)) h
    · rfl

theorem lastReference?_plain (h : ∀ c ∈ cs, c ≠ '$' ∧ c ≠ '\x7d') (rest : List Char) :
    lastReference? (cs ++ rest) = lastReference? rest := by
  induction cs with
  | nil => rfl
  | cons c cs ih =>
    obtain ⟨hdollar, hbrace⟩ := h c (by simp)
    rw [List.cons_append, lastReference?, if_neg hbrace, reference?_cons hdollar, Option.or_none,
      ih fun d hd => h d (List.mem_cons_of_mem c hd)]

/-- Before a closing brace the last of the references is found. -/
theorem lastReference?_brace (h : '\x7d' ∉ cs) (rest : List Char) :
    ∃ tail, tail <:+ cs ∧ lastReference? (cs ++ '\x7d' :: rest) =
      (hits (scan reference? cs)).getLast?.map fun index => (index, tail ++ '\x7d' :: rest) := by
  induction hn : cs.length using Nat.strong_induction_on generalizing cs with
  | h n ih =>
    subst hn
    cases cs with
    | nil => exact ⟨[], List.suffix_rfl, by simp [lastReference?, scan_nil, hits]⟩
    | cons c cs =>
      have hc : c ≠ '\x7d' := fun hc => h (by simp [hc])
      rcases reference?_cases c cs with ⟨ds, tail, rfl, hne, hds, rfl, htail⟩ | hplain
      · have hdigits : ∀ d ∈ ds, d ≠ '$' ∧ d ≠ '\x7d' := fun d hd =>
          ⟨ne_of_isDigit (hds d hd) rfl, ne_of_isDigit (hds d hd) rfl⟩
        have hlength : tail.length < ('$' :: (ds ++ tail)).length := by
          simp only [List.length_cons, List.length_append]
          omega
        obtain ⟨last, hlast, heq⟩ := ih tail.length hlength
          (show '\x7d' ∉ tail from fun hm => h (by simp [hm])) rfl
        rw [List.cons_append, lastReference?, if_neg hc, List.append_assoc,
          lastReference?_plain hdigits, heq, scan_hit _ (reference?_digits hne hds htail),
          reference?_digits hne hds (htail.append (by decide) rest), hits]
        cases hhits : hits (scan reference? tail) with
        | nil => exact ⟨tail, ⟨'$' :: ds, rfl⟩, rfl⟩
        | cons i is =>
          refine ⟨last, hlast.trans ⟨'$' :: ds, rfl⟩, ?_⟩
          simp [List.getLast?_cons]
      · obtain ⟨last, hlast, heq⟩ := ih cs.length (by simp)
          (show '\x7d' ∉ cs from fun hm => h (List.mem_cons_of_mem c hm)) rfl
        refine ⟨last, hlast.trans (List.suffix_cons c cs), ?_⟩
        rw [List.cons_append, lastReference?, if_neg hc, heq,
          reference?_eq_none (hplain.imp_right (·.append (by decide) rest)), Option.or_none,
          scan_char _ (reference?_eq_none hplain), hits]

/-- A group is read up to its first closing braces. The last reference in it decides on it. -/
theorem group?_group (hcs : ∀ c ∈ cs, c ≠ '\x7d' ∧ Text.isLineTerminator c = false)
    (rest : List Char) :
    group? (openBraces ++ (cs ++ (closeBraces ++ rest))) =
      (hits (scan reference? cs)).getLast?.map fun index => ({ index, inner := cs }, rest) := by
  have hopen : openBraces.isPrefixOf (openBraces ++ (cs ++ (closeBraces ++ rest))) = true := by
    simp [List.isPrefixOf_iff_prefix]
  have hdrop : (openBraces ++ (cs ++ (closeBraces ++ rest))).drop 2 =
      cs ++ (closeBraces ++ rest) := rfl
  obtain ⟨tail, htail, hlast⟩ :=
    lastReference?_brace (fun h => (hcs _ h).1 rfl) ('\x7d' :: rest)
  rw [group?, if_pos hopen, hdrop, show closeBraces ++ rest = '\x7d' :: '\x7d' :: rest from rfl,
    hlast]
  cases (hits (scan reference? cs)).getLast? with
  | none => rfl
  | some index =>
    have hprecedes : Precedes closeBraces tail :=
      precedes_of_ne _ fun c hc => hcs c (htail.subset hc)
    have hline := lineUntil?_append (show closeBraces ≠ [] by decide) hprecedes rest
    rw [show closeBraces ++ rest = '\x7d' :: '\x7d' :: rest from rfl] at hline
    simp only [Option.map_some, hline]
    congr 3
    have hlength : (openBraces ++ (cs ++ '\x7d' :: '\x7d' :: rest)).length - rest.length - 4 =
        cs.length := by
      simp only [openBraces, List.length_append, List.length_cons, List.length_nil]
      omega
    rw [hlength]
    exact List.take_left

/-! Texts in double braces. -/

/-- A character that can stand inside braces once spreads are expanded. -/
def isInnerChar (c : Char) : Bool :=
  c != '\x7b' && c != '\x7d' && c != ':' && !Text.isLineTerminator c

theorem ne_of_isInnerChar {c : Char} (h : isInnerChar c = true) :
    c ≠ '\x7b' ∧ c ≠ '\x7d' ∧ c ≠ ':' ∧ Text.isLineTerminator c = false := by
  simpa [isInnerChar, and_assoc] using h

section Braces

variable {α : Type} {read : List Char → Option (α × List Char)}

theorem replace_unbraced (f : α → List Char)
    (hread : ∀ cs, openBraces.isPrefixOf cs = false → read cs = none)
    (hcs : ∀ c ∈ cs, c ≠ '\x7b') (rest : List Char) :
    replace f (scan read (cs ++ rest)) = cs ++ replace f (scan read rest) :=
  replace_plain f (fun _ cs hc => hread _ (not_open_cons cs hc)) hcs rest

/-- What is in double braces stays as it is if it is not read as a whole. -/
theorem replace_braced (f : α → List Char)
    (hread : ∀ cs, openBraces.isPrefixOf cs = false → read cs = none)
    (hcs : ∀ c ∈ cs, isInnerChar c = true)
    (h : read (openBraces ++ (cs ++ closeBraces) ++ rest) = none) :
    replace f (scan read (openBraces ++ (cs ++ closeBraces) ++ rest)) =
      openBraces ++ (cs ++ closeBraces) ++ replace f (scan read rest) := by
  have hbrace : ∀ c ∈ cs ++ closeBraces, c ≠ '\x7b' := by
    rw [List.forall_mem_append]
    exact ⟨fun c hc => (ne_of_isInnerChar (hcs c hc)).1, by simp [closeBraces]⟩
  have hsecond : openBraces.isPrefixOf ('\x7b' :: (cs ++ closeBraces ++ rest)) = false := by
    cases cs with
    | nil => exact not_open_second _ (by decide)
    | cons c cs => exact not_open_second _ (hbrace c (by simp))
  rw [List.append_assoc, show ∀ cs, openBraces ++ cs = '\x7b' :: '\x7b' :: cs from fun _ => rfl]
    at h ⊢
  rw [replace_none f h, replace_none f (hread _ hsecond), replace_unbraced f hread hbrace]
  rfl

end Braces

theorem expandChoices_unbraced (hcs : ∀ c ∈ cs, c ≠ '\x7b') (rest : List Char) :
    expandChoices isConstant (cs ++ rest) = cs ++ expandChoices isConstant rest :=
  replace_unbraced _ (fun _ => choice?_of_not_open) hcs rest

theorem expandGroups_unbraced (hcs : ∀ c ∈ cs, c ≠ '\x7b') (rest : List Char) :
    expandGroups count (cs ++ rest) = cs ++ expandGroups count rest :=
  replace_unbraced _ (fun _ => group?_of_not_open) hcs rest

theorem expandChoices_braced (isConstant : Nat → Bool) (hcs : ∀ c ∈ cs, isInnerChar c = true)
    (hq : '?' ∉ cs) (rest : List Char) :
    expandChoices isConstant (openBraces ++ (cs ++ closeBraces) ++ rest) =
      openBraces ++ (cs ++ closeBraces) ++ expandChoices isConstant rest := by
  refine replace_braced _ (fun _ => choice?_of_not_open) hcs ?_
  rw [List.append_assoc, List.append_assoc]
  exact choice?_group hq _

/-- What becomes of a group, by whether the argument of its last reference exists. Without a
reference it stays, braces and all. -/
def groupText (cs : List Char) : Option Bool → List Char
  | none => openBraces ++ (cs ++ closeBraces)
  | some true => cs
  | some false => []

theorem expandGroups_braced (count : Nat) (hcs : ∀ c ∈ cs, isInnerChar c = true)
    (rest : List Char) :
    expandGroups count (openBraces ++ (cs ++ closeBraces) ++ rest) =
      groupText cs ((hits (scan reference? cs)).getLast?.map (decide <| · < count)) ++
        expandGroups count rest := by
  have hgroup := group?_group
    (fun c hc => (ne_of_isInnerChar (hcs c hc)).2.imp_right And.right) rest
  rw [← List.append_assoc cs, ← List.append_assoc] at hgroup
  cases hlast : (hits (scan reference? cs)).getLast? with
  | none =>
    rw [hlast] at hgroup
    exact replace_braced _ (fun _ => group?_of_not_open) hcs hgroup
  | some index =>
    rw [hlast] at hgroup
    rw [expandGroups, replace_hit _ (by simp [openBraces]) hgroup, ← expandGroups]
    by_cases hindex : index < count <;> simp [hindex, groupText]

end CodePrinter.Template
