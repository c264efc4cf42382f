import CodePrinter.Proofs.TemplatePatterns

/-! Where references and choices stand in a text.

Main statement: a scan finds the occurrences of a pattern from left to right, and nothing else
(`Recognizes.occurs_iff`); references and choices are such patterns. -/
namespace CodePrinter.Template

/-- The values of the occurrences of a pattern in a text, from left to right. `stands value text
rest` tells that `text` is an occurrence where `rest` follows. After an occurrence the text is
searched from its end on, and the first place where the pattern stands is taken. -/
inductive Occurs {α : Type} (stands : α → List Char → List Char → Prop) :
    List Char → List α → Prop
  | nil : Occurs stands [] []
  | skip {c : Char} {cs : List Char} {values : List α}
      (h : ∀ value text rest, c :: cs = text ++ rest → ¬ stands value text rest)
      (more : Occurs stands cs values) : Occurs stands (c :: cs) values
  | hit {value : α} {text rest : List Char} {values : List α} (h : stands value text rest)
      (more : Occurs stands rest values) : Occurs stands (text ++ rest) (value :: values)

/-- A reader finds a pattern where it stands at the start of a text. -/
structure Recognizes {α : Type} (read : List Char → Option (α × List Char))
    (stands : α → List Char → List Char → Prop) : Prop where
  ne_nil : ∀ {value text rest}, stands value text rest → text ≠ []
  sound : ∀ {cs value rest}, read cs = some (value, rest) →
    ∃ text, cs = text ++ rest ∧ stands value text rest
  complete : ∀ {value text rest}, stands value text rest → read (text ++ rest) = some (value, rest)

namespace Recognizes

variable {α : Type} {read : List Char → Option (α × List Char)}
  {stands : α → List Char → List Char → Prop} {cs : List Char} {values : List α}

theorem occurs_hits (h : Recognizes read stands) (cs : List Char) :
    Occurs stands cs (hits (scan read cs)) := by
  -- what follows an occurrence is shorter, but no tail of the text at hand
  induction hn : cs.length using Nat.strong_induction_on generalizing cs with
  | h n ih =>
    subst hn
    cases cs with
    | nil => exact .nil
    | cons c cs =>
      cases hread : read (c :: cs) with
      | none =>
        rw [scan_char read hread]
        refine .skip ?_ (ih cs.length (by simp) cs rfl)
        intro value text rest htext hstands
        rw [htext, h.complete hstands] at hread
        cases hread
      | some found =>
        obtain ⟨value, rest⟩ := found
        obtain ⟨text, htext, hstands⟩ := h.sound hread
        obtain ⟨x, text, rfl⟩ := List.exists_cons_of_ne_nil (h.ne_nil hstands)
        rw [List.cons_append, List.cons.injEq] at htext
        obtain ⟨rfl, rfl⟩ := htext
        have hshorter : rest.length < (c :: (text ++ rest)).length := by
          rw [List.length_cons, List.length_append]
          omega
        rw [scan_hit read hread]
        exact .hit hstands (ih rest.length hshorter rest rfl)

theorem hits_eq (h : Recognizes read stands) (ho : Occurs stands cs values) :
    hits (scan read cs) = values := by
  induction ho with
  | nil => rfl
  | @skip c cs values hnone more ih =>
    have hread : read (c :: cs) = none := by
      rw [Option.eq_none_iff_forall_ne_some]
      rintro ⟨value, rest⟩ hread
      obtain ⟨text, htext, hstands⟩ := h.sound hread
      exact hnone value text rest htext hstands
    rw [scan_char read hread, hits, ih]
  | @hit value text rest values hstands more ih =>
    have hread := h.complete hstands
    obtain ⟨x, text, rfl⟩ := List.exists_cons_of_ne_nil (h.ne_nil hstands)
    rw [List.cons_append] at hread ⊢
    rw [scan_hit read hread, hits, ih]

/-- The occurrences of a pattern are those that a scan finds. -/
theorem occurs_iff (h : Recognizes read stands) :
    Occurs stands cs values ↔ values = hits (scan read cs) := by
  constructor
  · intro ho
    exact (h.hits_eq ho).symm
  · rintro rfl
    exact h.occurs_hits cs

end Recognizes

/-- A reference has all the digits there are. -/
def IsReference (index : Nat) (text rest : List Char) : Prop :=
  ∃ n : Numeral, n.value = index ∧ text = '$' :: n.digits ∧ NoDigit rest

theorem recognizes_reference : Recognizes reference? IsReference where
  ne_nil := by
    rintro index text rest ⟨n, -, rfl, -⟩
    simp
  sound := by
    intro cs index rest h
    cases cs with
    | nil => cases h
    | cons c cs =>
      rcases reference?_cases c cs with ⟨ds, tail, rfl, hne, hds, rfl, htail⟩ | hplain
      · rw [reference?_digits hne hds htail] at h
        cases h
        exact ⟨'$' :: ds, rfl, ⟨ds, hne, hds⟩, rfl, rfl, htail⟩
      · rw [reference?_eq_none hplain] at h
        cases h
  complete := by
    rintro index text rest ⟨n, rfl, rfl, hrest⟩
    exact n.reference? hrest

/-- A choice in double braces: a reference and a question mark, then a text on one line up to the
first colon, and another one up to the first closing braces. -/
def IsChoice (choice : Choice) (text _rest : List Char) : Prop :=
  ∃ (before after : List Char) (n : Numeral), (∀ c ∈ before, Text.isBlank c = true) ∧
    (∀ c ∈ after, Text.isBlank c = true) ∧ n.value = choice.index ∧
    Precedes [':'] choice.constant ∧ Precedes closeBraces choice.otherwise ∧
    text = openBraces ++ (before ++ '$' :: (n.digits ++ (after ++ '?' :: (choice.constant ++
      ([':'] ++ (choice.otherwise ++ closeBraces))))))

theorem eq_of_lineUntil? {stop cs before rest : List Char} (hs : stop ≠ [])
    (h : lineUntil? stop cs = some (before, rest)) :
    cs = before ++ (stop ++ rest) ∧ Precedes stop before := by
  induction cs generalizing before with
  | nil => cases h
  | cons c cs ih =>
    rw [lineUntil?] at h
    split at h
    · rename_i hstart
      obtain ⟨tail, htail⟩ := List.isPrefixOf_iff_prefix.mp hstart
      rw [← htail, List.drop_left] at h
      cases h
      refine ⟨htail.symm, by simp, ?_⟩
      intro hinfix
      have hlength := hinfix.length_le
      have hpos := List.length_pos_iff.mpr hs
      simp only [List.nil_append, List.length_dropLast] at hlength
      omega
    · rename_i hnot
      split at h
      · cases h
      · rename_i hline
        obtain ⟨⟨first, tail⟩, hfirst, heq⟩ := Option.map_eq_some_iff.mp h
        cases heq
        obtain ⟨rfl, hprecedes⟩ := ih hfirst
        refine ⟨rfl, precedes_cons.mpr ⟨by simpa using hline, ?_, hprecedes⟩⟩
        intro hstart
        exact hnot (List.isPrefixOf_iff_prefix.mpr
          (hstart.trans (append_dropLast_isPrefix (c :: first) stop rest)))

theorem trimStart_eq (cs : List Char) :
    ∃ blanks, (∀ c ∈ blanks, Text.isBlank c = true) ∧ cs = blanks ++ Text.trimStart cs :=
  ⟨cs.takeWhile Text.isBlank, fun _ hc => List.all_eq_true.mp List.all_takeWhile _ hc,
    List.takeWhile_append_dropWhile.symm⟩

theorem eq_of_choice? {cs rest : List Char} {choice : Choice}
    (h : choice? cs = some (choice, rest)) :
    ∃ text, cs = text ++ rest ∧ IsChoice choice text rest := by
  unfold choice? at h
  split at h
  · rename_i hopen
    obtain ⟨inner, rfl⟩ := List.isPrefixOf_iff_prefix.mp hopen
    have hdrop : (openBraces ++ inner).drop 2 = inner := rfl
    obtain ⟨before, hb, hbefore⟩ := trimStart_eq inner
    rw [hdrop] at h
    cases href : reference? (Text.trimStart inner) with
    | none => simp [href] at h
    | some found =>
      obtain ⟨index, tail⟩ := found
      obtain ⟨text, htext, n, hn, rfl, -⟩ := recognizes_reference.sound href
      obtain ⟨after, ha, hafter⟩ := trimStart_eq tail
      simp only [href] at h
      split at h
      · rename_i more hmore
        cases hconstant : lineUntil? [':'] more with
        | none => simp [hconstant] at h
        | some found =>
          obtain ⟨constant, more⟩ := found
          simp only [hconstant] at h
          obtain ⟨⟨otherwise, rest⟩, hotherwise, heq⟩ := Option.map_eq_some_iff.mp h
          cases heq
          obtain ⟨rfl, hc⟩ := eq_of_lineUntil? (by simp) hconstant
          obtain ⟨rfl, ho⟩ := eq_of_lineUntil? (by decide) hotherwise
          refine ⟨_, ?_, before, after, n, hb, ha, hn, hc, ho, rfl⟩
          rw [hbefore, htext, hafter, hmore]
          simp
      · cases h
  · cases h

theorem recognizes_choice : Recognizes choice? IsChoice where
  ne_nil := by
    rintro choice text rest ⟨before, after, n, -, -, -, -, -, rfl⟩
    simp [openBraces]
  sound := eq_of_choice?
  complete := by
    rintro choice text rest ⟨before, after, n, hb, ha, hn, hc, ho, rfl⟩
    have hread := choice?_choice n hb ha hc ho rest
    simpa [hn] using hread

end CodePrinter.Template
