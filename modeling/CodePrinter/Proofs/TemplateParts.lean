import CodePrinter.Proofs.SnippetLines
import CodePrinter.Proofs.TemplatePatterns
import Mathlib.Data.List.Chain

/-! The parts of a text as stretches of it.

Main statement: a text is cut into texts and references in one way only, and that is how it is
split, whatever was split before it (`split_iff_divides`). -/
namespace CodePrinter.Template

/-- A part of a text as it stands there. -/
inductive Stretch where
  | text (cs : List Char)
  /-- A reference, with the digits that it is written with. -/
  | reference (n : Numeral)

namespace Stretch

def chars : Stretch → List Char
  | .text cs => cs
  | .reference n => '$' :: n.digits

def part : Stretch → Part
  | .text cs => .text (String.ofList cs)
  | .reference n => .arg n.value

def tokens : Stretch → List (Token Nat)
  | .text cs => cs.map .char
  | .reference n => [.hit n.value]

def isText : Stretch → Bool
  | .text _ => true
  | .reference _ => false

end Stretch

/-- No reference stands in a text. -/
def NoReference (cs : List Char) : Prop := ∀ d, Decimal.isDigit d = true → ¬ ['$', d] <:+: cs

/-- Texts and references that can be told apart where they stand side by side. -/
structure Apart (ss : List Stretch) : Prop where
  text_ne_nil : ∀ cs, .text cs ∈ ss → cs ≠ []
  noReference : ∀ cs, .text cs ∈ ss → NoReference cs
  texts_apart : ss.IsChain fun s t => ¬ (s.isText = true ∧ t.isText = true)
  noDigit : ss.IsChain fun s t => s.isText = false → ∀ cs, t = .text cs → NoDigit cs

/-- A text is cut into stretches. A reference has all the digits that there are after its sign. -/
structure Divides (ss : List Stretch) (text : String) : Prop extends Apart ss where
  chars : ss.flatMap Stretch.chars = text.toList
  maximal : ∀ before n after, ss = before ++ .reference n :: after →
    NoDigit (after.flatMap Stretch.chars)

variable {s : Stretch} {ss : List Stretch} {c : Char} {cs rest : List Char} {n : Numeral}

theorem noDigit_nil : NoDigit [] := nofun

theorem noDigit_dollar (cs : List Char) : NoDigit ('$' :: cs) := by
  rintro d ⟨⟩
  decide

theorem NoDigit.append_right (h : NoDigit cs) (hne : cs ≠ []) (rest : List Char) :
    NoDigit (cs ++ rest) := by
  obtain ⟨c, cs, rfl⟩ := List.exists_cons_of_ne_nil hne
  exact h

theorem noDigit_left (h : NoDigit (cs ++ rest)) (hne : cs ≠ []) : NoDigit cs := by
  obtain ⟨c, cs, rfl⟩ := List.exists_cons_of_ne_nil hne
  exact h

theorem noReference_cons :
    NoReference (c :: cs) ↔ (c ≠ '$' ∨ NoDigit cs) ∧ NoReference cs := by
  constructor
  · intro h
    refine ⟨?_, fun d hd hin => h d hd (List.infix_cons hin)⟩
    by_contra hno
    rw [not_or, not_not] at hno
    obtain ⟨rfl, hdigit⟩ := hno
    refine hdigit fun d hd => ?_
    by_contra htrue
    obtain ⟨ds, rfl⟩ : ∃ ds, cs = d :: ds := ⟨cs.tail, List.eq_cons_of_mem_head? hd⟩
    exact h d (by simpa using htrue) ⟨[], ds, rfl⟩
  · rintro ⟨hc, hcs⟩ d hd hin
    rw [List.infix_cons_iff] at hin
    obtain hstart | hin := hin
    · obtain ⟨rfl, ds, rfl⟩ := List.cons_prefix_cons.mp hstart
      have hnot : Decimal.isDigit d = false := hc.resolve_left (by simp) d rfl
      rw [hd] at hnot
      cases hnot
    · exact hcs d hd hin

/-- Where no reference stands, nothing is found. -/
theorem scan_noReference (h : NoReference cs) (hrest : NoDigit rest) :
    scan reference? (cs ++ rest) = cs.map .char ++ scan reference? rest := by
  induction cs with
  | nil => rfl
  | cons c cs ih =>
    obtain ⟨hc, hcs⟩ := noReference_cons.mp h
    have hnone : reference? (c :: (cs ++ rest)) = none := by
      refine reference?_eq_none (hc.imp_right fun hdigit => ?_)
      cases cs with
      | nil => exact hrest
      | cons d cs => exact hdigit
    rw [List.cons_append, scan_char _ hnone, ih hcs]
    rfl

namespace Apart

theorem tail (h : Apart (s :: ss)) : Apart ss where
  text_ne_nil cs hcs := h.text_ne_nil cs (List.mem_cons_of_mem s hcs)
  noReference cs hcs := h.noReference cs (List.mem_cons_of_mem s hcs)
  texts_apart := h.texts_apart.tail
  noDigit := h.noDigit.tail

/-- No digit follows a stretch that could belong to it. -/
theorem noDigit_chars (h : Apart (s :: ss)) : NoDigit (ss.flatMap Stretch.chars) := by
  cases ss with
  | nil => exact noDigit_nil
  | cons t ss =>
    rw [List.flatMap_cons]
    cases t with
    | reference n => exact noDigit_dollar _
    | text cs =>
      have hs : s.isText = false := by
        cases hs : s.isText with
        | false => rfl
        | true => exact absurd ⟨hs, rfl⟩ (List.isChain_cons_cons.mp h.texts_apart).1
      exact ((List.isChain_cons_cons.mp h.noDigit).1 hs cs rfl).append_right
        (h.text_ne_nil cs (by simp)) _

theorem maximal (h : Apart ss) {before after : List Stretch}
    (heq : ss = before ++ .reference n :: after) : NoDigit (after.flatMap Stretch.chars) := by
  induction before generalizing ss with
  | nil =>
    subst heq
    exact h.noDigit_chars
  | cons s before ih =>
    subst heq
    exact ih h.tail rfl

/-- A scan finds the references, and the characters of the texts between them. -/
theorem scan_chars (h : Apart ss) :
    scan reference? (ss.flatMap Stretch.chars) = ss.flatMap Stretch.tokens := by
  induction ss with
  | nil => rfl
  | cons s ss ih =>
    have hrest := h.noDigit_chars
    rw [List.flatMap_cons, List.flatMap_cons, ← ih h.tail]
    cases s with
    | text cs => exact scan_noReference (h.noReference cs (by simp)) hrest
    | reference n => exact scan_hit _ (n.reference? hrest)

theorem textParts_of_mem (h : Apart ss) (hcs : .text cs ∈ ss) :
    textParts cs = [(Stretch.text cs).part] :=
  if_neg (h.text_ne_nil cs hcs)

theorem joinChars_tokens (h : Apart ss) :
    joinChars (ss.flatMap Stretch.tokens) = ss.map Stretch.part := by
  induction ss with
  | nil => rfl
  | cons s ss ih =>
    have hmore := ih h.tail
    cases s with
    | reference n =>
      rw [List.map_cons, ← hmore]
      rfl
    | text cs =>
      have htext := h.textParts_of_mem (show Stretch.text cs ∈ .text cs :: ss by simp)
      cases ss with
      | nil => simpa [Stretch.tokens] using (joinChars_chars cs).trans htext
      | cons t ss =>
        cases t with
        | text ds => exact absurd ⟨rfl, rfl⟩ (List.isChain_cons_cons.mp h.texts_apart).1
        | reference n =>
          have hhit := joinChars_hit cs n.value (ss.flatMap Stretch.tokens)
          rw [htext, List.singleton_append] at hhit
          rw [List.map_cons, ← hmore]
          exact hhit

/-! Every text is cut into stretches. -/

theorem nil : Apart [] := ⟨nofun, nofun, .nil, .nil⟩

/-- A reference can be put before stretches that do not go on with a digit. -/
theorem cons_reference (h : Apart ss) (hrest : NoDigit (ss.flatMap Stretch.chars)) :
    Apart (.reference n :: ss) where
  text_ne_nil cs hcs := h.text_ne_nil cs (by simpa using hcs)
  noReference cs hcs := h.noReference cs (by simpa using hcs)
  texts_apart := List.isChain_cons.mpr ⟨fun _ _ => by simp [Stretch.isText], h.texts_apart⟩
  noDigit := by
    refine List.isChain_cons.mpr ⟨?_, h.noDigit⟩
    rintro t ht - cs rfl
    obtain ⟨ss, rfl⟩ : ∃ more, ss = .text cs :: more := ⟨ss.tail, List.eq_cons_of_mem_head? ht⟩
    exact noDigit_left hrest (h.text_ne_nil cs (by simp))

theorem cons_text (h : Apart ss) (hne : cs ≠ []) (hcs : NoReference cs)
    (hss : ∀ t ∈ ss.head?, t.isText = false) : Apart (.text cs :: ss) where
  text_ne_nil ds hds := by
    rw [List.mem_cons, Stretch.text.injEq] at hds
    obtain rfl | hds := hds
    · exact hne
    · exact h.text_ne_nil ds hds
  noReference ds hds := by
    rw [List.mem_cons, Stretch.text.injEq] at hds
    obtain rfl | hds := hds
    · exact hcs
    · exact h.noReference ds hds
  texts_apart := List.isChain_cons.mpr ⟨fun t ht => by simp [hss t ht], h.texts_apart⟩
  noDigit := List.isChain_cons.mpr ⟨fun _ _ => nofun, h.noDigit⟩

/-- A character that begins no reference goes to the text that follows it, or is one. -/
theorem exists_cons (h : Apart ss) (hc : c ≠ '$' ∨ NoDigit (ss.flatMap Stretch.chars)) :
    ∃ ts, Apart ts ∧ ts.flatMap Stretch.chars = c :: ss.flatMap Stretch.chars := by
  have hsingle : NoReference [c] :=
    noReference_cons.mpr ⟨.inr noDigit_nil, fun _ _ hin => by simpa using hin.length_le⟩
  rcases ss with _ | ⟨_ | n, ss⟩
  · exact ⟨[.text [c]], nil.cons_text (by simp) hsingle (by simp), rfl⟩
  · rename_i cs
    have hne := h.text_ne_nil cs (by simp)
    have hcs := h.noReference cs (by simp)
    refine ⟨.text (c :: cs) :: ss, h.tail.cons_text (by simp) ?_ ?_, rfl⟩
    · exact noReference_cons.mpr ⟨hc.imp_right fun hd => noDigit_left hd hne, hcs⟩
    · intro t ht
      have hchain := (List.isChain_cons.mp h.texts_apart).1 t ht
      simpa [Stretch.isText] using hchain
  · have hfirst : ∀ t ∈ (Stretch.reference n :: ss).head?, t.isText = false := by
      simp [Stretch.isText]
    exact ⟨.text [c] :: .reference n :: ss, h.cons_text (by simp) hsingle hfirst, rfl⟩

end Apart

theorem exists_apart (cs : List Char) : ∃ ss, Apart ss ∧ ss.flatMap Stretch.chars = cs := by
  -- what follows a reference is shorter, but no tail of the text at hand
  induction hn : cs.length using Nat.strong_induction_on generalizing cs with
  | h k ih =>
    subst hn
    cases cs with
    | nil => exact ⟨[], .nil, rfl⟩
    | cons c cs =>
      rcases reference?_cases c cs with ⟨ds, rest, rfl, hne, hds, rfl, hrest⟩ | hplain
      · have hshorter : rest.length < ('$' :: (ds ++ rest)).length := by
          simp only [List.length_cons, List.length_append]
          omega
        obtain ⟨ss, hss, rfl⟩ := ih rest.length hshorter rest rfl
        exact ⟨.reference ⟨ds, hne, hds⟩ :: ss, hss.cons_reference hrest, rfl⟩
      · obtain ⟨ss, hss, rfl⟩ := ih cs.length (by simp) cs rfl
        exact hss.exists_cons hplain

namespace Divides

theorem map_part {text : String} (h : Divides ss text) : ss.map Stretch.part = split text := by
  rw [split, ← h.chars, h.toApart.scan_chars, h.toApart.joinChars_tokens]

end Divides

theorem exists_divides (text : String) : ∃ ss, Divides ss text := by
  obtain ⟨ss, hss, hchars⟩ := exists_apart text.toList
  exact ⟨ss, { hss with chars := hchars, maximal := fun _ _ _ => hss.maximal }⟩

/-- After any calls a text is split into the one list of parts that it can be cut into: texts that
are not empty, have no reference in them and do not stand side by side, and references with all
their digits. -/
theorem split_iff_divides (calls : List Call) (text : String) (parts : List Part) :
    (∃ ss, Divides ss text ∧ ss.map Stretch.part = parts) ↔
      ((History.ofCalls calls).cache.split text).1 = parts := by
  have hholds : (History.ofCalls calls).cache.Holds (History.ofCalls calls).missed :=
    History.holds_foldl (Cache.holds_empty 0) calls
  have hsplit := hholds.sound.fst_split text
  rw [hsplit]
  constructor
  · rintro ⟨ss, hss, rfl⟩
    exact hss.map_part.symm
  · rintro rfl
    obtain ⟨ss, hss⟩ := exists_divides text
    exact ⟨ss, hss, hss.map_part⟩

example : split "$$007$12x$" = [.text "$", .arg 7, .arg 12, .text "x$"] := by decide +kernel

end CodePrinter.Template
