import CodePrinter.Proofs.TemplatePatterns

/-! Templates that are put together from segments.

Spreads, choices and groups are expanded one kind after the other, each over the whole text that
the one before leaves. Main statements: what comes out is what the segments come to one by one
(`expand_segments`), and what becomes of a group with several references (`expand_group`). -/
namespace CodePrinter.Template

/-- What a template is made of where there are no braces. -/
inductive Piece where
  | text (cs : List Char)
  | reference (index : Numeral)
  | spread (index : Numeral)

namespace Piece

/-- A piece as it is written. -/
def source : Piece → List Char
  | .text cs => cs
  | .reference index => '$' :: index.digits
  | .spread index => '$' :: (index.digits ++ ['.', '.', '.'])

/-- What a piece stands for: a spread, for references to the arguments from its index on. -/
def meaning (count : Nat) : Piece → List Char
  | .text cs => cs
  | .reference index => '$' :: index.digits
  | .spread index =>
    (", ".intercalate (((List.range count).drop index.value).map ("$" ++ toString ·))).toList

def textAll (ok : Char → Bool) : Piece → Bool
  | .text cs => cs.all ok
  | _ => true

/-- The arguments that are referred to by what a piece stands for. -/
def referred (count : Nat) : Piece → List Nat
  | .text _ => []
  | .reference index => [index.value]
  | .spread index => (List.range count).drop index.value

end Piece

def piecesSource (ps : List Piece) : List Char := ps.flatMap Piece.source

def piecesMeaning (count : Nat) (ps : List Piece) : List Char := ps.flatMap (Piece.meaning count)

theorem piecesSource_cons (p : Piece) (ps : List Piece) :
    piecesSource (p :: ps) = p.source ++ piecesSource ps := rfl

theorem piecesMeaning_cons (count : Nat) (p : Piece) (ps : List Piece) :
    piecesMeaning count (p :: ps) = p.meaning count ++ piecesMeaning count ps := rfl

/-- Neither a digit nor a point comes first. -/
def startsApart : List Char → Bool
  | [] => true
  | c :: _ => !Decimal.isDigit c && c != '.'

/-- What follows a reference or a spread cannot be taken for a part of it. -/
def areApart : List Piece → Bool
  | [] => true
  | .text _ :: ps => areApart ps
  | _ :: ps => startsApart (piecesSource ps) && areApart ps

/-- A character of a text that stands by itself. -/
def isOuterChar (c : Char) : Bool := c != '$' && c != '\x7b' && c != '\x7d'

/-- A character of a text in a branch of a choice. -/
def isBranchChar (c : Char) : Bool := isOuterChar c && c != ':' && !Text.isLineTerminator c

/-- A character of a text in a group. -/
def isGroupChar (c : Char) : Bool := isBranchChar c && c != '?'

/-- Pieces in double braces. -/
def braced (ps : List Piece) : List Piece := .text openBraces :: ps ++ [.text closeBraces]

inductive Segment where
  | piece (p : Piece)
  /-- A choice by an argument, with white space before and after the reference to it. -/
  | choice (before : List Char) (index : Numeral) (after : List Char)
      (constant otherwise : List Piece)
  /-- A group with one reference. -/
  | optional (before : List Char) (index : Numeral) (after : List Char)

namespace Segment

/-- The pieces that a segment is written with. -/
def pieces : Segment → List Piece
  | .piece p => [p]
  | .choice before index after constant otherwise =>
    braced ([.text before, .reference index, .text after, .text ['?']] ++ constant ++
      .text [':'] :: otherwise)
  | .optional before index after => braced [.text before, .reference index, .text after]

def source (s : Segment) : List Char := piecesSource s.pieces

/-- The texts of a segment hold nothing that is read as anything else. -/
def isValid : Segment → Bool
  | .piece p => p.textAll isOuterChar
  | .choice before _ after constant otherwise =>
    before.all Text.isBlank && after.all Text.isBlank &&
      constant.all (·.textAll isBranchChar) && otherwise.all (·.textAll isBranchChar)
  | .optional before _ after => before.all isGroupChar && after.all isGroupChar

/-- What a segment stands for. -/
def meaning (count : Nat) (isConstant : Nat → Bool) : Segment → List Char
  | .piece p => p.meaning count
  | .choice _ index _ constant otherwise =>
    piecesMeaning count (if isConstant index.value then constant else otherwise)
  | .optional before index after =>
    if index.value < count then before ++ '$' :: index.digits ++ after else []

end Segment

variable {count : Nat} {isConstant : Nat → Bool} {cs rest : List Char}

/-! Spreads. -/

theorem NoDigit.of_startsApart {cs : List Char} (h : startsApart cs = true) : NoDigit cs := by
  intro d hd
  obtain ⟨ds, rfl⟩ : ∃ ds, cs = d :: ds := ⟨cs.tail, List.eq_cons_of_mem_head? hd⟩
  simp only [startsApart, Bool.and_eq_true, Bool.not_eq_true'] at h
  exact h.1

theorem spread?_cons {c : Char} (cs : List Char) (h : c ≠ '$') : spread? (c :: cs) = none := by
  rw [spread?, reference?_cons h]

theorem spread?_reference (n : Numeral) {rest : List Char} (h : startsApart rest = true) :
    spread? ('$' :: (n.digits ++ rest)) = none := by
  rw [spread?, n.reference? (.of_startsApart h)]
  cases rest with
  | nil => rfl
  | cons c rest =>
    have hc : c ≠ '.' := by
      simp only [startsApart, Bool.and_eq_true, bne_iff_ne] at h
      exact h.2
    split
    · rename_i heq
      cases heq
      exact absurd rfl hc
    · rfl

theorem spread?_spread (n : Numeral) (rest : List Char) :
    spread? ((Piece.spread n).source ++ rest) = some (n.value, rest) := by
  have hpoint : NoDigit (['.', '.', '.'] ++ rest) := by
    intro d hd
    cases hd
    decide
  rw [Piece.source, List.cons_append, List.append_assoc, spread?, n.reference? hpoint]
  rfl

theorem drop_range_eq (count index : Nat) :
    (List.range count).drop index = List.range' index (count - index) := by
  rw [List.range_eq_range', List.drop_range', Nat.zero_add, Nat.mul_one]

theorem spreadChars_eq (count index : Nat) :
    spreadChars count index =
      (", ".intercalate (((List.range count).drop index).map ("$" ++ toString ·))).toList := by
  have hreference : (fun j : Nat => ("$" ++ toString j).toList) = referenceChars := by
    funext j
    simp [referenceChars, Nat.toString_eq_repr, Nat.repr]
  rw [String.toList_intercalate, List.map_map, drop_range_eq, spreadChars]
  congr 1
  exact congrArg (List.map · _) hreference.symm

/-- Every spread is expanded, wherever it stands. -/
theorem expandSpreads_pieces (count : Nat) {ps : List Piece}
    (ht : ∀ p ∈ ps, p.textAll (· != '$') = true) (ha : areApart ps = true) :
    expandSpreads count (piecesSource ps) = piecesMeaning count ps := by
  have hread (c : Char) : ∀ cs, c ≠ '$' → spread? (c :: cs) = none := fun _ => spread?_cons _
  induction ps with
  | nil => rfl
  | cons p ps ih =>
    have htail := ih fun q hq => ht q (List.mem_cons_of_mem p hq)
    rw [piecesSource_cons, piecesMeaning_cons, expandSpreads]
    cases p with
    | text cs =>
      have hcs : ∀ c ∈ cs, c ≠ '$' := by simpa [Piece.textAll] using ht (.text cs) (by simp)
      rw [Piece.source, replace_plain _ hread hcs]
      exact congrArg _ (htail ha)
    | reference n =>
      obtain ⟨hrest, ha⟩ := Bool.and_eq_true_iff.mp ha
      have hdigits : ∀ d ∈ n.digits, d ≠ '$' := fun d hd => ne_of_isDigit (n.isDigit d hd) rfl
      rw [Piece.source, List.cons_append, replace_none _ (spread?_reference n hrest),
        replace_plain _ hread hdigits]
      exact congrArg (fun cs => '$' :: (n.digits ++ cs)) (htail ha)
    | spread n =>
      obtain ⟨-, ha⟩ := Bool.and_eq_true_iff.mp ha
      rw [replace_hit _ (by simp [Piece.source]) (spread?_spread n _), spreadChars_eq]
      exact congrArg _ (htail ha)

/-- A character that stands in what a spread is expanded to. -/
def isSpreadChar (c : Char) : Bool := c == '$' || c == ',' || c == ' ' || Decimal.isDigit c

theorem isSpreadChar_of_mem_spreadChars {index : Nat} {c : Char} (h : c ∈ spreadChars count index) :
    isSpreadChar c = true := by
  have hreference : ∀ j, ∀ c ∈ referenceChars j, isSpreadChar c = true := by
    intro j c hc
    rcases List.mem_cons.mp hc with rfl | hc
    · rfl
    · simp [isSpreadChar, Python.isDigit_of_mem_toDigits hc]
  rw [spreadChars] at h
  generalize List.range' index (count - index) = js at h
  induction js with
  | nil => simp at h
  | cons j js ih =>
    cases js with
    | nil => exact hreference j c (by simpa using h)
    | cons k js =>
      rw [List.map_cons, List.map_cons, List.intercalate_cons_cons, List.append_assoc,
        List.mem_append, List.mem_append] at h
      rcases h with h | h | h
      · exact hreference j c h
      · rcases List.mem_cons.mp h with rfl | h
        · rfl
        · obtain rfl := List.mem_singleton.mp h
          rfl
      · exact ih h

theorem Piece.all_meaning {ok : Char → Bool} (hok : ∀ c, isSpreadChar c = true → ok c = true)
    {p : Piece} (h : p.textAll ok = true) (count : Nat) : ∀ c ∈ p.meaning count, ok c = true := by
  cases p with
  | text cs => exact List.all_eq_true.mp h
  | reference n =>
    intro c hc
    apply hok
    rcases List.mem_cons.mp hc with rfl | hc
    · rfl
    · simp [isSpreadChar, n.isDigit c hc]
  | spread n =>
    intro c hc
    rw [meaning, ← spreadChars_eq] at hc
    exact hok c (isSpreadChar_of_mem_spreadChars hc)

theorem all_piecesMeaning {ok : Char → Bool} (hok : ∀ c, isSpreadChar c = true → ok c = true)
    {ps : List Piece} (h : ∀ p ∈ ps, p.textAll ok = true) (count : Nat) :
    ∀ c ∈ piecesMeaning count ps, ok c = true := by
  intro c hc
  obtain ⟨p, hp, hc⟩ := List.mem_flatMap.mp hc
  exact p.all_meaning hok (h p hp) count c hc

/-! The references in what pieces stand for. -/

theorem hits_plain (hcs : ∀ c ∈ cs, c ≠ '$') (rest : List Char) :
    hits (scan reference? (cs ++ rest)) = hits (scan reference? rest) := by
  rw [scan_plain (fun _ _ => reference?_cons) hcs, hits_append, hits_chars, List.nil_append]

theorem hits_reference {digits : List Char} (hne : digits ≠ [])
    (hd : ∀ d ∈ digits, Decimal.isDigit d = true) (h : NoDigit rest) :
    hits (scan reference? ('$' :: (digits ++ rest))) =
      Decimal.ofDigits digits :: hits (scan reference? rest) := by
  rw [scan_hit _ (reference?_digits hne hd h), hits]

theorem hits_referenceChars (index : Nat) (h : NoDigit rest) :
    hits (scan reference? (referenceChars index ++ rest)) =
      index :: hits (scan reference? rest) := by
  have hdigits := hits_reference (Nat.toDigits_ne_nil)
    (fun d hd => Python.isDigit_of_mem_toDigits (n := index) hd) h
  rwa [Python.ofDigits_toDigits] at hdigits

theorem hits_intercalate (js : List Nat) (h : NoDigit rest) :
    hits (scan reference? ([',', ' '].intercalate (js.map referenceChars) ++ rest)) =
      js ++ hits (scan reference? rest) := by
  induction js with
  | nil => rfl
  | cons j js ih =>
    cases js with
    | nil => simpa using hits_referenceChars j h
    | cons k js =>
      have hcomma : NoDigit ([',', ' '] ++
          ([',', ' '].intercalate ((k :: js).map referenceChars) ++ rest)) := by
        intro d hd
        cases hd
        decide
      rw [List.map_cons, List.map_cons, List.intercalate_cons_cons, ← List.map_cons,
        List.append_assoc, List.append_assoc, hits_referenceChars j hcomma,
        hits_plain (by simp), ih]
      rfl

/-- What pieces stand for begins with a digit only if they are written so. -/
theorem noDigit_piecesMeaning {ps : List Piece} (h : startsApart (piecesSource ps) = true)
    (ha : areApart ps = true) (count : Nat) : NoDigit (piecesMeaning count ps) := by
  induction ps with
  | nil => exact nofun
  | cons p ps ih =>
    rw [piecesMeaning_cons]
    cases p with
    | text cs =>
      cases cs with
      | nil => exact ih h ha
      | cons c cs =>
        intro d hd
        cases hd
        exact NoDigit.of_startsApart h c rfl
    | reference n =>
      intro d hd
      cases hd
      decide
    | spread n =>
      obtain ⟨hrest, ha⟩ := Bool.and_eq_true_iff.mp ha
      rw [Piece.meaning, ← spreadChars_eq, spreadChars]
      cases hjs : List.range' n.value (count - n.value) with
      | nil => exact ih hrest ha
      | cons j js =>
        intro d hd
        have hdollar : d = '$' := by
          cases js <;> simpa [List.intercalate_cons_cons, referenceChars, eq_comm] using hd
        subst hdollar
        decide

/-- The references in what pieces stand for are those that the pieces have one by one. -/
theorem hits_piecesMeaning (count : Nat) {ps : List Piece}
    (ht : ∀ p ∈ ps, p.textAll (· != '$') = true) (ha : areApart ps = true) :
    hits (scan reference? (piecesMeaning count ps)) = ps.flatMap (Piece.referred count) := by
  induction ps with
  | nil => rfl
  | cons p ps ih =>
    have htail := ih fun q hq => ht q (List.mem_cons_of_mem p hq)
    rw [piecesMeaning_cons, List.flatMap_cons]
    cases p with
    | text cs =>
      have hcs : ∀ c ∈ cs, c ≠ '$' := by simpa [Piece.textAll] using ht (.text cs) (by simp)
      rw [Piece.meaning, hits_plain hcs]
      exact htail ha
    | reference n =>
      obtain ⟨hrest, ha⟩ := Bool.and_eq_true_iff.mp ha
      rw [Piece.meaning, List.cons_append,
        hits_reference n.ne_nil n.isDigit (noDigit_piecesMeaning hrest ha count)]
      exact congrArg _ (htail ha)
    | spread n =>
      obtain ⟨hrest, ha⟩ := Bool.and_eq_true_iff.mp ha
      rw [Piece.meaning, ← spreadChars_eq, spreadChars,
        hits_intercalate _ (noDigit_piecesMeaning hrest ha count), ← drop_range_eq]
      exact congrArg _ (htail ha)

/-! Pieces in braces. -/

theorem isInnerChar_of_isSpreadChar {c : Char} (h : isSpreadChar c = true) :
    isInnerChar c = true := by
  simp only [isSpreadChar, Bool.or_eq_true, beq_iff_eq] at h
  rcases h with ((rfl | rfl) | rfl) | h
  · decide
  · decide
  · decide
  · obtain ⟨hlow, hhigh⟩ := Python.toNat_of_isDigit h
    have hline : Text.isLineTerminator c = false := by
      by_contra hc
      have hblank := Text.isBlank_of_isLineTerminator (by simpa using hc)
      simp [Text.isBlank] at hblank
      omega
    have hne (d : Char) (hd : Decimal.isDigit d = false) : (c != d) = true :=
      bne_iff_ne.mpr (ne_of_isDigit h hd)
    simp [isInnerChar, hline, hne '\x7b' rfl, hne '\x7d' rfl, hne ':' rfl]

theorem isInnerChar_of_isBranchChar {c : Char} (h : isBranchChar c = true) :
    isInnerChar c = true := by
  simp_all [isBranchChar, isOuterChar, isInnerChar]

theorem Piece.textAll_mono {ok ok' : Char → Bool} (hok : ∀ c, ok c = true → ok' c = true)
    {p : Piece} (h : p.textAll ok = true) : p.textAll ok' = true := by
  cases p with
  | text cs => exact List.all_eq_true.mpr fun c hc => hok c (List.all_eq_true.mp h c hc)
  | reference n | spread n => rfl

theorem isInnerChar_of_branch {ps : List Piece} (h : ps.all (·.textAll isBranchChar) = true)
    (count : Nat) : ∀ c ∈ piecesMeaning count ps, isInnerChar c = true :=
  all_piecesMeaning (fun _ => isInnerChar_of_isSpreadChar)
    (fun p hp => Piece.textAll_mono (fun _ => isInnerChar_of_isBranchChar)
      (List.all_eq_true.mp h p hp)) count

theorem isInnerChar_of_group {ps : List Piece} (h : ps.all (·.textAll isGroupChar) = true)
    (count : Nat) : ∀ c ∈ piecesMeaning count ps, isInnerChar c = true := by
  refine isInnerChar_of_branch (List.all_eq_true.mpr fun p hp => ?_) count
  exact Piece.textAll_mono (fun c hc => (Bool.and_eq_true_iff.mp hc).1) (List.all_eq_true.mp h p hp)

theorem notMem_of_group {ps : List Piece} (h : ps.all (·.textAll isGroupChar) = true)
    (count : Nat) : '?' ∉ piecesMeaning count ps := by
  have hok : ∀ c, isSpreadChar c = true → (c != '?') = true := by
    intro c hc
    rw [bne_iff_ne]
    rintro rfl
    cases hc
  have hall := all_piecesMeaning hok (fun p hp => Piece.textAll_mono
    (fun c hc => (Bool.and_eq_true_iff.mp hc).2) (List.all_eq_true.mp h p hp)) count
  intro hm
  cases hall _ hm

theorem textAll_of_group {ps : List Piece} (h : ps.all (·.textAll isGroupChar) = true) :
    ∀ p ∈ ps, p.textAll (· != '$') = true := by
  intro p hp
  refine Piece.textAll_mono (fun c hc => ?_) (List.all_eq_true.mp h p hp)
  simp_all [isGroupChar, isBranchChar, isOuterChar]

theorem piecesMeaning_braced (count : Nat) (ps : List Piece) :
    piecesMeaning count (braced ps) = openBraces ++ (piecesMeaning count ps ++ closeBraces) := by
  simp [braced, piecesMeaning, Piece.meaning]

theorem textAll_braced {ps : List Piece} (h : ∀ p ∈ ps, p.textAll (· != '$') = true) :
    ∀ p ∈ braced ps, p.textAll (· != '$') = true := by
  rw [braced, List.forall_mem_append, List.forall_mem_cons, List.forall_mem_singleton]
  exact ⟨⟨rfl, h⟩, rfl⟩

theorem startsApart_left {cs ds : List Char} (h : startsApart (cs ++ ds) = true) :
    startsApart cs = true := by
  cases cs with
  | nil => rfl
  | cons c cs => exact h

theorem areApart_append {ps qs : List Piece} (h : areApart (ps ++ qs) = true) :
    areApart ps = true ∧ areApart qs = true := by
  induction ps with
  | nil => exact ⟨rfl, h⟩
  | cons p ps ih =>
    cases p with
    | text cs => exact ih h
    | reference n | spread n =>
      obtain ⟨hstart, h⟩ := Bool.and_eq_true_iff.mp (by exact h)
      change startsApart (piecesSource (ps ++ qs)) = true at hstart
      rw [piecesSource, List.flatMap_append] at hstart
      exact ⟨Bool.and_eq_true_iff.mpr ⟨startsApart_left hstart, (ih h).1⟩, (ih h).2⟩

theorem areApart_braced (ps : List Piece) : areApart (braced ps) = areApart ps := by
  change areApart (ps ++ [.text closeBraces]) = areApart ps
  have hstart (qs : List Piece) : startsApart (piecesSource (qs ++ [.text closeBraces])) =
      startsApart (piecesSource qs) := by
    rw [piecesSource, List.flatMap_append]
    change startsApart (piecesSource qs ++ _) = _
    cases piecesSource qs with
    | nil => rfl
    | cons c cs => rfl
  induction ps with
  | nil => rfl
  | cons p ps ih =>
    cases p with
    | text cs => exact ih
    | reference n | spread n =>
      rw [List.cons_append, areApart, areApart, hstart, ih]
      · exact nofun
      · exact nofun

theorem Piece.ne_brace_of_mem_meaning {p : Piece} (h : p.textAll isOuterChar = true) (count : Nat) :
    ∀ c ∈ p.meaning count, c ≠ '\x7b' := by
  have hok : ∀ c, isSpreadChar c = true → (c != '\x7b') = true := fun c hc =>
    bne_iff_ne.mpr (ne_of_isInnerChar (isInnerChar_of_isSpreadChar hc)).1
  have htext : p.textAll (· != '\x7b') = true :=
    p.textAll_mono (fun c hc => by simp_all [isOuterChar]) h
  intro c hc
  exact bne_iff_ne.mp (p.all_meaning hok htext count c hc)

/-! Segments. -/

namespace Segment

/-- A segment once spreads are expanded. -/
def spreadOut (count : Nat) (s : Segment) : List Char := piecesMeaning count s.pieces

/-- A segment once spreads are expanded and choices are made. -/
def decided (count : Nat) (isConstant : Nat → Bool) : Segment → List Char
  | .choice before index after constant otherwise =>
    (Segment.choice before index after constant otherwise).meaning count isConstant
  | s => s.spreadOut count

theorem all_optional {before after : List Char} {index : Numeral}
    (h : (Segment.optional before index after).isValid = true) :
    [Piece.text before, .reference index, .text after].all (·.textAll isGroupChar) = true := by
  simpa [isValid, Piece.textAll] using h

theorem textAll_pieces {s : Segment} (h : s.isValid = true) :
    ∀ p ∈ s.pieces, p.textAll (· != '$') = true := by
  have hblank : ∀ {cs : List Char}, cs.all Text.isBlank = true → cs.all (· != '$') = true := by
    intro cs hcs
    refine List.all_eq_true.mpr fun c hc => ?_
    have := List.all_eq_true.mp hcs c hc
    rw [bne_iff_ne]
    rintro rfl
    cases this
  have hbranch : ∀ {ps : List Piece}, ps.all (·.textAll isBranchChar) = true →
      ∀ p ∈ ps, p.textAll (· != '$') = true := fun hps p hp =>
    p.textAll_mono (fun c hc => by simp_all [isBranchChar, isOuterChar])
      (List.all_eq_true.mp hps p hp)
  cases s with
  | piece p =>
    intro q hq
    obtain rfl := List.mem_singleton.mp hq
    exact q.textAll_mono (fun c hc => by simp_all [isOuterChar]) h
  | choice before index after constant otherwise =>
    simp only [isValid, Bool.and_eq_true] at h
    obtain ⟨⟨⟨hb, ha⟩, hc⟩, ho⟩ := h
    simp only [pieces, braced, List.cons_append, List.nil_append, List.append_assoc,
      List.forall_mem_cons, List.forall_mem_append]
    exact ⟨rfl, hblank hb, rfl, hblank ha, rfl, hbranch hc, rfl, hbranch ho, rfl, nofun⟩
  | optional before index after => exact textAll_braced (textAll_of_group (all_optional h))

theorem expandChoices_spreadOut {s : Segment} (h : s.isValid = true) (rest : List Char) :
    expandChoices isConstant (s.spreadOut count ++ rest) =
      s.decided count isConstant ++ expandChoices isConstant rest := by
  cases s with
  | piece p =>
    have hbrace := p.ne_brace_of_mem_meaning h count
    simpa [spreadOut, decided, pieces, piecesMeaning] using expandChoices_unbraced hbrace rest
  | choice before index after constant otherwise =>
    simp only [isValid, Bool.and_eq_true] at h
    obtain ⟨⟨⟨hb, ha⟩, hc⟩, ho⟩ := h
    have hconstant := isInnerChar_of_branch hc count
    have hotherwise := isInnerChar_of_branch ho count
    have hread := choice?_choice index (List.all_eq_true.mp hb) (List.all_eq_true.mp ha)
      (precedes_of_ne _ fun c hc => (ne_of_isInnerChar (hconstant c hc)).2.2)
      (precedes_of_ne _ fun c hc => (ne_of_isInnerChar (hotherwise c hc)).2.imp_right And.right)
      rest
    have hsource : (Segment.choice before index after constant otherwise).spreadOut count ++ rest =
        openBraces ++ (before ++ '$' :: (index.digits ++ (after ++ '?' ::
          (piecesMeaning count constant ++ ([':'] ++ (piecesMeaning count otherwise ++
            (closeBraces ++ rest))))))) := by
      simp [spreadOut, pieces, braced, piecesMeaning, Piece.meaning]
    rw [← hsource] at hread
    have hne : (Segment.choice before index after constant otherwise).spreadOut count ≠ [] := by
      simp [spreadOut, pieces, piecesMeaning_braced, openBraces]
    rw [expandChoices, replace_hit _ hne hread, decided, meaning]
    cases isConstant index.value <;> rfl
  | optional before index after =>
    have hgroup := all_optional h
    have hchars := isInnerChar_of_group hgroup count
    rw [decided, spreadOut, pieces, piecesMeaning_braced]
    · exact expandChoices_braced isConstant hchars (notMem_of_group hgroup count) rest
    · simp

theorem expandGroups_decided {s : Segment} (h : s.isValid = true) (ha : areApart s.pieces = true)
    (rest : List Char) :
    expandGroups count (s.decided count isConstant ++ rest) =
      s.meaning count isConstant ++ expandGroups count rest := by
  cases s with
  | piece p =>
    have hbrace := p.ne_brace_of_mem_meaning h count
    simpa [spreadOut, decided, pieces, piecesMeaning, meaning] using
      expandGroups_unbraced hbrace rest
  | choice before index after constant otherwise =>
    simp only [isValid, Bool.and_eq_true] at h
    have hbranch : (if isConstant index.value then constant else otherwise).all
        (·.textAll isBranchChar) = true := by
      split
      · exact h.1.2
      · exact h.2
    have hchars := isInnerChar_of_branch hbranch count
    exact expandGroups_unbraced (fun c hc => (ne_of_isInnerChar (hchars c hc)).1) rest
  | optional before index after =>
    have hgroup := all_optional h
    rw [pieces, areApart_braced] at ha
    rw [decided, spreadOut, pieces, piecesMeaning_braced]
    · rw [expandGroups_braced count (isInnerChar_of_group hgroup count),
        hits_piecesMeaning count (textAll_of_group hgroup) ha, meaning]
      by_cases hindex : index.value < count <;>
        simp [hindex, groupText, Piece.referred, piecesMeaning, Piece.meaning]
    · simp

end Segment

/-- A template is expanded segment by segment. -/
theorem expand_segments (count : Nat) (isConstant : Nat → Bool) (segments : List Segment)
    (hv : ∀ s ∈ segments, s.isValid = true)
    (ha : areApart (segments.flatMap Segment.pieces) = true) :
    expand count isConstant (String.ofList (segments.flatMap Segment.source)) =
      String.ofList (segments.flatMap (Segment.meaning count isConstant)) := by
  have hspreads : expandSpreads count (segments.flatMap Segment.source) =
      segments.flatMap (Segment.spreadOut count) := by
    have htext : ∀ p ∈ segments.flatMap Segment.pieces, p.textAll (· != '$') = true := by
      intro p hp
      obtain ⟨s, hs, hp⟩ := List.mem_flatMap.mp hp
      exact s.textAll_pieces (hv s hs) p hp
    have hpieces := expandSpreads_pieces count htext ha
    rwa [piecesSource, piecesMeaning, List.flatMap_assoc, List.flatMap_assoc] at hpieces
  have hchoices : expandChoices isConstant (segments.flatMap (Segment.spreadOut count)) =
      segments.flatMap (Segment.decided count isConstant) := by
    clear ha hspreads
    induction segments with
    | nil => rfl
    | cons s segments ih =>
      rw [List.flatMap_cons, List.flatMap_cons, s.expandChoices_spreadOut (hv s (by simp)),
        ih fun t ht => hv t (List.mem_cons_of_mem s ht)]
  have hgroups : expandGroups count (segments.flatMap (Segment.decided count isConstant)) =
      segments.flatMap (Segment.meaning count isConstant) := by
    clear hspreads hchoices
    induction segments with
    | nil => rfl
    | cons s segments ih =>
      obtain ⟨hs, ha⟩ := areApart_append (by rwa [List.flatMap_cons] at ha)
      rw [List.flatMap_cons, List.flatMap_cons, s.expandGroups_decided (hv s (by simp)) hs,
        ih (fun t ht => hv t (List.mem_cons_of_mem s ht)) ha]
  rw [expand, String.toList_ofList, hspreads, hchoices, hgroups]

/-- Spreads in the branches of a choice, and groups next to each other, with two arguments. -/
theorem expand_segments_mixed :
    let n (d : Char) (h : Decimal.isDigit d = true) : Numeral := ⟨[d], by simp, by simpa using h⟩
    let segments : List Segment :=
      [.piece (.text "x: int?\n".toList), .piece (.reference (n '0' rfl)),
        .piece (.spread (n '5' rfl)), .piece (.text "(".toList),
        .choice [' '] (n '0' rfl) ['\n'] [.spread (n '0' rfl), .text "?".toList]
          [.reference (n '9' rfl)],
        .optional ", ".toList (n '1' rfl) [], .optional [] (n '2' rfl) " = 7".toList,
        .choice [] (n '1' rfl) [] [] [.text "1".toList, .spread (n '1' rfl)],
        .piece (.text "9.".toList)]
    (∀ s ∈ segments, s.isValid = true) ∧ areApart (segments.flatMap Segment.pieces) = true ∧
      segments.flatMap Segment.source =
        ("x: int?\n$0$5...(\x7b\x7b $0\n?$0...?:$9\x7d\x7d\x7b\x7b, $1\x7d\x7d" ++
          "\x7b\x7b$2 = 7\x7d\x7d\x7b\x7b$1?:1$1...\x7d\x7d9.").toList ∧
      segments.flatMap (Segment.meaning 2 (· = 0)) = "x: int?\n$0($0, $1?, $11$19.".toList ∧
      expand 2 (· = 0) (String.ofList (segments.flatMap Segment.source)) =
        String.ofList (segments.flatMap (Segment.meaning 2 (· = 0))) := by
  intro n segments
  have hv : ∀ s ∈ segments, s.isValid = true := by decide +kernel
  have ha : areApart (segments.flatMap Segment.pieces) = true := by decide +kernel
  exact ⟨hv, ha, by decide +kernel, by decide +kernel, expand_segments 2 (· = 0) segments hv ha⟩

/-! Groups with several references. -/

namespace Piece

/-- The argument that a piece begins to refer at. -/
def index? : Piece → Option Nat
  | .text _ => none
  | .reference index => some index.value
  | .spread index => some index.value

/-- The argument that a group with this piece last in it is kept for. A spread of no arguments is
gone before the group is read. -/
def decides (count : Nat) : Piece → Option Nat
  | .text _ => none
  | .reference index => some index.value
  | .spread index => if index.value < count then some index.value else none

theorem getLast?_referred (count : Nat) (p : Piece) :
    (p.referred count).getLast?.map (decide <| · < count) =
      (p.decides count).map (decide <| · < count) := by
  cases p with
  | text cs => rfl
  | reference n => rfl
  | spread n =>
    rw [referred, decides, List.getLast?_drop, List.getLast?_range, List.length_range]
    by_cases hn : n.value < count
    · have hpos : count ≠ 0 := by omega
      simp [hn, hpos]
      omega
    · simp [hn, Nat.le_of_not_lt hn]

end Piece

theorem getLast?_flatMap_referred (count : Nat) (ps : List Piece) :
    (ps.flatMap (Piece.referred count)).getLast?.map (decide <| · < count) =
      (ps.filterMap (Piece.decides count)).getLast?.map (decide <| · < count) := by
  induction ps with
  | nil => rfl
  | cons p ps ih =>
    have hcons : (p :: ps).filterMap (Piece.decides count) =
        (p.decides count).toList ++ ps.filterMap (Piece.decides count) := by
      cases hp : p.decides count <;> simp [hp]
    have hlast : (p.decides count).toList.getLast? = p.decides count := by
      cases p.decides count <;> rfl
    rw [hcons, List.flatMap_cons, List.getLast?_append, List.getLast?_append, Option.map_or,
      Option.map_or, ih, p.getLast?_referred, hlast]

theorem expand_braced (count : Nat) (isConstant : Nat → Bool) {inner : List Piece}
    (hv : inner.all (·.textAll isGroupChar) = true) (ha : areApart inner = true) :
    expand count isConstant (String.ofList (piecesSource (braced inner))) =
      String.ofList (groupText (piecesMeaning count inner)
        ((inner.filterMap (Piece.decides count)).getLast?.map (decide <| · < count))) := by
  have hchars := isInnerChar_of_group hv count
  have htext := textAll_of_group hv
  have hchoices := expandChoices_braced isConstant hchars (notMem_of_group hv count) []
  have hgroups := expandGroups_braced count hchars []
  rw [List.append_nil] at hchoices hgroups
  rw [expand, String.toList_ofList,
    expandSpreads_pieces count (textAll_braced htext) (by rwa [areApart_braced]),
    piecesMeaning_braced, hchoices]
  rw [show expandChoices isConstant [] = [] from rfl, List.append_nil, hgroups,
    hits_piecesMeaning count htext ha, getLast?_flatMap_referred]
  rw [show expandGroups count [] = [] from rfl, List.append_nil]

/-- A group all of whose arguments exist is kept. If one is missing, the last reference that is left
decides: the group is dropped only if the argument of that one is missing, and if no reference is
left it stays with its braces. -/
theorem expand_group (count : Nat) (isConstant : Nat → Bool) (inner : List Piece)
    (hv : inner.all (·.textAll isGroupChar) = true) (ha : areApart inner = true)
    (hr : inner.filterMap Piece.index? ≠ []) :
    let result := expand count isConstant (String.ofList (piecesSource (braced inner)))
    let kept := piecesMeaning count inner
    ((∀ j ∈ inner.filterMap Piece.index?, j < count) → result = String.ofList kept) ∧
      result = String.ofList (match (inner.filterMap (Piece.decides count)).getLast? with
        | none => openBraces ++ (kept ++ closeBraces)
        | some j => if j < count then kept else []) := by
  intro result kept
  have hresult : result = _ := expand_braced count isConstant hv ha
  refine ⟨?_, ?_⟩
  · intro hall
    have hdecides : inner.filterMap (Piece.decides count) = inner.filterMap Piece.index? := by
      refine List.filterMap_congr fun p hp => ?_
      cases p with
      | text cs => rfl
      | reference n => rfl
      | spread n => exact if_pos (hall n.value (List.mem_filterMap.mpr ⟨_, hp, rfl⟩))
    obtain ⟨j, hj⟩ : ∃ j, (inner.filterMap Piece.index?).getLast? = some j :=
      ⟨_, List.getLast?_eq_getLast_of_ne_nil hr⟩
    rw [hresult, hdecides, hj]
    simp [hall j (List.mem_of_getLast? hj), groupText, kept]
  · rw [hresult]
    cases (inner.filterMap (Piece.decides count)).getLast? with
    | none => rfl
    | some j => by_cases hj : j < count <;> simp [hj, groupText, kept]

/-- With one argument, a group for the arguments after it keeps its braces, and one whose last
reference is to that argument keeps a reference to a missing one. -/
theorem expand_group_missing :
    let n (d : Char) (h : Decimal.isDigit d = true) : Numeral := ⟨[d], by simp, by simpa using h⟩
    let spread : List Piece := [.text ", ".toList, .spread (n '1' rfl)]
    let pair : List Piece := [.reference (n '5' rfl), .text " ".toList, .reference (n '0' rfl)]
    (∀ inner ∈ [spread, pair], inner.all (·.textAll isGroupChar) = true ∧ areApart inner = true ∧
      inner.filterMap Piece.index? ≠ [] ∧ ¬ ∀ j ∈ inner.filterMap Piece.index?, j < 1) ∧
      piecesSource (braced spread) = "\x7b\x7b, $1...\x7d\x7d".toList ∧
      expand 1 (fun _ => false) (String.ofList (piecesSource (braced spread))) =
        "\x7b\x7b, \x7d\x7d" ∧
      piecesSource (braced pair) = "\x7b\x7b$5 $0\x7d\x7d".toList ∧
      expand 1 (fun _ => false) (String.ofList (piecesSource (braced pair))) = "$5 $0" := by
  intro n spread pair
  have hvalid : ∀ inner ∈ [spread, pair], inner.all (·.textAll isGroupChar) = true ∧
      areApart inner = true ∧ inner.filterMap Piece.index? ≠ [] ∧
      ¬ ∀ j ∈ inner.filterMap Piece.index?, j < 1 := by decide +kernel
  obtain ⟨hv, ha, hr, -⟩ := hvalid spread (by simp)
  obtain ⟨hv', ha', hr', -⟩ := hvalid pair (by simp)
  have hspread := (expand_group 1 (fun _ => false) spread hv ha hr).2
  have hpair := (expand_group 1 (fun _ => false) pair hv' ha' hr').2
  refine ⟨hvalid, by decide +kernel, hspread.trans ?_, by decide +kernel, hpair.trans ?_⟩
  · decide +kernel
  · decide +kernel

end CodePrinter.Template
