import CodePrinter.Proofs.SourceMap.Arrangement

/-! The package that writes version 3 maps does what its documentation says.

Main statement: it takes and refuses mappings as documented, and what it writes is a map of those
that it took (`documented`). -/
namespace CodePrinter

variable {source : String} {names : List String} {c : Cursor} {m : Mapping} {ms : List Mapping}

namespace Vlq

theorem getElem?_alphabet : ∀ d < 64, alphabet[d]? = some (base64 d) := by decide

theorem digits_map_base64 {more w : Nat} (hw : w < Nat.pow 32 (more + 1)) :
    Digits w ((digits more w).map base64) := by
  induction more generalizing w with
  | zero =>
    have hw : w < 32 := hw
    rw [digits, Nat.mod_eq_of_lt hw]
    exact .last hw (getElem?_alphabet w (by omega))
  | succ more ih =>
    rw [digits]
    split
    · rename_i h
      exact .last h (getElem?_alphabet w (by omega))
    · have hrest : w / 32 < Nat.pow 32 (more + 1) := by
        apply Nat.div_lt_of_lt_mul
        rw [Nat.mul_comm]
        exact hw
      have hmore : Digits (w % 32 + 32 * (w / 32))
          (base64 (w % 32 + 32) :: (digits more (w / 32)).map base64) :=
        .more (Nat.mod_lt w (by omega)) (getElem?_alphabet _ (by omega)) (ih hrest)
      rwa [Nat.mod_add_div] at hmore

/-- A number within 31 bits is written with the digits that it has. -/
theorem digits_encode {n : Int} (h : n.natAbs < 0x80000000) :
    Digits (2 * n.natAbs + if n < 0 then 1 else 0) (encode n) := by
  have hword : word n = 2 * n.natAbs + if n < 0 then 1 else 0 := by
    rw [word, Nat.mod_eq_of_lt (by omega)]
  have hbound : word n < Nat.pow 32 (6 + 1) := by
    have : Nat.pow 32 (6 + 1) = 0x800000000 := by decide
    rw [hword]
    split <;> omega
  rw [← hword]
  exact digits_map_base64 hbound

theorem spells_flatMap_encode {ns : List Int} (h : ∀ n ∈ ns, n.natAbs < 0x80000000) :
    Spells ns (ns.flatMap encode) := by
  induction ns with
  | nil => exact .nil
  | cons n ns ih =>
    rw [List.forall_mem_cons] at h
    exact .cons (digits_encode h.1) (ih h.2)

end Vlq

theorem Mapping.fits_iff : m.fits source = true ↔ m.Acceptable source := by
  simp [Mapping.fits, Mapping.Acceptable, and_assoc]

/-- The mapping can be written, given the names of a map. -/
structure Mapping.Writable (source : String) (names : List String) (m : Mapping) : Prop where
  acceptable : m.Acceptable source
  small : m.Small
  name : ∀ name ∈ m.name, name ∈ names

namespace Cursor

/-- The cursor of a map with some names, all of its numbers within bounds. -/
structure InRange (names : List String) (c : Cursor) : Prop where
  column : 0 ≤ c.column ∧ c.column < 0x40000000
  originLine : 0 ≤ c.originLine ∧ c.originLine < 0x40000000
  originColumn : 0 ≤ c.originColumn ∧ c.originColumn < 0x40000000
  name : 0 ≤ c.name ∧ c.name < 0x80000000

theorem nameIndex?_lt (hm : m.Writable source names) {index : Int}
    (hi : nameIndex? names m = some index) : 0 ≤ index ∧ index < names.length := by
  obtain ⟨name, hname, rfl⟩ := Option.map_eq_some_iff.mp hi
  have := List.idxOf_lt_length_of_mem (hm.name name hname)
  omega

theorem InRange.advance (hc : c.InRange names) (hn : names.length ≤ 0x80000000)
    (hm : m.Writable source names) : (c.advance names m).InRange names := by
  obtain ⟨-, hcolumn, hline, horigin, -⟩ := hm.acceptable
  obtain ⟨-, hcolumn', hline', horigin'⟩ := hm.small
  refine ⟨?_, ?_, ?_, ?_⟩ <;> simp only [Cursor.advance]
  · omega
  · omega
  · omega
  · cases hi : nameIndex? names m with
    | none => exact hc.name
    | some index =>
      have := nameIndex?_lt hm hi
      rw [Option.getD_some]
      omega

theorem InRange.toLine (hc : c.InRange names) (line : Int) : (c.toLine line).InRange names :=
  ⟨by simp [Cursor.toLine], hc.originLine, hc.originColumn, hc.name⟩

theorem segment_eq (names : List String) (c : Cursor) (m : Mapping) :
    c.segment names m = (c.numbers names m).flatMap Vlq.encode := by
  rw [segment, numbers]
  cases nameIndex? names m <;> simp

theorem natAbs_numbers (hc : c.InRange names) (hn : names.length ≤ 0x80000000)
    (hm : m.Writable source names) : ∀ n ∈ c.numbers names m, n.natAbs < 0x80000000 := by
  obtain ⟨hcolumn, hline, horigin, hname⟩ := hc
  obtain ⟨-, hcolumn', hline', horigin', -⟩ := hm.acceptable
  obtain ⟨-, hcolumn'', hline'', horigin''⟩ := hm.small
  intro n hmem
  rcases List.mem_append.mp hmem with hmem | hmem
  · simp only [List.mem_cons, List.not_mem_nil, or_false] at hmem
    rcases hmem with rfl | rfl | rfl | rfl <;> omega
  · obtain ⟨index, hi, rfl⟩ := List.mem_map.mp hmem
    have := nameIndex?_lt hm (Option.mem_toList.mp hi)
    omega

theorem spells_segment (hc : c.InRange names) (hn : names.length ≤ 0x80000000)
    (hm : m.Writable source names) : Vlq.Spells (c.numbers names m) (c.segment names m) := by
  rw [segment_eq]
  exact Vlq.spells_flatMap_encode (natAbs_numbers hc hn hm)

end Cursor

/-- Mappings whose lines never go back are written as documented, from any of them on. -/
theorem encodes_encodeMappings (hn : names.length ≤ 0x80000000) (previous : Option Mapping)
    (hc : c.InRange names) (h : (c.line :: ms.map (·.generated.line)).IsChain (· ≤ ·))
    (hms : ∀ m ∈ ms, m.Writable source names) :
    Encodes names previous c ms (encodeMappings names previous c ms) := by
  induction ms generalizing previous c with
  | nil => exact .nil
  | cons m ms ih =>
    rw [List.forall_mem_cons] at hms
    rw [List.map_cons, List.isChain_cons_cons] at h
    have hnext := ih (some m) (hc.advance hn hms.1) h.2 hms.2
    rw [encodeMappings]
    by_cases hline : m.generated.line = c.line
    · rw [if_neg (not_not_intro hline)]
      have hword := Cursor.spells_segment hc hn hms.1
      cases previous with
      | none => exact .first hline hword hnext
      | some p =>
        by_cases hp : p = m
        · subst hp
          rw [if_pos rfl]
          exact .repeated hline (ih (some p) hc (hline ▸ h.2) hms.2)
        · rw [if_neg fun he => hp (Option.some.inj he)]
          exact .next hline hp hword hnext
    · obtain ⟨steps, hsteps⟩ : ∃ steps, (m.generated.line - c.line).toNat = steps + 1 :=
        ⟨(m.generated.line - c.line).toNat - 1, by omega⟩
      rw [if_pos hline, hsteps]
      exact .newLine (by omega) (Cursor.spells_segment (hc.toLine _) hn hms.1) hnext

namespace Version3

theorem foldl_add (source : String) (calls : List Mapping) (map : Version3) :
    let added := calls.filter (Mapping.Acceptable source ·)
    calls.foldl (fun map m => (add source m map).1) map =
      { file := map.file
        source := if added = [] then map.source else source
        mappings := map.mappings ++ added } := by
  induction calls generalizing map with
  | nil => simp
  | cons m calls ih =>
    dsimp only at ih ⊢
    rw [List.foldl_cons, ih, add]
    by_cases hm : m.Acceptable source
    · rw [if_pos (Mapping.fits_iff.mpr hm), List.filter_cons_of_pos (by simpa using hm)]
      simp
    · rw [if_neg (mt Mapping.fits_iff.mp hm), List.filter_cons_of_neg (by simpa using hm)]

theorem texts?_strings (texts : List String) :
    (Json.array (texts.map .string)).texts? = some texts := by
  rw [Json.texts?]
  induction texts with
  | nil => rfl
  | cons text texts ih =>
    rw [List.map_cons, List.mapM_cons, ih]
    rfl

/-- A map whose mappings can all be written is written as documented. -/
theorem written_toJson {map : Version3} (hn : map.names.length ≤ 0x80000000)
    (hm : ∀ m ∈ map.mappings, m.Writable map.source map.names) :
    Written map.source map.mappings map.toJson := by
  have hchain : ((1 : Int) :: (Mapping.arranged map.mappings).map (·.generated.line)).IsChain
      (· ≤ ·) := by
    rw [List.isChain_cons, List.isChain_map]
    refine ⟨?_, Mapping.isChain_line_arranged map.mappings⟩
    intro line hline
    obtain ⟨m, h, rfl⟩ := List.mem_map.mp (List.mem_of_mem_head? hline)
    exact (hm m ((Mapping.perm_arranged map.mappings).mem_iff.mp h)).acceptable.1
  have hstart : ({} : Cursor).InRange map.names := ⟨by simp, by simp, by simp, by simp⟩
  have hencodes : Encodes map.names none {} (Mapping.arranged map.mappings)
      (encodeMappings map.names none {} (Mapping.arranged map.mappings)) :=
    encodes_encodeMappings hn none hstart hchain
      fun m h => hm m ((Mapping.perm_arranged map.mappings).mem_iff.mp h)
  refine ⟨?_, texts?_strings map.names, _, _, Mapping.listed_arranged map.mappings, hencodes, rfl⟩
  have hsources : map.sources = if map.mappings = [] then [] else [map.source] := by
    simp [sources]
  rw [← hsources]
  exact texts?_strings map.sources

/-- The package does what its documentation says. -/
theorem documented : package.Documented where
  accepts source m map hm := by
    change (add source m map).2 = none
    rw [add, if_pos (Mapping.fits_iff.mpr hm)]
  refuses source m map hm := by
    change add source m map = _
    rw [add, if_neg (mt Mapping.fits_iff.mp hm)]
  writes file source calls hsmall := by
    intro added hnames
    have hmap : package.after file source calls =
        { file, source := if added = [] then "" else source, mappings := added } :=
      foldl_add source calls { file }
    have hwritable : ∀ m ∈ added, m.Writable source (added.filterMap (·.name)).eraseDups := by
      intro m hm
      obtain ⟨hcall, hacceptable⟩ := List.mem_filter.mp hm
      refine ⟨of_decide_eq_true hacceptable, hsmall m hcall, fun name hname => ?_⟩
      rw [List.mem_eraseDups]
      exact List.mem_filterMap.mpr ⟨m, hm, hname⟩
    rw [hmap]
    by_cases hempty : added = []
    · rw [hempty]
      exact ⟨rfl, rfl, [], [], ⟨fun _ => rfl, .refl [], fun h => absurd .nil h⟩, .nil, rfl⟩
    · rw [if_neg hempty]
      exact @written_toJson { file, source, mappings := added } hnames hwritable

end Version3

end CodePrinter
