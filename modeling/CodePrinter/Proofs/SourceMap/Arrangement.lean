import CodePrinter.Proofs.SourceMap.Format

/-! The order of the mappings of a map.

Main statement: mappings that were added in order stay as they are, and others are sorted
(`listed_arranged`). -/
namespace CodePrinter

theorem isLE_then_iff {a b : Int} {o : Ordering} {next : Prop} (h : o.isLE = true ↔ next) :
    ((compare a b).then o).isLE = true ↔ Earlier a b next := by
  rw [Earlier, Ordering.isLE_then_iff_or, Int.compare_eq_lt, Std.compare_eq_iff_eq, h]

theorem Text.isLE_compareLists {as bs : List Nat} :
    (compareLists as bs).isLE = true ↔ as = bs ∨ List.Lex (· < ·) as bs := by
  fun_induction compareLists as bs with
  | case1 => simp
  | case2 b bs => simp
  | case3 a as => simp
  | case4 a as b bs ih =>
    rw [Ordering.isLE_then_iff_or, Nat.compare_eq_lt, Std.compare_eq_iff_eq, ih]
    simp only [List.cons.injEq, List.cons_lex_cons_iff]
    grind

namespace Mapping

variable {a b : Mapping} {ms : List Mapping}

theorem isLE_compareGenerated : (compareGenerated a b).isLE = true ↔ a.InPlace b :=
  isLE_then_iff Int.isLE_compare

theorem isOrdered_iff : isOrdered ms = true ↔ ms.IsChain InPlace := by
  fun_induction isOrdered ms with
  | case1 a b ms ih => rw [Bool.and_eq_true, isLE_compareGenerated, ih, List.isChain_cons_cons]
  | case2 ms h =>
    match ms with
    | [] => simp
    | [m] => simp
    | a :: b :: ms => exact absurd rfl (h a b ms)

theorem compareLists_eq (as bs : List Nat) : Text.compareLists as bs = compare as bs := by
  change _ = List.compareLex compare as bs
  fun_induction Text.compareLists as bs with
  | case1 | case2 | case3 => rfl
  | case4 a as b bs ih => rw [List.compareLex_cons_cons, ih]

theorem compareNames_eq (a b : Option String) :
    compareNames a b = compare (a.map Text.units) (b.map Text.units) := by
  match a, b with
  | none, none | none, some _ | some _, none => rfl
  | some a, some b => exact compareLists_eq (Text.units a) (Text.units b)

/-- The order of mappings as a chain of comparisons, each deciding between what is equal so far. -/
theorem order_eq : order =
    compareLex (compareLex (compareOn (·.generated.line)) (compareOn (·.generated.column)))
      (compareLex (compareOn (·.origin.line)) (compareLex (compareOn (·.origin.column))
        (compareOn (·.name.map Text.units)))) := by
  funext a b
  simp only [order, compareLex, compareOn, compareGenerated, compareNames_eq]

theorem transCmp_order : Std.TransCmp order := by
  rw [order_eq]
  infer_instance

theorem namesInOrder_of_isLE {a b : Option String} (h : (compareNames a b).isLE = true)
    (hsome : a.isSome = b.isSome) : NamesInOrder a b := by
  match a, b with
  | none, none => exact .none
  | none, some _ | some _, none => cases hsome
  | some a, some b =>
    rcases Text.isLE_compareLists.mp h with h | h
    · exact .same h
    · exact .lt h

theorem precedes_of_isLE (h : (order a b).isLE = true)
    (hname : a.generated = b.generated → a.origin = b.origin →
      a.name.isSome = b.name.isSome) : a.Precedes b := by
  have heq {p q : Position} (hl : p.line = q.line) (hc : p.column = q.column) : p = q := by
    cases p
    simp_all
  rw [order, compareGenerated, Ordering.then_assoc,
    isLE_then_iff (isLE_then_iff (isLE_then_iff (isLE_then_iff Iff.rfl)))] at h
  rcases h with h | ⟨hgl, h | ⟨hgc, h | ⟨hol, h | ⟨hoc, h⟩⟩⟩⟩
  · exact .inl h
  · exact .inr ⟨hgl, .inl h⟩
  · exact .inr ⟨hgl, .inr ⟨hgc, .inl h⟩⟩
  · exact .inr ⟨hgl, .inr ⟨hgc, .inr ⟨hol, .inl h⟩⟩⟩
  · have hnames := namesInOrder_of_isLE h (hname (heq hgl hgc) (heq hol hoc))
    exact .inr ⟨hgl, .inr ⟨hgc, .inr ⟨hol, .inr ⟨hoc, hnames⟩⟩⟩⟩

theorem arranged_eq (h : ms.IsChain InPlace) : arranged ms = ms := by
  rw [arranged, if_pos (isOrdered_iff.mpr h)]

theorem perm_arranged (ms : List Mapping) : (arranged ms).Perm ms := by
  unfold arranged
  split
  · exact .refl ms
  · exact List.mergeSort_perm ms _

theorem pairwise_order_arranged (h : ¬ ms.IsChain InPlace) :
    (arranged ms).Pairwise fun a b => (order a b).isLE = true := by
  have htrans := transCmp_order
  rw [arranged, if_neg (mt isOrdered_iff.mp h)]
  refine List.pairwise_mergeSort (fun _ _ _ => Std.TransCmp.isLE_trans) ?_ ms
  intro a b
  have hge : (order a b).isGE = true ↔ (order b a).isLE = true := Std.OrientedCmp.isGE_iff_isLE
  rw [Bool.or_eq_true, ← hge]
  cases order a b <;> simp

/-- Mappings that were not added in order are sorted. -/
theorem pairwise_arranged (h : ¬ ms.IsChain InPlace) (hu : Untied ms) :
    (arranged ms).Pairwise Precedes := by
  refine (pairwise_order_arranged h).imp_of_mem ?_
  intro a b ha hb hle
  have hmem {m : Mapping} (hm : m ∈ arranged ms) : m ∈ ms := (perm_arranged ms).mem_iff.mp hm
  exact precedes_of_isLE hle (hu a (hmem ha) b (hmem hb))

theorem listed_arranged (ms : List Mapping) : Listed ms (arranged ms) :=
  ⟨arranged_eq, perm_arranged ms, pairwise_arranged⟩

/-- The generated lines of the mappings of a map never go back. -/
theorem isChain_line_arranged (ms : List Mapping) :
    (arranged ms).IsChain fun a b => a.generated.line ≤ b.generated.line := by
  by_cases h : ms.IsChain InPlace
  · rw [arranged_eq h]
    exact h.imp fun _ _ => Earlier.le
  · refine (pairwise_order_arranged h).isChain.imp ?_
    intro a b hle
    rw [order, compareGenerated, Ordering.then_assoc, isLE_then_iff Iff.rfl] at hle
    exact hle.le

end Mapping

end CodePrinter
