import CodePrinter.Proofs.SourceMap.Writer

/-! Version 3 maps are read back.

Main statement: whatever package writes a map as documented, the segments that are read from it are
the mappings that were accepted, in order (`read?_json`). -/
namespace CodePrinter.SourceMap

variable {σ : Type}

/-- A map of a source, to which mappings were added one after the other. -/
def ofCalls (package : MapPackage σ) (file source : String) (calls : List Mapping) :
    SourceMap σ :=
  calls.foldl
    (fun map m => (map.add package m.origin.line m.origin.column m.generated.line
      m.generated.column m.name).1)
    (create package file source)

/-- The package gets every mapping as it was added, and the source with it. -/
theorem ofCalls_eq (package : MapPackage σ) (file source : String) (calls : List Mapping) :
    ofCalls package file source calls =
      { generator := package.after file source calls, source } := by
  have hfoldl : ∀ state, calls.foldl
      (fun map m => (SourceMap.add package m.origin.line m.origin.column m.generated.line
        m.generated.column m.name map).1) { generator := state, source } =
      { generator := calls.foldl (fun state m => (package.add source m state).1) state
        source } := by
    induction calls with
    | nil => intro state; rfl
    | cons m calls ih =>
      intro state
      exact ih (package.add source m state).1
  exact hfoldl (package.create file)

/-- A map takes a mapping if both of its positions are in range and the source has a name, and is
not changed by any other. What is read from it, with its source and names, are the mappings that it
took: in the order in which they came if the generated positions never went back, else sorted; one
that is equal to the one before it is left out. -/
theorem read?_json {package : MapPackage σ} (hp : package.Documented) (file source : String)
    (calls : List Mapping) (hsmall : ∀ m ∈ calls, m.Small) :
    let map := ofCalls package file source calls
    let added := calls.filter fun m => 0 < m.generated.line ∧ 0 ≤ m.generated.column ∧
      0 < m.origin.line ∧ 0 ≤ m.origin.column ∧ source ≠ ""
    (∀ originLine originColumn line column name,
      let result := map.add package originLine originColumn line column name
      (result.2 = none ↔
        0 < line ∧ 0 ≤ column ∧ 0 < originLine ∧ 0 ≤ originColumn ∧ source ≠ "") ∧
      (result.2 ≠ none → result.1 = map)) ∧
    ((added.filterMap (·.name)).eraseDups.length ≤ 0x80000000 →
      (¬ added.IsChain Mapping.InPlace → Mapping.Untied added) →
      ∃ listed : List Mapping,
        (added.IsChain Mapping.InPlace → listed = added) ∧
        (¬ added.IsChain Mapping.InPlace →
          listed.Perm added ∧ listed.Pairwise Mapping.Precedes) ∧
        Version3.read? (map.json package) =
          some ((listed.destutter (· ≠ ·)).map (Mapping.toSegment source))) := by
  intro map added
  have hmap : map = { generator := package.after file source calls, source } :=
    ofCalls_eq package file source calls
  constructor
  · intro originLine originColumn line column name result
    let m : Mapping :=
      { generated := { line, column }, origin := { line := originLine, column := originColumn }
        name }
    have hresult : result = ({ map with generator := (package.add source m map.generator).1 },
        (package.add source m map.generator).2) := by
      simp only [result, hmap]
      rfl
    rw [hresult]
    by_cases hm : m.Acceptable source
    · have haccepted := hp.accepts source m map.generator hm
      exact ⟨iff_of_true haccepted hm, fun hne => absurd haccepted hne⟩
    · rw [hp.refuses source m map.generator hm]
      exact ⟨iff_of_false nofun hm, fun _ => rfl⟩
  · intro hnames huntied
    have hwritten := hp.writes file source calls hsmall hnames
    obtain ⟨listed, hlisted, hread⟩ := hwritten.read?_eq
    rw [hmap]
    exact ⟨listed, hlisted.kept, fun h => ⟨hlisted.perm, hlisted.sorted h (huntied h)⟩, hread⟩

/-- Names and repeats among mappings that came out of order, one of them refused. -/
theorem read?_json_sorted :
    let call (line column originLine : Int) (name : Option String) : Mapping :=
      { generated := { line, column }, origin := { line := originLine, column := 8 }, name }
    let calls := [call 3 16 2 (some "b"), call 1 0 5 none, call 1 0 5 none, call 0 0 1 (some "c"),
      call 3 2 1 (some "a")]
    let map := ofCalls Version3.package "out.py" "in.fs" calls
    let added := [call 3 16 2 (some "b"), call 1 0 5 none, call 1 0 5 none, call 3 2 1 (some "a")]
    map.generator.encoded = "AAIQ;;EAJAC,cACAD" ∧ map.generator.names = ["b", "a"] ∧
    ∃ listed : List Mapping,
      (listed.Perm added ∧ listed.Pairwise Mapping.Precedes) ∧
      Version3.read? (map.json Version3.package) =
        some ((listed.destutter (· ≠ ·)).map (Mapping.toSegment "in.fs")) := by
  intro call calls map added
  have hsmall : ∀ m ∈ calls, m.Small := by
    simp [calls, call, Mapping.Small]
  have hadded : calls.filter (fun m => 0 < m.generated.line ∧ 0 ≤ m.generated.column ∧
      0 < m.origin.line ∧ 0 ≤ m.origin.column ∧ "in.fs" ≠ "") = added := by
    rfl
  have hchain : ¬ added.IsChain Mapping.InPlace := by
    simp [added, call, Mapping.InPlace, Earlier]
  have huntied : Mapping.Untied added := by
    simp [added, call, Mapping.Untied]
  have hnames : (added.filterMap (·.name)).eraseDups = ["b", "a"] := by
    simp [added, call, List.eraseDups_cons]
  have hread := (read?_json Version3.documented "out.py" "in.fs" calls hsmall).2
  simp only [hadded] at hread
  obtain ⟨listed, -, hsorted, hread⟩ := hread (by simp [hnames]) fun _ => huntied
  have hmap : map.generator = { file := "out.py", source := "in.fs", mappings := added } := by
    rfl
  have harranged : Mapping.arranged added =
      [call 1 0 5 none, call 1 0 5 none, call 3 2 1 (some "a"), call 3 16 2 (some "b")] := by
    rw [Mapping.arranged, if_neg (mt Mapping.isOrdered_iff.mp hchain)]
    simp [added, List.mergeSort, List.MergeSort.Internal.splitInTwo, List.merge, Mapping.order,
      Mapping.compareGenerated, Int.compare_eq_ite_lt, call]
  have hencoded : map.generator.encoded = "AAIQ;;EAJAC,cACAD" := by
    rw [hmap, Version3.encoded, Version3.names, Mapping.names, hnames, harranged]
    decide
  exact ⟨hencoded, by rw [hmap, Version3.names, Mapping.names, hnames], listed, hsorted hchain,
    hread⟩

end CodePrinter.SourceMap
