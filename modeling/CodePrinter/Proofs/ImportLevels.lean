import CodePrinter.ImportPath
import Mathlib.Data.List.TakeDrop

/-! The package levels that relative references name.

Main statement: a reference that begins with dot segments names one level more than it has parents,
and one more for each further segment that stays in its directory (`dotted_relative`). -/
namespace CodePrinter.ImportPath

/-- A segment that stays in its directory, or leads to the parent of it. -/
inductive Move where
  | stay
  | up
  deriving DecidableEq

def Move.source : Move → List Char
  | .stay => ['.']
  | .up => ['.', '.']

/-- Segments with slashes between them, and perhaps some at the end. -/
inductive Joined : List (List Char) → List Char → Prop where
  | last (segment : List Char) (slashes : Nat) :
    Joined [segment] (segment ++ List.replicate slashes '/')
  | cons (segment : List Char) (slashes : Nat) {segments : List (List Char)} {text : List Char} :
    Joined segments text →
    Joined (segment :: segments) (segment ++ '/' :: (List.replicate slashes '/' ++ text))

/-- A segment that does not begin with a dot. -/
def IsOrdinary (segment : List Char) : Prop :=
  '/' ∉ segment ∧ ∃ c cs, segment = c :: cs ∧ c ≠ '.'

/-- A file name without its extension, if it has one. -/
inductive Stem : List Char → List Char → Prop where
  | dropped {extension : List Char} (stem : List Char) (hne : extension ≠ [])
    (h : ∀ c ∈ extension, isAlphanumeric c = true) : Stem (stem ++ '.' :: extension) stem
  | kept {file : List Char}
    (h : ∀ stem extension, file = stem ++ '.' :: extension → extension ≠ [] →
      ¬ ∀ c ∈ extension, isAlphanumeric c = true) : Stem file file

/-- Segments, the last of them without its extension. -/
def Stems (names stems : List (List Char)) : Prop :=
  names = [] ∧ stems = [] ∨
    ∃ folders file stem, names = folders ++ [file] ∧ stems = folders ++ [stem] ∧ Stem file stem

section Segments

variable {segment text : List Char}

theorem segments_slashes (n : Nat) (text : List Char) :
    segments (List.replicate n '/' ++ text) = segments text := by
  induction n with
  | zero => rfl
  | succ n ih =>
    rw [List.replicate_succ, List.cons_append, segments, ih]

theorem segments_cons {c d : Char} {first : List Char} {rest : List (List Char)} (hc : c ≠ '/')
    (hd : d ≠ '/') (h : segments (d :: text) = first :: rest) :
    segments (c :: d :: text) = (c :: first) :: rest := by
  rw [segments]
  · rw [h]
  · exact hc
  · exact hd

/-- A segment goes up to the next slash. -/
theorem segments_append (hne : segment ≠ []) (h : '/' ∉ segment)
    (htext : ∀ c ∈ text.head?, c = '/') :
    segments (segment ++ text) = segment :: segments text := by
  induction segment with
  | nil => exact absurd rfl hne
  | cons c cs ih =>
    have hc : c ≠ '/' := fun he => h (by simp [he])
    cases cs with
    | nil =>
      cases text with
      | nil =>
        change segments [c] = [[c]]
        rw [segments]
        exact hc
      | cons d text =>
        obtain rfl := htext d rfl
        have hslash : segments ('/' :: text) = segments text := by rw [segments]
        rw [hslash, List.singleton_append, segments]
        exact hc
    | cons d ds =>
      have hd : d ≠ '/' := fun he => h (by simp [he])
      exact segments_cons hc hd (ih (by simp) fun hm => h (List.mem_cons_of_mem c hm))

/-- What is put together with slashes is taken apart at them. -/
theorem Joined.segments_eq {parts : List (List Char)} (h : Joined parts text)
    (hparts : ∀ s ∈ parts, s ≠ [] ∧ '/' ∉ s) : segments text = parts := by
  induction h with
  | last segment slashes =>
    obtain ⟨hne, hslash⟩ := hparts segment (by simp)
    have hend := segments_slashes slashes []
    rw [List.append_nil] at hend
    rw [segments_append hne hslash, hend]
    · rfl
    · intro c hc
      exact List.eq_of_mem_replicate (List.mem_of_mem_head? hc)
  | cons segment slashes _ ih =>
    obtain ⟨hne, hslash⟩ := hparts segment (by simp)
    rw [segments_append hne hslash (by simp), segments, segments_slashes,
      ih fun s hs => hparts s (List.mem_cons_of_mem segment hs)]

end Segments

section Levels

variable {names : List (List Char)}

theorem IsOrdinary.ne_source {segment : List Char} (h : IsOrdinary segment) (m : Move) :
    segment ≠ m.source := by
  obtain ⟨-, c, cs, rfl, hc⟩ := h
  cases m <;> simp [Move.source, hc]

/-- Names do not change the level. -/
theorem level_names (start : Nat) (h : ∀ s ∈ names, IsOrdinary s) :
    level start names = (start, names) := by
  cases names with
  | nil => rfl
  | cons s names =>
    have hs := h s (by simp)
    rw [level]
    · exact fun rest he => hs.ne_source .stay (List.cons.inj he).1
    · exact fun rest he => hs.ne_source .up (List.cons.inj he).1

/-- After the first segment each one is a level, whether it stays or leads up. -/
theorem level_moves (start : Nat) (moves : List Move) (h : ∀ s ∈ names, IsOrdinary s) :
    level (start + 1) (moves.map Move.source ++ names) = (start + 1 + moves.length, names) := by
  induction moves generalizing start with
  | nil => exact level_names (start + 1) h
  | cons m moves ih =>
    have hstep : level (start + 1) ((m :: moves).map Move.source ++ names) =
        level (start + 1 + 1) (moves.map Move.source ++ names) := by
      cases m <;> simp [Move.source, level]
    rw [hstep, ih (start + 1), List.length_cons]
    congr 1
    omega

theorem length_eq_count (moves : List Move) :
    moves.length = moves.count .up + moves.count .stay := by
  induction moves with
  | nil => rfl
  | cons m moves ih => cases m <;> simp [ih] <;> omega

/-- One level more than there are parents, and one for each segment after the first that stays. -/
theorem level_relative (first : Move) (moves : List Move) (h : ∀ s ∈ names, IsOrdinary s) :
    level 0 ((first :: moves).map Move.source ++ names) =
      (1 + (first :: moves).count .up + moves.count .stay, names) := by
  have hlength := length_eq_count moves
  cases first with
  | stay =>
    have hstep := level_moves 0 moves h
    simp only [List.map_cons, List.cons_append, Move.source, level]
    rw [hstep, hlength]
    congr 1
    simp
    omega
  | up =>
    have hstep := level_moves 1 moves h
    simp only [List.map_cons, List.cons_append, Move.source, level, if_true]
    rw [hstep, hlength]
    congr 1
    simp
    omega

end Levels

section Names

variable {stem extension : List Char}

theorem dropExtension_append (stem : List Char) (hne : extension ≠ [])
    (h : ∀ c ∈ extension, isAlphanumeric c = true) :
    dropExtension (stem ++ '.' :: extension) = stem := by
  have hreverse : (stem ++ '.' :: extension).reverse =
      extension.reverse ++ '.' :: stem.reverse := by simp
  have hall : ∀ c ∈ extension.reverse, isAlphanumeric c = true := by simpa using h
  have hspan : (stem ++ '.' :: extension).reverse.span isAlphanumeric =
      (extension.reverse, '.' :: stem.reverse) := by
    rw [List.span_eq_takeWhile_dropWhile, hreverse, List.takeWhile_append_of_pos hall,
      List.dropWhile_append_of_pos hall]
    simp [isAlphanumeric]
  obtain ⟨c, cs, hc⟩ := List.exists_cons_of_ne_nil (List.reverse_ne_nil_iff.mpr hne)
  rw [dropExtension, hspan, hc]
  exact List.reverse_reverse stem

theorem stem_dropExtension (file : List Char) : Stem file (dropExtension file) := by
  by_cases hx : ∃ stem extension, file = stem ++ '.' :: extension ∧ extension ≠ [] ∧
      ∀ c ∈ extension, isAlphanumeric c = true
  · obtain ⟨stem, extension, rfl, hne, h⟩ := hx
    rw [dropExtension_append stem hne h]
    exact .dropped stem hne h
  · have hfile : dropExtension file = file := by
      unfold dropExtension
      split
      · rename_i c cs stem hspan
        rw [List.span_eq_takeWhile_dropWhile, Prod.mk.injEq] at hspan
        obtain ⟨htake, hdrop⟩ := hspan
        have hsplit := List.takeWhile_append_dropWhile (p := isAlphanumeric) (l := file.reverse)
        rw [htake, hdrop] at hsplit
        refine absurd ⟨stem.reverse, (c :: cs).reverse, ?_, by simp, ?_⟩ hx
        · rw [← List.reverse_reverse file, ← hsplit]
          simp
        · intro d hd
          rw [List.mem_reverse, ← htake] at hd
          exact List.all_eq_true.mp List.all_takeWhile d hd
      · rfl
    rw [hfile]
    exact .kept fun stem extension he hne h => hx ⟨stem, extension, he, hne, h⟩

theorem stems_moduleNames (names : List (List Char)) :
    ∃ stems, Stems names stems ∧ moduleNames names = stems.map identifier := by
  induction names with
  | nil => exact ⟨[], .inl ⟨rfl, rfl⟩, rfl⟩
  | cons s names ih =>
    obtain ⟨stems, hstems, hnames⟩ := ih
    cases names with
    | nil => exact ⟨[dropExtension s], .inr ⟨[], s, _, rfl, rfl, stem_dropExtension s⟩, rfl⟩
    | cons t names =>
      refine ⟨s :: stems, .inr ?_, by rw [moduleNames, hnames, List.map_cons]; simp⟩
      obtain ⟨hnil, -⟩ | ⟨folders, file, stem, he, rfl, hstem⟩ := hstems
      · cases hnil
      · exact ⟨s :: folders, file, stem, by rw [he]; rfl, rfl, hstem⟩

end Names

/-- The dots of a relative reference are one more than its parents, and one more for each segment
after the first that stays in its directory. They are as many as its parents ask for if and only if
no such segment follows the first. -/
theorem dotted_relative (first : Move) (moves : List Move) {names : List (List Char)}
    (hnames : ∀ s ∈ names, IsOrdinary s) {path : String}
    (hpath : Joined ((first :: moves).map Move.source ++ names) path.toList)
    (hslash : '/' ∈ path.toList) :
    ∃ stems, Stems names stems ∧
      let parents := (first :: moves).count .up
      let module := ['.'].intercalate (stems.map (·.map fun c => if c = '-' then '_' else c))
      (dotted path).toList =
        List.replicate (1 + parents + moves.count .stay) '.' ++ module ∧
      ((dotted path).toList = List.replicate (1 + parents) '.' ++ module ↔ .stay ∉ moves) := by
  have hparts : ∀ s ∈ (first :: moves).map Move.source ++ names, s ≠ [] ∧ '/' ∉ s := by
    rw [List.forall_mem_append]
    constructor
    · intro s hs
      obtain ⟨m, -, rfl⟩ := List.mem_map.mp hs
      cases m <;> decide
    · intro s hs
      obtain ⟨hslash, c, cs, rfl, -⟩ := hnames s hs
      exact ⟨by simp, hslash⟩
  obtain ⟨stems, hstems, hmodule⟩ := stems_moduleNames names
  refine ⟨stems, hstems, ?_⟩
  intro parents module
  have hdotted : (dotted path).toList =
      List.replicate (1 + parents + moves.count .stay) '.' ++ module := by
    rw [dotted, if_pos hslash, hpath.segments_eq hparts, level_relative first moves hnames]
    simp only [String.toList_ofList, hmodule]
    rfl
  refine ⟨hdotted, ?_⟩
  rw [hdotted, List.append_left_inj, List.replicate_inj, ← List.count_eq_zero]
  constructor
  · rintro ⟨hcount, -⟩
    omega
  · intro hzero
    exact ⟨by omega, .inr rfl⟩

/-- A single dot after the first segment leads to another package. -/
theorem dotted_relative_stays :
    let path := "./..//./my-lib/a.b-c/file.d.ts"
    let names := ["my-lib", "a.b-c", "file.d.ts"].map String.toList
    (∀ s ∈ names, IsOrdinary s) ∧
      Joined ([Move.stay, .up, .stay].map Move.source ++ names) path.toList ∧
      '/' ∈ path.toList ∧ dotted path = "...my_lib.a.b_c.file.d" ∧
      ∃ stems, Stems names stems ∧ (dotted path).toList ≠
        List.replicate 2 '.' ++
          ['.'].intercalate (stems.map (·.map fun c => if c = '-' then '_' else c)) := by
  intro path names
  have hnames : ∀ s ∈ names, IsOrdinary s := by
    intro s hs
    simp only [names, List.map_cons, List.map_nil, List.mem_cons, List.not_mem_nil, or_false] at hs
    obtain rfl | rfl | rfl := hs <;> exact ⟨by decide, _, _, rfl, by decide⟩
  have hpath : Joined ([Move.stay, .up, .stay].map Move.source ++ names) path.toList := by
    have hfolders := Joined.cons "my-lib".toList 0
      (.cons "a.b-c".toList 0 (.last "file.d.ts".toList 0))
    have hmoves := Joined.cons Move.stay.source 0
      (.cons Move.up.source 1 (.cons Move.stay.source 0 hfolders))
    refine Eq.mp (congrArg (Joined _) ?_) hmoves
    decide
  have hslash : '/' ∈ path.toList := by decide
  obtain ⟨stems, hstems, -, hiff⟩ := dotted_relative .stay [.up, .stay] hnames hpath hslash
  refine ⟨hnames, hpath, hslash, by decide, stems, hstems, ?_⟩
  intro hdotted
  exact absurd (hiff.mp hdotted) (by decide)

end CodePrinter.ImportPath
