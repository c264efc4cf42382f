import CodePrinter.Proofs.OneLine
import CodePrinter.Proofs.Python.Spelling

/-! Main statement: an escaped text between quotes is read back whole, and no further than to the
second quote, whatever stands after it. -/
namespace CodePrinter.Python

/-- The characters that the rest of a literal brings the reader to, and what is left after its
closing quote. -/
def stringFrom? (s : Scan) : List Char → Option (List Char × List Char)
  | [] => none
  | c :: rest =>
    (s.step c).bind fun t =>
      match t.pending with
      | .closed cs => some (cs, rest)
      | _ => stringFrom? t rest

/-- The string that the literal at the beginning of a text stands for, and the text after it. -/
def string? (text : String) : Option (String × String) :=
  match text.toList with
  | '"' :: cs =>
    (stringFrom? { pending := .quoted [] } cs).map fun (value, rest) =>
      (String.ofList value, String.ofList rest)
  | _ => none

example : string? "\"\\x41\\u00e9b\\\\\" + \"c\"" = some ("Aéb\\", " + \"c\"") := by decide +kernel

def Pending.isClosed : Pending → Bool
  | .closed _ => true
  | _ => false

variable {s t : Scan} {c : Char} {ds : List Char}

theorem stringFrom?_of_open (hs : s.step c = some t) (ht : t.pending.isClosed = false)
    (rest : List Char) : stringFrom? s (c :: rest) = stringFrom? t rest := by
  rw [stringFrom?, hs, Option.bind_some]
  cases hp : t.pending with
  | closed cs => simp [hp, Pending.isClosed] at ht
  | _ => rfl

theorem start_tokens (h : s.start c = some t) : t.tokens = s.tokens := by
  unfold Scan.start at h
  grind

theorem settle_start_tokens (h : s.settle.bind (·.start c) = some t) :
    ∃ ts, s.pending.tokens? = some ts ∧ t.tokens = s.tokens ++ ts := by
  obtain ⟨u, hu, hstart⟩ := Option.bind_eq_some_iff.mp h
  obtain ⟨ts, hts, rfl⟩ := Option.map_eq_some_iff.mp hu
  exact ⟨ts, hts, start_tokens hstart⟩

/-- What has been read stays, and a closed literal is a token by the next character. -/
theorem step_tokens (h : s.step c = some t) :
    s.tokens.length + s.pending.isClosed.toNat ≤ t.tokens.length := by
  have hsettle := settle_start_tokens (s := s) (t := t) (c := c)
  unfold Scan.step at h
  cases hp : s.pending with
  | idle =>
    rw [hp] at h
    simp [start_tokens h, Pending.isClosed]
  | closed cs =>
    rw [hp] at h
    dsimp only at h
    split at h
    · cases h
    · obtain ⟨ts, hts, ht⟩ := hsettle h
      obtain rfl : [Token.string (String.ofList cs)] = ts := by
        simpa [hp, Pending.tokens?] using hts
      simp [ht, Pending.isClosed]
  | coded cs left value =>
    rw [hp] at h
    obtain ⟨digit, -, h⟩ := Option.bind_eq_some_iff.mp h
    simp only [Pending.isClosed, Bool.toNat_false, Nat.add_zero]
    grind
  | word cs | int cs | symbol cs | quoted cs | escaped cs =>
    rw [hp] at h
    simp only [Pending.isClosed, Bool.toNat_false, Nat.add_zero]
    grind

theorem foldlM_tokens (h : ds.foldlM Scan.step s = some t) :
    s.tokens.length ≤ t.tokens.length := by
  induction ds generalizing s with
  | nil => cases h; exact Nat.le_refl _
  | cons c ds ih =>
    obtain ⟨u, hu, hrest⟩ := Option.bind_eq_some_iff.mp h
    have hstep := step_tokens hu
    have hrun := ih hrest
    omega

/-- A text that brings no token to its end has no end of a literal in it. -/
theorem stringFrom?_append (h : ds.foldlM Scan.step s = some t)
    (hlength : t.tokens.length = s.tokens.length) (ht : t.pending.isClosed = false)
    (rest : List Char) : stringFrom? s (ds ++ rest) = stringFrom? t rest := by
  induction ds generalizing s with
  | nil => cases h; rfl
  | cons c ds ih =>
    obtain ⟨u, hu, hrest⟩ := Option.bind_eq_some_iff.mp h
    have hstep := step_tokens hu
    have hrun := foldlM_tokens hrest
    have hopen : u.pending.isClosed = false := by
      cases ds with
      | nil => cases hrest; exact ht
      | cons d ds =>
        obtain ⟨v, hv, hmore⟩ := Option.bind_eq_some_iff.mp hrest
        have hnext := step_tokens hv
        have hend := foldlM_tokens hmore
        rw [← Bool.toNat_eq_zero]
        omega
    rw [List.cons_append, stringFrom?_of_open hu hopen]
    exact ih hrest (by omega)

theorem string?_escape (s rest : String) :
    string? ("\"" ++ Text.escape s ++ "\"" ++ rest) = some (s, rest) ∧
      ∀ c ∈ (Text.escape s).toList, 0x20 ≤ c.toNat ∧ c.toNat ≤ 0x7E := by
  refine ⟨?_, fun c hc => Text.printable_of_mem_escape hc⟩
  have htext : ("\"" ++ Text.escape s ++ "\"" ++ rest).toList =
      '"' :: ((Text.escape s).toList ++ '"' :: rest.toList) := by
    simp
  have hread : (Text.escape s).toList.foldlM Scan.step { pending := .quoted [] } =
      some { pending := .quoted s.toList } := by
    rw [Text.escape, String.toList_ofList]
    exact foldlM_escape {} [] s.toList
  have hclose : stringFrom? { pending := .quoted s.toList } ('"' :: rest.toList) =
      some (s.toList, rest.toList) := by
    simp [stringFrom?, Scan.step]
  have hwhole := (stringFrom?_append hread rfl rfl ('"' :: rest.toList)).trans hclose
  simp [string?, htext, hwhole]

end CodePrinter.Python
