import CodePrinter.Proofs.CacheHistory
import CodePrinter.Proofs.Pieces
import CodePrinter.Proofs.Points
import Mathlib.Data.List.TakeDrop

/-! The nodes that mappings are recorded for.

Main statement: at every point of a pass the recorded mappings are those of the first of the located
nodes, in the order in which they are printed (`Underway.reaches`). -/
namespace CodePrinter

/-- A mapping is discarded, recorded or refused. -/
theorem Settings.kept_cases (set : Settings) (m : Mapping) :
    (set.maps = .discard ∧ set.kept m = [] ∧ set.refusal m = none) ∨
    set.maps ≠ .discard ∧ (set.kept m = [m] ∧ set.refusal m = none ∨
      set.kept m = [] ∧ set.refusal m ≠ none) := by
  unfold Settings.kept Settings.refusal
  cases set.maps with
  | discard => exact .inl ⟨rfl, rfl, rfl⟩
  | keep => exact .inr ⟨nofun, .inl ⟨rfl, rfl⟩⟩
  | checked source =>
    refine .inr ⟨nofun, ?_⟩
    by_cases hm : m.fits source = true
    · exact .inl (by simp [hm])
    · exact .inr (by simp [hm])

namespace Point

variable {set : Settings} {start x y : Point} {nodes left : List Node} {n : Node} {m : Mapping}
  {todo : List Instr}

/-- A mapping was recorded on the way to a point, by the mark that a node begins with. -/
def RecordedAt (set : Settings) (start x : Point) (n : Node) (m : Mapping) : Prop :=
  ∃ (y : Point) (loc : Location) (own rest : List Instr),
    n.loc = some loc ∧ n.instrs set = .mark loc :: own ∧ y.todo = .mark loc :: (own ++ rest) ∧
    Reaches set start y ∧ Reaches set (y.next set (own ++ rest) (.mark loc)) x ∧
    m = Pass.mappingAt (y.next set (own ++ rest) (.mark loc)).pass.page loc

theorem RecordedAt.move (h : RecordedAt set start x n m) (hxy : Move set x y) :
    RecordedAt set start y n m := by
  obtain ⟨w, loc, own, rest, hl, hn, hw, hstart, hx, hm⟩ := h
  exact ⟨w, loc, own, rest, hl, hn, hw, hstart, hx.tail hxy, hm⟩

/-- Some nodes are left to print, unless the pass was stopped. -/
def Left (set : Settings) (left : List Node) (x : Point) : Prop :=
  x.failure = none ∧ Prints set left x.todo ∨ x.failure ≠ none ∧ x.todo = []

theorem Left.goOn (h : Prints set left todo) (o : Outcome) (us : List Stroke) :
    Left set left (x.goOn todo o us) := by
  unfold Point.goOn
  cases hf : o.failure with
  | none => exact .inl ⟨rfl, h⟩
  | some failure => exact .inr ⟨by simp, rfl⟩

theorem Left.prints (h : Left set left x) (hx : x.todo ≠ []) :
    x.failure = none ∧ Prints set left x.todo := by
  rcases h with h | ⟨-, hnil⟩
  · exact h
  · exact absurd hnil hx

theorem Left.eq_nil (h : Left set left x) (hf : x.failure = none) (hx : x.todo = []) :
    left = [] := by
  rcases h with ⟨-, hprints⟩ | ⟨hne, -⟩
  · rw [hx] at hprints
    exact hprints.eq_nil
  · exact absurd hf hne

theorem prints_snippetInstrs (hasText : Bool) (value : String) (more : Bool) :
    Prints set [] (snippetInstrs hasText value more) := by
  unfold snippetInstrs
  generalize (if hasText then value else String.ofList (Text.trimStart value.toList)) = text
  dsimp only
  split
  · exact .nil
  · have htext : Prints set [] [.text text] := .ordinary rfl
    cases more with
    | true => exact htext.append (.ordinary rfl)
    | false => exact htext

/-- Of the nodes that a pass prints in order, the first ones are begun, with a mapping for each of
them unless mappings are discarded. -/
def Underway (set : Settings) (nodes : List Node) (start x : Point) : Prop :=
  x.pass.cache.Sound ∧ ∃ begun left, nodes = begun ++ left ∧ Left set left x ∧
    (set.maps ≠ .discard → List.Forall₂ (RecordedAt set start x) begun x.pass.mappings) ∧
    (set.maps = .discard → x.pass.mappings = [])

namespace Underway

/-- A move that begins no node. -/
theorem keep (h : Underway set nodes start x) (hxy : Move set x y)
    (hm : y.pass.mappings = x.pass.mappings) (hc : x.pass.cache.Sound → y.pass.cache.Sound)
    (hl : ∀ left, Left set left x → Left set left y) : Underway set nodes start y := by
  obtain ⟨hcache, begun, left, hnodes, hleft, hkept, hnone⟩ := h
  rw [Underway, hm]
  exact ⟨hc hcache, begun, left, hnodes, hl left hleft,
    fun hd => (hkept hd).imp fun _ _ hr => hr.move hxy, hnone⟩

theorem flush (h : Underway set nodes start x) : Underway set nodes start x.flush :=
  h.keep (.flush x) rfl id fun _ => id

/-- A mark begins the first of the nodes that are left. Its mapping is recorded, or it is the last
one. -/
theorem mark {loc : Location} (h : Underway set nodes start x) (hr : Reaches set start x)
    (hx : x.todo = .mark loc :: todo) :
    Underway set nodes start (x.next set todo (.mark loc)) := by
  have hxy : Move set x (x.next set todo (.mark loc)) := .step (by simp [step, hx])
  obtain ⟨hcache, begun, left, rfl, hleft, hkept, hnone⟩ := h
  have hprints := (hleft.prints (by simp [hx])).2
  rw [hx] at hprints
  obtain ⟨n, ms, own, rest, rfl, hl, hn, rfl, hrest⟩ := hprints.follows
  generalize hz : x.next set (own ++ rest) (.mark loc) = z at hxy
  generalize hm : Pass.mappingAt (x.pass.page.startLine set.indent) loc = m
  have hcache' : z.pass.cache.Sound := by
    rw [← hz, Point.next, goOn, Pass.mark_eq]
    exact hcache
  have hmappings : z.pass.mappings = x.pass.mappings ++ set.kept m := by
    rw [← hz, ← hm, Point.next, goOn, Pass.mark_eq]
  have hfailure : z.failure = set.refusal m := by
    rw [← hz, ← hm, Point.next, goOn, Pass.mark_eq]
  have hleft' : Left set ms z := by
    rw [← hz]
    exact .goOn hrest _ _
  have hold (hd : set.maps ≠ .discard) :
      List.Forall₂ (RecordedAt set start z) begun x.pass.mappings :=
    (hkept hd).imp fun _ _ hrec => hrec.move hxy
  have hnew : RecordedAt set start z n m := by
    refine ⟨x, loc, own, rest, hl, hn, hx, hr, by rw [hz]; exact .refl z, ?_⟩
    rw [← hm, Point.next, goOn, Pass.mark_eq]
  refine ⟨hcache', ?_⟩
  rw [hmappings]
  rcases set.kept_cases m with ⟨hd, hk, -⟩ | ⟨hd, ⟨hk, -⟩ | ⟨hk, hrefused⟩⟩
  · refine ⟨begun ++ [n], ms, by simp, hleft', fun hne => absurd hd hne, fun _ => ?_⟩
    rw [hk, hnone hd, List.append_nil]
  · rw [hk]
    exact ⟨begun ++ [n], ms, by simp, hleft',
      fun _ => List.rel_append (hold hd) (.cons hnew .nil), fun he => absurd he hd⟩
  · rw [← hfailure] at hrefused
    have hstopped : Left set (n :: ms) z := by
      rcases hleft' with ⟨hf, -⟩ | hstopped
      · exact absurd hf hrefused
      · exact .inr hstopped
    rw [hk, List.append_nil]
    exact ⟨begun, n :: ms, rfl, hstopped, hold, fun he => absurd he hd⟩

/-- An instruction that changes neither the mappings nor the cache. -/
theorem goOn {o : Outcome} {us : List Stroke} {i : Instr} (h : Underway set nodes start x)
    (hx : x.todo = i :: todo) (hn : x.next set todo i = x.goOn todo o us)
    (hm : o.pass.mappings = x.pass.mappings) (hc : o.pass.cache = x.pass.cache)
    (hi : ∀ left, Prints set left (i :: todo) → Prints set left todo) :
    Underway set nodes start (x.next set todo i) := by
  refine h.keep (.step (by simp [step, hx])) (by rw [hn]; exact hm) ?_ fun left hleft => ?_
  · rw [hn, Point.goOn, hc]
    exact id
  · rw [hn]
    refine .goOn (hi left ?_) _ _
    rw [← hx]
    exact (hleft.prints (by simp [hx])).2

/-- An instruction that is replaced by others. -/
theorem replaced {is : List Instr} {i : Instr} (h : Underway set nodes start x)
    (hx : x.todo = i :: todo) (hn : x.next set todo i = { x with todo := is })
    (hi : ∀ left, Prints set left (i :: todo) → Prints set left is) :
    Underway set nodes start (x.next set todo i) := by
  refine h.keep (.step (by simp [step, hx])) (by rw [hn]) (by rw [hn]; exact id)
    fun left hleft => ?_
  obtain ⟨hf, hprints⟩ := hleft.prints (by simp [hx])
  rw [hn]
  rw [hx] at hprints
  exact .inl ⟨hf, hi left hprints⟩

/-- The parts of a template are those that it has, whatever is in the cache. -/
theorem template {source : String} {fill : List Template.Part → List Instr}
    (h : Underway set nodes start x) (hx : x.todo = .template source fill :: todo) :
    Underway set nodes start (x.next set todo (.template source fill)) := by
  have hparts := h.1.fst_split source
  refine h.keep (.step (by simp [step, hx])) rfl (fun hc => hc.snd_split source)
    fun left hleft => ?_
  obtain ⟨hf, hprints⟩ := hleft.prints (by simp [hx])
  rw [hx] at hprints
  obtain ⟨nodes, ms, rfl, hfill, hrest⟩ := hprints.follows
  refine .inl ⟨hf, ?_⟩
  rw [Point.next, hparts]
  exact (hfill _).append hrest

theorem move (h : Underway set nodes start x) (hr : Reaches set start x) (hxy : Move set x y) :
    Underway set nodes start y := by
  cases hxy with
  | flush => exact h.flush
  | step hstep =>
    unfold Point.step at hstep
    split at hstep
    · cases hstep
    · rename_i i todo hx
      obtain rfl := Option.some.inj hstep
      cases i with
      | mark loc => exact h.mark hr hx
      | text | newline | indent | dedent => exact h.goOn hx rfl rfl rfl fun _ hp => hp.follows
      | problem what loc =>
        refine h.goOn hx rfl ?_ ?_ fun _ hp => hp.follows
        all_goals
          rw [Pass.problem_eq]
          split <;> rfl
      | fail what => exact h.goOn hx rfl rfl rfl fun _ hp => hp.follows.2
      | endLine =>
        refine h.replaced hx rfl fun left hp => ?_
        split
        · exact hp.follows
        · exact .append (.ordinary rfl) hp.follows
      | snippetLine value more =>
        exact h.replaced hx rfl fun left hp => (prints_snippetInstrs _ _ _).append hp.follows
      | template source fill => exact h.template hx

/-- The mappings at a point are those of the nodes that were begun on the way to it. -/
theorem reaches (h : Underway set nodes start start) (hr : Reaches set start x) :
    Underway set nodes start x := by
  induction hr with
  | refl => exact h
  | tail hstart hxy ih => exact ih.move hstart hxy

/-- A pass begins with all nodes left to print. -/
theorem initial {is : List Instr} {p : Pass} (hp : Prints set nodes is) (hc : p.cache.Sound)
    (hm : p.mappings = []) :
    Underway set nodes { todo := is, pass := p } { todo := is, pass := p } := by
  refine ⟨hc, [], nodes, rfl, .inl ⟨rfl, hp⟩, fun _ => ?_, fun _ => hm⟩
  rw [hm]
  exact .nil

end Underway

end Point

variable {set : Settings} {ok : String → Prop} {body : List Stmt}

/-- The chunks of a module are put together from its located nodes in order. -/
theorem module_pieced (hr : set.names.All ok) (hn : stmtsAllNames set ok body) :
    Pieced set ok (stmtsLocated set.names body) (moduleInstrs set body).flatten := by
  have hsplit : (splitImports body).1 ++ (splitImports body).2 = body := by
    rw [splitImports, List.span_eq_takeWhile_dropWhile, List.takeWhile_append_dropWhile]
  rw [stmtsAllNames_iff, ← hsplit, List.forall_mem_append] at hn
  obtain ⟨himports, hdecls⟩ := hn
  have hrest : ∀ decls, (∀ s ∈ decls, s.AllNames set ok) → Pieced set ok
      (stmtsLocated set.names decls)
      (decls.map fun decl => decl.instrs set ++ [.endLine, .newline]).flatten := by
    intro decls h
    induction decls with
    | nil =>
      rw [stmtsLocated]
      exact .nil
    | cons decl decls ih =>
      rw [List.forall_mem_cons] at h
      have hdecl := (decl.pieced hr h.1).followedBy (.before .endLine .newline)
      rw [stmtsLocated]
      exact hdecl.append (ih h.2)
  have hfirst := (stmts_pieced hr (splitImports body).1 (stmtsAllNames_iff.mpr himports)).followedBy
    .newline
  rw [moduleInstrs, List.flatten_cons]
  nth_rewrite 1 [← hsplit]
  rw [stmtsLocated_append]
  exact hfirst.append (hrest _ hdecls)

end CodePrinter
