import CodePrinter.Proofs.Runs

/-! The store of split templates over a history of calls.

Main statement: after any calls the store holds the last texts that it missed, each with its own
parts, so that nothing that is printed depends on what was printed before (`cache_transparent`). -/
namespace CodePrinter

namespace Template.Cache

variable {c : Cache} {text : String} {texts : List String}

/-- Every entry holds the parts of its text. -/
def Sound (c : Cache) : Prop := ∀ e ∈ c.entries, e.2 = Template.split e.1

theorem sound_empty : Sound {} := by simp [Sound]

theorem mem_of_find? {parts : List Part} (h : c.find? text = some parts) :
    (text, parts) ∈ c.entries := by
  obtain ⟨before, after, he, -⟩ := List.lookup_eq_some_iff.mp h
  simp [he]

theorem notMem_of_find? (h : c.find? text = none) : text ∉ c.entries.map Prod.fst := by
  intro hm
  obtain ⟨e, he, rfl⟩ := List.mem_map.mp hm
  have hne := List.lookup_eq_none_iff.mp h e he
  simp at hne

theorem split_of_hit {parts : List Part} (h : c.find? text = some parts) :
    c.split text = (parts, c) := by
  simp [split, h]

theorem split_of_miss (h : c.find? text = none) :
    c.split text = (Template.split text, c.insert text (Template.split text)) := by
  simp [split, h]

theorem Sound.fst_split (h : c.Sound) (text : String) : (c.split text).1 = Template.split text := by
  cases hf : c.find? text with
  | some parts =>
    rw [split_of_hit hf]
    exact h _ (mem_of_find? hf)
  | none => rw [split_of_miss hf]

theorem Sound.snd_split (h : c.Sound) (text : String) : (c.split text).2.Sound := by
  cases hf : c.find? text with
  | some parts => rwa [split_of_hit hf]
  | none =>
    rw [split_of_miss hf]
    intro e he
    rcases List.mem_append.mp he with he | he
    · split at he
      · exact h e (List.mem_of_mem_drop he)
      · exact h e he
    · obtain rfl := List.mem_singleton.mp he
      rfl

/-- The last texts of a list, as many as the store has room for. -/
def newest (texts : List String) : List String := texts.drop (texts.length - limit)

/-- The store holds the last texts of a list, each once and with its parts. -/
structure Holds (c : Cache) (texts : List String) : Prop where
  entries : c.entries = (newest texts).map fun t => (t, Template.split t)
  nodup : (newest texts).Nodup

theorem holds_empty (misses : Nat) : Holds { misses } [] := ⟨rfl, List.nodup_nil⟩

namespace Holds

theorem keys (h : c.Holds texts) : c.entries.map Prod.fst = newest texts := by
  simp [h.entries, Function.comp_def]

theorem size (h : c.Holds texts) : c.size = (newest texts).length := by
  simp [Cache.size, h.entries]

theorem size_le (h : c.Holds texts) : c.size ≤ limit := by
  rw [h.size, newest, List.length_drop]
  omega

theorem sound (h : c.Holds texts) : c.Sound := by
  intro e he
  rw [h.entries] at he
  obtain ⟨t, -, rfl⟩ := List.mem_map.mp he
  rfl

/-- A full store drops the oldest of its texts for a new one. -/
theorem newest_append (h : c.Holds texts) (text : String) :
    newest (texts ++ [text]) =
      (if limit ≤ c.size then (newest texts).drop 1 else newest texts) ++ [text] := by
  have hsize := h.size
  rw [newest, List.length_drop] at hsize
  by_cases hfull : limit ≤ c.size
  · have hdrop : texts.length + 1 - limit = texts.length - limit + 1 := by omega
    have hle : texts.length - limit + 1 ≤ texts.length := by
      have : 0 < limit := by decide
      omega
    rw [if_pos hfull, newest, newest, List.length_append, List.length_singleton, hdrop,
      List.drop_append_of_le_length hle, List.drop_drop]
  · have hdrop : texts.length + 1 - limit = 0 ∧ texts.length - limit = 0 := by omega
    rw [if_neg hfull, newest, newest, List.length_append, List.length_singleton, hdrop.1, hdrop.2,
      List.drop_zero, List.drop_zero]

theorem insert (h : c.Holds texts) (hf : c.find? text = none) :
    (c.insert text (Template.split text)).Holds (texts ++ [text]) := by
  have hnew : text ∉ newest texts := by
    rw [← h.keys]
    exact notMem_of_find? hf
  constructor
  · rw [h.newest_append, Cache.insert, h.entries]
    split <;> simp
  · rw [h.newest_append]
    have hkept : (if limit ≤ c.size then (newest texts).drop 1 else newest texts).Sublist
        (newest texts) := by
      split
      · exact List.drop_sublist 1 _
      · exact List.Sublist.refl _
    refine List.nodup_append.mpr ⟨h.nodup.sublist hkept, by simp, ?_⟩
    rintro t ht u hu rfl
    obtain rfl := List.mem_singleton.mp hu
    exact hnew (hkept.subset ht)

end Holds

/-- The texts among some that are not in the store when they are looked up in turn. -/
def missed (c : Cache) : List String → List String
  | [] => []
  | text :: texts =>
    (if (c.find? text).isNone then [text] else []) ++ missed (c.split text).2 texts

/-- Looking up a text adds it to those that were missed, if it was. -/
theorem Holds.split (h : c.Holds texts) (text : String) :
    (c.split text).2.Holds (texts ++ if (c.find? text).isNone then [text] else []) := by
  cases hf : c.find? text with
  | some parts =>
    rw [split_of_hit hf]
    simpa using h
  | none =>
    rw [split_of_miss hf]
    exact h.insert hf

theorem Holds.lookUp (h : c.Holds texts) (more : List String) :
    (more.foldl (fun c text => (c.split text).2) c).Holds (texts ++ c.missed more) := by
  induction more generalizing c texts with
  | nil => simpa [missed] using h
  | cons text more ih =>
    rw [List.foldl_cons, missed, ← List.append_assoc]
    exact ih (h.split text)

end Template.Cache

/-! What a run looks up. -/

mutual

def Instr.lookups (set : Settings) : Instr → Pass → List String
  | .template source fill, p =>
    source :: lookups set (fill (p.cache.split source).1)
      { p with cache := (p.cache.split source).2 }
  | _, _ => []

/-- The texts that a run looks up in the store, in order. -/
def lookups (set : Settings) : List Instr → Pass → List String
  | [], _ => []
  | i :: is, p =>
    i.lookups set p ++ match (i.perform set p).failure with
      | none => lookups set is (i.perform set p).pass
      | some _ => []

end

theorem lookups_cons (set : Settings) (i : Instr) (is : List Instr) (p : Pass) :
    lookups set (i :: is) p = i.lookups set p ++ match (i.perform set p).failure with
      | none => lookups set is (i.perform set p).pass
      | some _ => [] := by
  rw [lookups]

/-- A run changes the store only by looking up texts. -/
theorem cache_perform (set : Settings) (is : List Instr) (p : Pass) :
    (perform set is p).pass.cache =
      (lookups set is p).foldl (fun c text => (c.split text).2) p.cache := by
  induction is using instrs_induction generalizing p with
  | nil => rw [perform_nil, lookups, List.foldl_nil]
  | cons i is hfill ih =>
    have hi : (i.perform set p).pass.cache =
        (i.lookups set p).foldl (fun c text => (c.split text).2) p.cache := by
      cases i with
      | template source fill =>
        rw [Instr.perform, Instr.lookups, List.foldl_cons]
        exact hfill source fill rfl _ _
      | mark loc =>
        simp only [Instr.perform, Instr.lookups, List.foldl_nil, Pass.mark_eq]
      | problem what loc =>
        simp only [Instr.perform, Instr.lookups, List.foldl_nil, Pass.problem_eq]
        split <;> rfl
      | _ => simp only [Instr.perform, Instr.lookups, List.foldl_nil, Pass.onPage]
    rw [perform_cons, lookups_cons, List.foldl_append, ← hi]
    cases hf : (i.perform set p).failure with
    | none =>
      rw [Outcome.andThen, hf]
      exact ih _
    | some failure =>
      rw [Outcome.andThen, hf]
      rfl

/-! A store with the right parts cannot be told from an empty one. -/

def Pass.withCache (p : Pass) (c : Template.Cache) : Pass := { p with cache := c }

/-- The outcome without the store. -/
def Outcome.seen (o : Outcome) : Outcome := { o with pass := o.pass.withCache {} }

theorem Outcome.seen_andThen {o o' : Outcome} {next : Pass → Outcome} (h : o.seen = o'.seen)
    (hn : o.failure = none → (next o.pass).seen = (next o'.pass).seen) :
    (o.andThen next).seen = (o'.andThen next).seen := by
  have hf : o.seen.failure = o'.seen.failure := by rw [h]
  change o.failure = o'.failure at hf
  unfold Outcome.andThen
  rw [← hf]
  cases ho : o.failure with
  | none => exact hn ho
  | some failure => exact h

theorem sound_foldl {c : Template.Cache} (h : c.Sound) (texts : List String) :
    (texts.foldl (fun c text => (c.split text).2) c).Sound := by
  induction texts generalizing c with
  | nil => exact h
  | cons text texts ih => exact ih (h.snd_split text)

theorem sound_perform {set : Settings} {p : Pass} (h : p.cache.Sound) (is : List Instr) :
    (perform set is p).pass.cache.Sound := by
  rw [cache_perform]
  exact sound_foldl h _

/-- What a run does, apart from the store, does not depend on the store. -/
theorem seen_perform {set : Settings} {p : Pass} (h : p.cache.Sound) (is : List Instr) :
    (perform set is p).seen = (perform set is (p.withCache {})).seen := by
  induction is using instrs_induction generalizing p with
  | nil =>
    rw [perform_nil, perform_nil]
    rfl
  | cons i is hfill ih =>
    have hsound : ∀ q : Pass, q.cache.Sound → (i.perform set q).pass.cache.Sound := by
      intro q hq
      rw [← perform_singleton]
      exact sound_perform hq [i]
    have hi : (i.perform set p).seen = (i.perform set (p.withCache {})).seen := by
      cases i with
      | template source fill =>
        have hone : ∀ q : Pass, q.cache.Sound →
            (Instr.perform set (.template source fill) q).seen =
              (perform set (fill (Template.split source)) (q.withCache {})).seen := by
          intro q hq
          rw [Instr.perform, hq.fst_split]
          exact hfill source fill rfl _ (hq.snd_split source)
        rw [hone p h, hone (p.withCache {}) Template.Cache.sound_empty]
        rfl
      | mark loc =>
        simp only [Instr.perform, Pass.mark_eq, Pass.withCache, Outcome.seen]
      | problem what loc =>
        simp only [Instr.perform, Pass.problem_eq, Pass.withCache]
        split <;> rfl
      | _ => simp only [Instr.perform, Pass.onPage, Pass.withCache, Outcome.seen]
    rw [perform_cons, perform_cons]
    apply Outcome.seen_andThen hi
    intro _
    have hpass : (i.perform set p).pass.withCache {} =
        (i.perform set (p.withCache {})).pass.withCache {} := congrArg Outcome.pass hi
    rw [ih (hsound p h), ih (hsound _ Template.Cache.sound_empty), hpass]

namespace Template

/-- A call that may use the store or empty it. -/
inductive Call where
  | split (text : String)
  /-- Expands the macros of a template, and splits what comes of it. -/
  | expand (count : Nat) (isConstant : Nat → Bool) (template : String)
  | print (set : Settings) (start : Pass) (tree : Tree)
  | clear

namespace Call

/-- The texts that a call looks up. -/
def lookups (c : Cache) : Call → List String
  | .split text => [text]
  | .expand count isConstant template => [Template.expand count isConstant template]
  | .print set start tree => CodePrinter.lookups set (tree.instrs set) (start.withCache c)
  | .clear => []

/-- The store after a call. -/
def cacheAfter (c : Cache) : Call → Cache
  | .split text => (c.split text).2
  | .expand count isConstant template => (c.split (Template.expand count isConstant template)).2
  | .print set start tree => (tree.render set (start.withCache c)).pass.cache
  | .clear => c.clear

def isClear : Call → Bool
  | .clear => true
  | _ => false

end Call

/-- The store after some calls. -/
structure History where
  cache : Cache := {}
  /-- The texts that it did not hold when they were looked up, since it was last emptied. -/
  missed : List String := []

namespace History

def next (h : History) (call : Call) : History :=
  { cache := call.cacheAfter h.cache
    missed := (if call.isClear then [] else h.missed) ++ h.cache.missed (call.lookups h.cache) }

/-- The history of calls that begins with an empty store. -/
def ofCalls (calls : List Call) : History := calls.foldl next {}

theorem holds_next {h : History} (hh : h.cache.Holds h.missed) (call : Call) :
    (h.next call).cache.Holds (h.next call).missed := by
  cases call with
  | split text => exact hh.lookUp [text]
  | expand count isConstant template => exact hh.lookUp [Template.expand count isConstant template]
  | print set start tree =>
    have hcache := cache_perform set (tree.instrs set) (start.withCache h.cache)
    rw [← tree.render_eq] at hcache
    simp only [next, Call.cacheAfter, hcache]
    exact hh.lookUp _
  | clear => exact Cache.holds_empty _

theorem holds_foldl {h : History} (hh : h.cache.Holds h.missed) (calls : List Call) :
    (calls.foldl next h).cache.Holds (calls.foldl next h).missed := by
  induction calls generalizing h with
  | nil => exact hh
  | cons call calls ih => exact ih (holds_next hh call)

/-- After any calls the store holds at most 512 texts: the last ones that it missed since it was
emptied, the oldest first, each once and with its own parts. A text that it holds leaves it as it
is. So a text is split, and a tree is printed, as if nothing had been called before. -/
theorem cache_transparent (calls : List Call) :
    let h := ofCalls calls
    h.cache.size ≤ 512 ∧
    (h.cache.entries.map Prod.fst).Nodup ∧
    (∀ e ∈ h.cache.entries, e.2 = Template.split e.1) ∧
    h.cache.entries.map Prod.fst = h.missed.drop (h.missed.length - 512) ∧
    (∀ text ∈ h.cache.entries.map Prod.fst, (h.cache.split text).2 = h.cache) ∧
    (∀ text, (h.cache.split text).1 = Template.split text) ∧
    ∀ (set : Settings) (p : Pass) (tree : Tree),
      let after := tree.render set (p.withCache h.cache)
      let fresh := tree.render set (p.withCache {})
      after.pass.page = fresh.pass.page ∧ after.pass.mappings = fresh.pass.mappings ∧
        after.pass.diagnostics = fresh.pass.diagnostics ∧ after.failure = fresh.failure := by
  intro h
  have hh : h.cache.Holds h.missed := holds_foldl (Cache.holds_empty 0) calls
  refine ⟨hh.size_le, ?_, hh.sound, hh.keys, ?_, hh.sound.fst_split, ?_⟩
  · rw [hh.keys]
    exact hh.nodup
  · intro text htext
    cases hf : h.cache.find? text with
    | some parts => rw [Cache.split_of_hit hf]
    | none => exact absurd htext (Cache.notMem_of_find? hf)
  · intro set p tree after fresh
    have hseen : after.seen = fresh.seen := by
      simp only [after, fresh, tree.render_eq]
      exact seen_perform (p := p.withCache h.cache) hh.sound (tree.instrs set)
    exact ⟨congrArg (·.pass.page) hseen, congrArg (·.pass.mappings) hseen,
      congrArg (·.pass.diagnostics) hseen, congrArg (·.failure) hseen⟩

end History

end Template

end CodePrinter
