import CodePrinter.Proofs.SideBySide
import Mathlib.Data.List.Forall2

/-! Printed expressions and parts of statements that a congruence relates.

Each way to make a larger piece keeps the relation, if the pieces that it is made of are related. -/
namespace CodePrinter

variable {r : List Instr → List Instr → Prop}

/-- Two printed expressions that are related and get the same parentheses. -/
structure Fragment.Alike (r : List Instr → List Instr → Prop) (f g : Fragment) : Prop where
  issues : r f.issues g.issues
  shape : f.shape = g.shape
  body : r f.body g.body

section Lists

variable {α β γ : Type} {R : α → α → Prop} {S : β → β → Prop} {T : γ → γ → Prop}

theorem forall₂_map_of {f : α → β} {xs ys : List α} (hf : ∀ x y, R x y → S (f x) (f y))
    (h : List.Forall₂ R xs ys) : List.Forall₂ S (xs.map f) (ys.map f) :=
  List.forall₂_map_left_iff.mpr (List.forall₂_map_right_iff.mpr (h.imp hf))

theorem forall₂_zipWith {f : α → β → γ} {xs xs' : List α} {ys ys' : List β}
    (hf : ∀ x x' y y', R x x' → S y y' → T (f x y) (f x' y')) (hx : List.Forall₂ R xs xs')
    (hy : List.Forall₂ S ys ys') : List.Forall₂ T (xs.zipWith f ys) (xs'.zipWith f ys') := by
  induction hx generalizing ys ys' with
  | nil => exact .nil
  | cons h hx ih =>
    cases hy with
    | nil => exact .nil
    | cons h' hy => exact .cons (hf _ _ _ _ h h') (ih hy)

theorem forall₂_getElem? {xs ys : List α} (h : List.Forall₂ R xs ys) (i : Nat) :
    (xs[i]? = none ∧ ys[i]? = none) ∨ ∃ x y, xs[i]? = some x ∧ ys[i]? = some y ∧ R x y := by
  induction h generalizing i with
  | nil => exact .inl ⟨rfl, rfl⟩
  | @cons x y _ _ hxy _ ih =>
    cases i with
    | zero => exact .inr ⟨x, y, rfl, rfl, hxy⟩
    | succ i => exact ih i

theorem forall₂_isEmpty {xs ys : List α} (h : List.Forall₂ R xs ys) : xs.isEmpty = ys.isEmpty := by
  cases h <;> rfl

theorem rel_isNone {o o' : Option α} (h : Option.Rel R o o') : o.isNone = o'.isNone := by
  cases h <;> rfl

theorem forall₂_toList {o o' : Option α} (h : Option.Rel R o o') :
    List.Forall₂ R o.toList o'.toList := by
  cases h with
  | none => exact .nil
  | some h => exact .cons h .nil

end Lists

namespace Congruence

variable {is js is' js' : List Instr} {items items' : List (List Instr)}

theorem cons (hr : Congruence r) {i : Instr} (hi : i.isPlain = true) (h : r is js) :
    r (i :: is) (i :: js) :=
  hr.append (hr.plain hi) h

theorem text (hr : Congruence r) (value : String) : r [.text value] [.text value] := hr.plain rfl

theorem ite {c c' : Prop} [Decidable c] [Decidable c'] (hc : c ↔ c') (h : r is is')
    (h' : r js js') : r (if c then is else js) (if c' then is' else js') := by
  by_cases hcase : c
  · rwa [if_pos hcase, if_pos (hc.mp hcase)]
  · rwa [if_neg hcase, if_neg (mt hc.mpr hcase)]

theorem textOr (hr : Congruence r) {ε : Type} (raise : ε → Failure) (value : Except ε String) :
    r (textOr raise value) (textOr raise value) := by
  cases value with
  | ok value => exact hr.plain rfl
  | error what => exact hr.plain rfl

theorem parenthesized (hr : Congruence r) (h : r is js) :
    r (parenthesized is) (parenthesized js) :=
  hr.cons rfl (hr.append h (hr.plain rfl))

theorem separated (hr : Congruence r) (hs : r is js) (h : List.Forall₂ r items items') :
    r (separated is items) (separated js items') := by
  induction h with
  | nil => exact hr.nil
  | cons h hrest ih =>
    cases hrest with
    | nil => exact h
    | cons _ _ => exact hr.append (hr.append h hs) ih

theorem commaSeparated (hr : Congruence r) (h : List.Forall₂ r items items') :
    r (commaSeparated items) (commaSeparated items') :=
  hr.separated (hr.text ", ") h

theorem flatMap (hr : Congruence r) {α : Type} {R : α → α → Prop} {f : α → List Instr}
    {xs ys : List α} (hf : ∀ x y, R x y → r (f x) (f y)) (h : List.Forall₂ R xs ys) :
    r (xs.flatMap f) (ys.flatMap f) := by
  induction h with
  | nil => exact hr.nil
  | cons h hrest ih => exact hr.append (hf _ _ h) ih

end Congruence

namespace Fragment

variable {f g h f' g' h' : Fragment} {fs gs fs' gs' : List Fragment} {loc loc' : Option Location}

namespace Alike

theorem bare (hr : Congruence r) (h : f.Alike r g) : r f.bare g.bare := hr.append h.issues h.body

theorem grouped (hr : Congruence r) (h : f.Alike r g) : r f.grouped g.grouped :=
  hr.append h.issues (hr.parenthesized h.body)

theorem operandBody (hr : Congruence r) (h : f.Alike r g) : r f.operandBody g.operandBody :=
  Congruence.ite (by rw [h.shape]) h.body (hr.parenthesized h.body)

theorem operand (hr : Congruence r) (h : f.Alike r g) : r f.operand g.operand :=
  hr.append h.issues (h.operandBody hr)

theorem primary (hr : Congruence r) (h : f.Alike r g) : r f.primary g.primary :=
  Congruence.ite (by rw [h.shape]) (h.bare hr) (h.grouped hr)

theorem branch (hr : Congruence r) (h : f.Alike r g) : r f.branch g.branch :=
  Congruence.ite (by rw [h.shape]) (h.grouped hr) (h.bare hr)

theorem bares (hr : Congruence r) (h : List.Forall₂ (Alike r) fs gs) :
    r (commaSeparated (fs.map Fragment.bare)) (commaSeparated (gs.map Fragment.bare)) :=
  hr.commaSeparated (forall₂_map_of (fun _ _ h => h.bare hr) h)

theorem name (hr : Congruence r) (id : String) (hl : r (markAt loc) (markAt loc')) :
    (name id loc).Alike r (Fragment.name id loc') :=
  ⟨hr.nil, rfl, hr.append hl (hr.text id)⟩

theorem constant (hr : Congruence r) (value : Constant) (hl : r (markAt loc) (markAt loc')) :
    (constant value loc).Alike r (Fragment.constant value loc') :=
  ⟨hr.nil, rfl, hr.append hl (hr.textOr _ _)⟩

theorem call (hr : Congruence r) {keywords keywords' : List (String × Fragment)}
    (hl : r (markAt loc) (markAt loc')) (hf : f.Alike r f') (ha : List.Forall₂ (Alike r) fs fs')
    (hk : List.Forall₂ (fun k k' => k.1 = k'.1 ∧ k.2.Alike r k'.2) keywords keywords') :
    (call f fs keywords loc).Alike r (Fragment.call f' fs' keywords' loc') := by
  have hkeywords : List.Forall₂ r (keywords.map fun k => keyword k.1 k.2)
      (keywords'.map fun k => keyword k.1 k.2) := by
    refine forall₂_map_of ?_ hk
    rintro ⟨name, value⟩ ⟨name', value'⟩ ⟨hname, hvalue⟩
    obtain rfl : name = name' := hname
    exact hr.cons rfl (hr.cons rfl (hvalue.bare hr))
  have hcomma : r (if fs.isEmpty || keywords.isEmpty then [] else [.text ", "])
      (if fs'.isEmpty || keywords'.isEmpty then [] else [.text ", "]) :=
    Congruence.ite (by rw [forall₂_isEmpty ha, forall₂_isEmpty hk]) hr.nil (hr.text ", ")
  have hargs := hr.append (hr.append (hr.append hl (hf.primary hr)) (hr.text "(")) (bares hr ha)
  exact ⟨hr.nil, rfl, hr.append (hr.append (hr.append hargs hcomma) (hr.commaSeparated hkeywords))
    (hr.text ")")⟩

theorem attr (hr : Congruence r) (member : String) (hl : r (markAt loc) (markAt loc'))
    (hf : f.Alike r f') : (attr f member loc).Alike r (Fragment.attr f' member loc') :=
  ⟨hr.nil, rfl, hr.append (hr.append hl (hf.primary hr)) (hr.cons rfl (hr.text member))⟩

theorem subscript (hr : Congruence r) (hl : r (markAt loc) (markAt loc')) (hf : f.Alike r f')
    (hg : g.Alike r g') : (subscript f g loc).Alike r (Fragment.subscript f' g' loc') :=
  ⟨hr.nil, rfl, hr.append (hr.append (hr.append (hr.append hl (hf.primary hr)) (hr.text "["))
    (hg.bare hr)) (hr.text "]")⟩

theorem binary (hr : Congruence r) (op : BinaryOp) (hl : r (markAt loc) (markAt loc'))
    (hf : f.Alike r f') (hg : g.Alike r g') :
    (binary f op g loc).Alike r (Fragment.binary f' op g' loc') :=
  ⟨hr.nil, rfl,
    hr.append (hr.append (hr.append hl (hf.operand hr)) (hr.textOr _ _)) (hg.operand hr)⟩

theorem unary (hr : Congruence r) (op : UnaryOp) (hl : r (markAt loc) (markAt loc'))
    (hf : f.Alike r f') : (unary op f loc).Alike r (Fragment.unary op f' loc') :=
  ⟨hr.nil, rfl, hr.append (hr.append hl (hr.textOr _ _)) (hf.operand hr)⟩

theorem boolean (hr : Congruence r) (op : BoolOp) (hl : r (markAt loc) (markAt loc'))
    (hf : List.Forall₂ (Alike r) fs fs') :
    (boolean op fs loc).Alike r (Fragment.boolean op fs' loc') :=
  ⟨hr.nil, rfl, hr.append hl
    (hr.separated (hr.textOr _ _) (forall₂_map_of (fun _ _ h => h.operand hr) hf))⟩

theorem comparisons (hr : Congruence r) (ops : List CompareOp)
    (hf : List.Forall₂ (Alike r) fs fs') : r (comparisons ops fs) (comparisons ops fs') := by
  induction hf generalizing ops with
  | nil => cases ops <;> exact hr.nil
  | cons h hrest ih =>
    cases ops with
    | nil => exact hr.nil
    | cons op ops => exact hr.append (hr.append (hr.textOr _ _) (h.operand hr)) (ih ops)

theorem compare (hr : Congruence r) (ops : List CompareOp) (hl : r (markAt loc) (markAt loc'))
    (hf : f.Alike r f') (hg : List.Forall₂ (Alike r) gs gs') :
    (compare f ops gs loc).Alike r (Fragment.compare f' ops gs' loc') :=
  ⟨hr.nil, rfl, hr.append (hr.append hl (hf.operand hr)) (comparisons hr ops hg)⟩

theorem conditional (hr : Congruence r) (hl : r (markAt loc) (markAt loc')) (hf : f.Alike r f')
    (hg : g.Alike r g') (hh : h.Alike r h') :
    (conditional f g h loc).Alike r (Fragment.conditional f' g' h' loc') :=
  ⟨hr.nil, rfl, hr.append (hr.append (hr.append (hr.append (hr.append hl (hg.branch hr))
    (hr.text " if ")) (hf.grouped hr)) (hr.text " else ")) (hh.grouped hr)⟩

theorem tuple (hr : Congruence r) (hl : r (markAt loc) (markAt loc'))
    (hf : List.Forall₂ (Alike r) fs fs') : (tuple fs loc).Alike r (Fragment.tuple fs' loc') :=
  ⟨hr.nil, rfl, hr.append (hr.append (hr.append (hr.append hl (hr.text "(")) (bares hr hf))
    (Congruence.ite (by rw [hf.length_eq]) (hr.text ",") hr.nil)) (hr.text ")")⟩

theorem list (hr : Congruence r) (hl : r (markAt loc) (markAt loc'))
    (hf : List.Forall₂ (Alike r) fs fs') : (list fs loc).Alike r (Fragment.list fs' loc') :=
  ⟨hr.nil, rfl, hr.append (hr.append (hr.append hl (hr.text "[")) (bares hr hf)) (hr.text "]")⟩

theorem set (hr : Congruence r) (hl : r (markAt loc) (markAt loc'))
    (hf : List.Forall₂ (Alike r) fs fs') : (Fragment.set fs loc).Alike r (Fragment.set fs' loc') :=
  ⟨hr.nil, rfl, hr.append hl (Congruence.ite (by rw [forall₂_isEmpty hf]) (hr.text _)
    (hr.append (hr.append (hr.text _) (bares hr hf)) (hr.text _)))⟩

theorem entries (hr : Congruence r) (hf : List.Forall₂ (Alike r) fs fs')
    (hg : List.Forall₂ (Alike r) gs gs') : List.Forall₂ r (entries fs gs) (entries fs' gs') := by
  induction hf generalizing gs gs' with
  | nil => cases hg <;> exact .nil
  | cons h hrest ih =>
    cases hg with
    | nil => exact .nil
    | cons h' hrest' =>
      exact .cons (hr.append (hr.append (h.bare hr) (hr.text ": ")) (h'.bare hr)) (ih hrest')

theorem dict (hr : Congruence r) (hl : r (markAt loc) (markAt loc'))
    (hf : List.Forall₂ (Alike r) fs fs') (hg : List.Forall₂ (Alike r) gs gs') :
    (dict fs gs loc).Alike r (Fragment.dict fs' gs' loc') := by
  have hentries := entries hr hf hg
  have hseparated := hr.separated (hr.cons rfl (hr.plain rfl) : r [.text ",", .newline] _) hentries
  have hlines := hr.cons (i := .text "\x7b") rfl
    (hr.append (hr.nested (.inl rfl) hseparated) (hr.text "\x7d"))
  refine ⟨hr.nil, rfl, hr.append hl ?_⟩
  refine Congruence.ite (by rw [forall₂_isEmpty hentries]) (hr.text _) ?_
  simpa using hlines

theorem named (hr : Congruence r) (hl : r (markAt loc) (markAt loc')) (hf : f.Alike r f')
    (hg : g.Alike r g') : (named f g loc).Alike r (Fragment.named f' g' loc') :=
  ⟨hr.nil, rfl, hr.append hl
    (hr.parenthesized (hr.append (hr.append (hf.bare hr) (hr.text " := ")) (hg.bare hr)))⟩

theorem starred (hr : Congruence r) (hl : r (markAt loc) (markAt loc')) (hf : f.Alike r f') :
    (starred f loc).Alike r (Fragment.starred f' loc') :=
  ⟨hr.nil, rfl, hr.append (hr.append hl (hr.text "*")) (hf.primary hr)⟩

theorem unimplemented (hr : Congruence r) (construct : String) (hl : r (markAt loc) (markAt loc'))
    (hp : ∀ what, r [.problem what loc] [.problem what loc']) :
    (unimplemented construct loc).Alike r (Fragment.unimplemented construct loc') :=
  ⟨hr.nil, rfl, hr.append hl (hr.append (hp _) (hr.text "None"))⟩

theorem unknown (hr : Congruence r) (node : Data) (hl : r (markAt loc) (markAt loc')) :
    (unknown node loc).Alike r (Fragment.unknown node loc') :=
  ⟨hr.nil, rfl, hr.append hl (hr.plain rfl)⟩

theorem snippetLines (hr : Congruence r) :
    (lines : List (List Char)) → r (snippetLines lines) (Fragment.snippetLines lines)
  | [] => hr.nil
  | [_] => hr.plain rfl
  | _ :: next :: lines => hr.cons rfl (snippetLines hr (next :: lines))

theorem firstUse (hr : Congruence r) (hf : List.Forall₂ (Alike r) fs fs') (used : List Nat)
    (index : Nat) : r (firstUse fs used index) (Fragment.firstUse fs' used index) := by
  refine Congruence.ite Iff.rfl hr.nil ?_
  rcases forall₂_getElem? hf index with ⟨h, h'⟩ | ⟨f, f', h, h', halike⟩
  · rw [h, h']
    exact hr.nil
  · rw [h, h']
    exact halike.issues

theorem useAll (hr : Congruence r) (hf : List.Forall₂ (Alike r) fs fs') (used indices : List Nat) :
    r (useAll fs used indices) (Fragment.useAll fs' used indices) := by
  induction indices generalizing used with
  | nil => exact hr.nil
  | cons index indices ih => exact hr.append (firstUse hr hf used index) (ih _)

theorem fill (hr : Congruence r) (hf : List.Forall₂ (Alike r) fs fs') (used : List Nat)
    (parts : List Template.Part) : r (fill fs used parts) (Fragment.fill fs' used parts) := by
  induction parts generalizing used with
  | nil => exact hr.nil
  | cons part parts ih =>
    cases part with
    | text value => exact hr.append (snippetLines hr _) (ih used)
    | arg index =>
      refine hr.append ?_ (ih _)
      rcases forall₂_getElem? hf index with ⟨h, h'⟩ | ⟨f, f', h, h', halike⟩
      · rw [h, h']
        exact hr.text "None"
      · rw [h, h']
        exact hr.append (firstUse hr hf used index) (halike.operandBody hr)

theorem isConstantAt (hf : List.Forall₂ (Alike r) fs fs') :
    isConstantAt fs = Fragment.isConstantAt fs' := by
  funext index
  rcases forall₂_getElem? hf index with ⟨h, h'⟩ | ⟨f, f', h, h', halike⟩
  · rw [Fragment.isConstantAt, Fragment.isConstantAt, h, h']
  · simp only [Fragment.isConstantAt, h, h', Option.any_some, halike.shape]

/-- Which choices of a template are taken depends on the shapes of the arguments alone, so that
both snippets are filled into the same one. -/
theorem emit (hr : Congruence r) (template : String) (hl : r (markAt loc) (markAt loc'))
    (hf : List.Forall₂ (Alike r) fs fs') :
    (emit template fs loc).Alike r (Fragment.emit template fs' loc') := by
  refine ⟨hr.nil, rfl, hr.append hl ?_⟩
  unfold Fragment.snippet
  rw [isConstantAt hf, hf.length_eq]
  exact hr.append (useAll hr hf _ _) (hr.template fun parts => fill hr hf _ parts)

theorem refl_constants (hr : Congruence r) (values : List Constant) :
    List.Forall₂ (Alike r) (values.map fun c => Fragment.constant c none)
      (values.map fun c => Fragment.constant c none) := by
  refine List.forall₂_same.mpr fun f hf => ?_
  obtain ⟨c, -, rfl⟩ := List.mem_map.mp hf
  exact constant hr c hr.nil

theorem literalForm (hr : Congruence r) (form : LiteralForm) (hl : r (markAt loc) (markAt loc')) :
    (literalForm loc form).Alike r (Fragment.literalForm loc' form) := by
  cases form with
  | constant value => exact constant hr value hl
  | construct callee member args =>
    refine call hr hl ?_ (refl_constants hr args) .nil
    cases member with
    | none => exact name hr callee hr.nil
    | some member => exact attr hr member hr.nil (name hr callee hr.nil)
  | sequence items => exact list hr hl (refl_constants hr items)

theorem testForm (hr : Congruence r) (names : RuntimeNames) (form : TestForm)
    (hl : r (markAt loc) (markAt loc')) (hf : f.Alike r f') :
    (testForm names f loc form).Alike r (Fragment.testForm names f' loc' form) := by
  cases form with
  | always | impossible => exact constant hr _ hl
  | isNone => exact compare hr _ hl hf (refl_constants hr [.none])
  | primitive primitive =>
    have hcall : (Fragment.call (Fragment.name names.typeOf none) [f] [] none).Alike r
        (Fragment.call (Fragment.name names.typeOf none) [f'] [] none) :=
      call hr hr.nil (name hr _ hr.nil) (.cons hf .nil) .nil
    exact compare hr _ hl hcall (refl_constants hr [.string primitive])
  | «instance» className =>
    exact call hr hl (name hr _ hr.nil) (.cons hf (.cons (name hr className hr.nil) .nil)) .nil
  | sequence => exact call hr hl (name hr _ hr.nil) (.cons hf .nil) .nil

end Alike

end Fragment

/-- Two printed parameters that are related. -/
structure ParamFragment.Alike (r : List Instr → List Instr → Prop) (p q : ParamFragment) :
    Prop where
  name : p.name = q.name
  hint : Option.Rel (Fragment.Alike r) p.hint q.hint

structure ParamsFragment.Alike (r : List Instr → List Instr → Prop) (p q : ParamsFragment) :
    Prop where
  posOnly : List.Forall₂ (ParamFragment.Alike r) p.posOnly q.posOnly
  regular : List.Forall₂ (ParamFragment.Alike r) p.regular q.regular
  varArg : Option.Rel (ParamFragment.Alike r) p.varArg q.varArg
  defaults : List.Forall₂ (Fragment.Alike r) p.defaults q.defaults

namespace ParamFragment.Alike

variable {p q : ParamFragment}

theorem print (hr : Congruence r) (h : p.Alike r q) (hints : Bool) :
    r (p.print hints) (q.print hints) := by
  obtain ⟨name, hint⟩ := p
  obtain ⟨name', hint'⟩ := q
  obtain ⟨rfl, hhint⟩ := h
  cases hhint with
  | none => cases hints <;> exact hr.text _
  | some h =>
    cases hints with
    | false => exact hr.text _
    | true => exact hr.cons rfl (hr.cons rfl (h.bare hr))

theorem isHinted (h : p.Alike r q) (hints : Bool) : p.isHinted hints = q.isHinted hints := by
  obtain ⟨name, hint⟩ := p
  obtain ⟨name', hint'⟩ := q
  obtain ⟨-, hhint⟩ := h
  cases hhint <;> rfl

theorem printDefault (hr : Congruence r) (h : p.Alike r q) (hints : Bool) {d d' : Option Fragment}
    (hd : Option.Rel (Fragment.Alike r) d d') :
    r (p.printDefault hints d) (q.printDefault hints d') := by
  cases hd with
  | none => exact hr.nil
  | some hd =>
    simp only [ParamFragment.printDefault, h.isHinted]
    exact hr.cons rfl (hd.bare hr)

end ParamFragment.Alike

namespace ParamsFragment.Alike

variable {p q : ParamsFragment}

theorem alignedDefaults (h : p.Alike r q) :
    List.Forall₂ (Option.Rel (Fragment.Alike r)) p.alignedDefaults q.alignedDefaults := by
  unfold ParamsFragment.alignedDefaults
  rw [h.regular.length_eq, h.defaults.length_eq]
  have hmissing (n : Nat) : List.Forall₂ (Option.Rel (Fragment.Alike r))
      (List.replicate n none) (List.replicate n none) := by
    induction n with
    | zero => exact .nil
    | succ n ih => exact .cons .none ih
  exact List.rel_append (hmissing _)
    (forall₂_map_of (fun _ _ hf => .some hf) (List.forall₂_drop _ h.defaults))

theorem items (hr : Congruence r) (h : p.Alike r q) (hints : Bool) :
    List.Forall₂ r (p.items hints) (q.items hints) := by
  have hposOnly := forall₂_map_of (fun _ _ hp => hp.print hr hints) h.posOnly
  have hslash : List.Forall₂ r (if p.posOnly.isEmpty then [] else [[.text "/"]])
      (if q.posOnly.isEmpty then [] else [[.text "/"]]) := by
    rw [forall₂_isEmpty h.posOnly]
    split
    · exact .nil
    · exact .cons (hr.text "/") .nil
  have hregular := forall₂_zipWith
    (fun _ _ _ _ hp hd => hr.append (hp.print hr hints) (hp.printDefault hr hints hd))
    h.regular h.alignedDefaults
  have hvarArg : List.Forall₂ r (p.varArg.toList.map fun q => .text "*" :: q.print hints)
      (q.varArg.toList.map fun q => .text "*" :: q.print hints) :=
    forall₂_map_of (fun _ _ hp => hr.cons rfl (hp.print hr hints)) (forall₂_toList h.varArg)
  exact List.rel_append (List.rel_append (List.rel_append hposOnly hslash) hregular) hvarArg

theorem print (hr : Congruence r) (h : p.Alike r q) (hints : Bool) :
    r (p.print hints) (q.print hints) :=
  hr.commaSeparated (h.items hr hints)

theorem isEmpty (h : p.Alike r q) : p.isEmpty = q.isEmpty := by
  simp only [ParamsFragment.isEmpty, forall₂_isEmpty h.posOnly, forall₂_isEmpty h.regular,
    rel_isNone h.varArg]

end ParamsFragment.Alike

theorem Fragment.Alike.lambda (hr : Congruence r) {params params' : ParamsFragment}
    {f f' : Fragment} {loc loc' : Option Location} (hl : r (markAt loc) (markAt loc'))
    (hp : params.Alike r params') (hf : f.Alike r f') :
    (lambda params f loc).Alike r (Fragment.lambda params' f' loc') := by
  have hspace : r (if params.isEmpty then [] else [.text " "])
      (if params'.isEmpty then [] else [.text " "]) :=
    Congruence.ite (by rw [hp.isEmpty]) hr.nil (hr.text " ")
  exact ⟨hr.nil, rfl, hr.append (hr.append (hr.append (hr.append (hr.append hl (hr.text "lambda"))
    hspace) (hp.print hr false)) (hr.text ": ")) (hf.bare hr)⟩

end CodePrinter
