import CodePrinter.Proofs.Composed
import CodePrinter.Proofs.Names
import CodePrinter.Proofs.Nodes
import Mathlib.Data.List.Forall2

/-! The pieces that printed trees are put together from.

Main statement: a list of statements whose names meet a condition is put together from names that
meet it, other texts of one line, line breaks, suites and its located nodes in order
(`stmts_pieced`), so every tree prints its located nodes in order (`Tree.prints`). -/
namespace CodePrinter

open Text

/-- A list of instructions is put together from names that meet a condition, other texts of one
line, line breaks, suites and some nodes in order. What stands before a suite may be followed by an
empty text. -/
inductive Pieced (set : Settings) (ok : String → Prop) : List Node → List Instr → Prop
  | nil : Pieced set ok [] []
  | append {ns ms : List Node} {is js : List Instr} (hi : Pieced set ok ns is)
      (hj : Pieced set ok ms js) : Pieced set ok (ns ++ ms) (is ++ js)
  | text {value : String} (h : Solid value) : Pieced set ok [] [.text value]
  | name {value : String} (h : ok value) : Pieced set ok [] [.text value]
  | names {keyword : String} {values : List String} (hk : Solid keyword)
      (h : ∀ value ∈ values, ok value) :
      Pieced set ok [] [.text keyword, .text (", ".intercalate values)]
  | header {value : String} (h : Solid value) : Pieced set ok [] [.text value, .text ""]
  | newline : Pieced set ok [] [.newline]
  | endLine : Pieced set ok [] [.endLine]
  | suite {ns : List Node} {is : List Instr} (h : Pieced set ok ns is) :
      Pieced set ok ns (suite is)
  | snippetLine {value : String} {more : Bool} (h : OneLine value) :
      Pieced set ok [] [.snippetLine value more]
  | template {source : String} {fill : List Template.Part → List Instr}
      {nodes : List Template.Part → List Node}
      (h : ∀ parts, Pieced set ok (nodes parts) (fill parts)) :
      Pieced set ok (nodes (Template.split source)) [.template source fill]
  | problem {what : Problem} {loc : Option Location} : Pieced set ok [] [.problem what loc]
  | fail {what : Failure} (h : set.Raises what) : Pieced set ok [] [.fail what]
  | node {n : Node} {ns : List Node} {own : List Instr} (hn : n.instrs set = markAt n.loc ++ own)
      (ho : Pieced set ok ns own) : Pieced set ok (n.leading ns) (n.instrs set)

variable {set : Settings} {ok : String → Prop} {is js : List Instr} {ns ms : List Node}
  {nss mss : List (List Node)}

theorem Settings.raises_fault (set : Settings) (what : Fault) : set.Raises (.fault what) := by
  intro e he
  cases he

namespace Pieced

/-- What is printed after some nodes and has none itself. -/
theorem followedBy (hi : Pieced set ok ns is) (hj : Pieced set ok [] js) :
    Pieced set ok ns (is ++ js) := by
  simpa using hi.append hj

theorem before (hi : Pieced set ok [] is) (hj : Pieced set ok ns js) :
    Pieced set ok ns (is ++ js) :=
  hi.append hj

theorem cons_text {value : String} (h : Solid value) (hi : Pieced set ok ns is) :
    Pieced set ok ns (.text value :: is) :=
  append (text h) hi

theorem cons_name {value : String} (h : ok value) (hi : Pieced set ok ns is) :
    Pieced set ok ns (.text value :: is) :=
  append (name h) hi

theorem textOr {r : Except Fault String}
    (h : ∀ value, r = .ok value → Pieced set ok [] [.text value]) :
    Pieced set ok [] (textOr .fault r) := by
  cases r with
  | ok value => exact h value rfl
  | error what => exact fail (set.raises_fault what)

theorem resolved {path : String} (h : ∀ value, set.resolve path = .ok value → ok value) :
    Pieced set ok [] (CodePrinter.textOr id (set.resolve path)) := by
  cases hr : set.resolve path with
  | ok value => exact name (h value hr)
  | error what =>
    refine fail fun e he => ⟨path, ?_⟩
    rw [hr, show what = .compile e from he]

theorem parenthesized (h : Pieced set ok ns is) : Pieced set ok ns (parenthesized is) :=
  cons_text (by decide) (h.followedBy (text (by decide)))

theorem separated (hs : Pieced set ok [] is) {items : List (List Instr)}
    (h : List.Forall₂ (Pieced set ok) nss items) :
    Pieced set ok nss.flatten (separated is items) := by
  induction h with
  | nil => exact nil
  | @cons ns js nss items hj hitems ih =>
    cases items with
    | nil =>
      cases hitems
      simpa [CodePrinter.separated] using hj
    | cons ks items => exact (hj.followedBy hs).append ih

theorem commaSeparated {items : List (List Instr)} (h : List.Forall₂ (Pieced set ok) nss items) :
    Pieced set ok nss.flatten (commaSeparated items) :=
  separated (text (by decide)) h

end Pieced

/-- A node begins with its mark, and goes on with pieces. -/
def Begins (set : Settings) (ok : String → Prop) (loc : Option Location) (ns : List Node)
    (is : List Instr) : Prop :=
  ∃ own, is = markAt loc ++ own ∧ Pieced set ok ns own

namespace Begins

variable {loc : Option Location}

theorem first (loc : Option Location) (h : Pieced set ok ns is) :
    Begins set ok loc ns (markAt loc ++ is) :=
  ⟨is, rfl, h⟩

theorem append (hi : Begins set ok loc ns is) (hj : Pieced set ok ms js) :
    Begins set ok loc (ns ++ ms) (is ++ js) := by
  obtain ⟨own, rfl, ho⟩ := hi
  exact ⟨own ++ js, by simp, ho.append hj⟩

theorem followedBy (hi : Begins set ok loc ns is) (hj : Pieced set ok [] js) :
    Begins set ok loc ns (is ++ js) := by
  simpa using hi.append hj

theorem cast (h : Begins set ok loc ns is) (he : ns = ms) : Begins set ok loc ms is := by
  rwa [← he]

/-- A node without a place has nothing but pieces. -/
theorem pieced (h : Begins set ok none ns is) : Pieced set ok ns is := by
  obtain ⟨own, rfl, ho⟩ := h
  exact ho

end Begins

theorem Node.pieced {n : Node} (h : Begins set ok n.loc ns (n.instrs set)) :
    Pieced set ok (n.leading ns) (n.instrs set) := by
  obtain ⟨own, hn, ho⟩ := h
  exact .node hn ho

/-- A printed expression of which every part is put together from pieces. -/
structure Fragment.Sound (set : Settings) (ok : String → Prop) (ns : List Node) (f : Fragment) :
    Prop where
  issues : Pieced set ok [] f.issues
  body : Pieced set ok ns f.body

namespace Fragment

variable {f g h : Fragment} {fs gs : List Fragment} {loc : Option Location} {ls : List Node}

theorem Sound.bare (hf : f.Sound set ok ns) : Pieced set ok ns f.bare := hf.issues.append hf.body

theorem Sound.grouped (hf : f.Sound set ok ns) : Pieced set ok ns f.grouped :=
  hf.issues.append hf.body.parenthesized

theorem Sound.operandBody (hf : f.Sound set ok ns) : Pieced set ok ns f.operandBody := by
  unfold Fragment.operandBody
  split
  · exact hf.body
  · exact hf.body.parenthesized

theorem Sound.operand (hf : f.Sound set ok ns) : Pieced set ok ns f.operand :=
  hf.issues.append hf.operandBody

theorem Sound.primary (hf : f.Sound set ok ns) : Pieced set ok ns f.primary := by
  unfold Fragment.primary
  split
  · exact hf.bare
  · exact hf.grouped

theorem Sound.branch (hf : f.Sound set ok ns) : Pieced set ok ns f.branch := by
  unfold Fragment.branch
  split
  · exact hf.grouped
  · exact hf.bare

theorem bares_pieced (h : List.Forall₂ (Sound set ok) nss fs) :
    List.Forall₂ (Pieced set ok) nss (fs.map bare) :=
  List.forall₂_map_right_iff.mpr (h.imp fun _ _ hf => hf.bare)

theorem flatMap_pieced {print : Fragment → List Instr}
    (hp : ∀ ns f, f.Sound set ok ns → Pieced set ok ns (print f))
    (h : List.Forall₂ (Sound set ok) nss fs) : Pieced set ok nss.flatten (fs.flatMap print) := by
  induction h with
  | nil => exact .nil
  | @cons ns f _ _ hf _ ih => exact (hp ns f hf).append ih

theorem begins_name {id : String} (h : Pieced set ok [] [.text id]) :
    Begins set ok loc [] (name id loc).body :=
  Begins.first loc h

theorem begins_constant (value : Constant) : Begins set ok loc [] (constant value loc).body :=
  Begins.first loc (.textOr fun _ h => .text (Constant.solid_text h))

theorem begins_call {keywords : List (String × Fragment)} (hf : f.Sound set ok ns)
    (ha : List.Forall₂ (Sound set ok) nss fs)
    (hk : List.Forall₂ (fun ms k => ok k.1 ∧ k.2.Sound set ok ms) mss keywords) :
    Begins set ok loc (ns ++ nss.flatten ++ mss.flatten) (call f fs keywords loc).body := by
  have hcomma : Pieced set ok []
      (if fs.isEmpty || keywords.isEmpty then [] else [.text ", "]) := by
    split
    · exact .nil
    · exact .text (by decide)
  have hkeywords : List.Forall₂ (Pieced set ok) mss (keywords.map fun k => keyword k.1 k.2) := by
    refine List.forall₂_map_right_iff.mpr (hk.imp ?_)
    rintro ms ⟨name, value⟩ ⟨hname, hvalue⟩
    exact .append (.cons_name hname (.text (by decide))) hvalue.bare
  exact ((((Begins.first loc hf.primary).followedBy (.text (by decide))).append
    (.commaSeparated (bares_pieced ha))).followedBy hcomma |>.append
    (.commaSeparated hkeywords)).followedBy (.text (by decide))

theorem begins_attr {member : String} (hf : f.Sound set ok ns) (hm : ok member) :
    Begins set ok loc ns (attr f member loc).body :=
  (Begins.first loc hf.primary).followedBy (.cons_text (by decide) (.name hm))

theorem begins_subscript (hf : f.Sound set ok ns) (hg : g.Sound set ok ms) :
    Begins set ok loc (ns ++ ms) (subscript f g loc).body :=
  (((Begins.first loc hf.primary).followedBy (.text (by decide))).append hg.bare).followedBy
    (.text (by decide))

theorem begins_binary (op : BinaryOp) (hf : f.Sound set ok ns) (hg : g.Sound set ok ms) :
    Begins set ok loc (ns ++ ms) (binary f op g loc).body :=
  ((Begins.first loc hf.operand).followedBy
    (.textOr fun _ h => .text (BinaryOp.solid_text h))).append hg.operand

theorem begins_unary (op : UnaryOp) (hf : f.Sound set ok ns) :
    Begins set ok loc ns (unary op f loc).body :=
  (Begins.first loc (.textOr fun _ h => .text (UnaryOp.solid_text h))).append hf.operand

theorem begins_boolean (op : BoolOp) (h : List.Forall₂ (Sound set ok) nss fs) :
    Begins set ok loc nss.flatten (boolean op fs loc).body := by
  have hoperands : List.Forall₂ (Pieced set ok) nss (fs.map operand) :=
    List.forall₂_map_right_iff.mpr (h.imp fun _ _ hf => hf.operand)
  exact Begins.first loc
    (.separated (.textOr fun _ h => .text (BoolOp.solid_text h)) hoperands)

theorem comparisons_pieced (ops : List CompareOp) (h : List.Forall₂ (Sound set ok) nss fs) :
    Pieced set ok (nss.take ops.length).flatten (comparisons ops fs) := by
  induction ops generalizing nss fs with
  | nil => exact .nil
  | cons op ops ih =>
    cases h with
    | nil => exact .nil
    | cons hf hfs =>
      exact (Pieced.append (.textOr fun _ h => .text (CompareOp.solid_text h)) hf.operand).append
        (ih hfs)

theorem begins_compare (ops : List CompareOp) (hf : f.Sound set ok ns)
    (hg : List.Forall₂ (Sound set ok) nss gs) :
    Begins set ok loc (ns ++ (nss.take ops.length).flatten) (compare f ops gs loc).body :=
  (Begins.first loc hf.operand).append (comparisons_pieced ops hg)

theorem begins_conditional (hf : f.Sound set ok ns) (hg : g.Sound set ok ms)
    (hh : h.Sound set ok ls) :
    Begins set ok loc (ms ++ ns ++ ls) (conditional f g h loc).body :=
  ((((Begins.first loc hg.branch).followedBy (.text (by decide))).append
    hf.grouped).followedBy (.text (by decide))).append hh.grouped

theorem begins_tuple (h : List.Forall₂ (Sound set ok) nss fs) :
    Begins set ok loc nss.flatten (tuple fs loc).body := by
  have hcomma : Pieced set ok [] (if fs.length = 1 then [.text ","] else []) := by
    split
    · exact .text (by decide)
    · exact .nil
  exact ((Begins.first loc (.text (by decide))).append
    (.commaSeparated (bares_pieced h))).followedBy hcomma |>.followedBy (.text (by decide))

theorem begins_list (h : List.Forall₂ (Sound set ok) nss fs) :
    Begins set ok loc nss.flatten (list fs loc).body :=
  ((Begins.first loc (.text (by decide))).append
    (.commaSeparated (bares_pieced h))).followedBy (.text (by decide))

theorem begins_set (h : List.Forall₂ (Sound set ok) nss fs) :
    Begins set ok loc nss.flatten (Fragment.set fs loc).body := by
  have hitems := Pieced.commaSeparated (bares_pieced h)
  apply Begins.first loc
  split
  · rename_i hempty
    obtain rfl := List.isEmpty_iff.mp hempty
    cases h
    exact .text (by decide)
  · exact (Pieced.cons_text (by decide) hitems).followedBy (.text (by decide))

theorem entries_pieced (hf : List.Forall₂ (Sound set ok) nss fs)
    (hg : List.Forall₂ (Sound set ok) mss gs) :
    List.Forall₂ (Pieced set ok) (List.zipWith (· ++ ·) nss mss) (entries fs gs) := by
  induction hf generalizing mss gs with
  | nil => exact .nil
  | cons hf _ ih =>
    cases hg with
    | nil => exact .nil
    | cons hg hgs => exact .cons ((hf.bare.followedBy (.text (by decide))).append hg.bare) (ih hgs)

theorem begins_dict (hf : List.Forall₂ (Sound set ok) nss fs)
    (hg : List.Forall₂ (Sound set ok) mss gs) :
    Begins set ok loc (List.zipWith (· ++ ·) nss mss).flatten (dict fs gs loc).body := by
  apply Begins.first loc
  have hentries := entries_pieced hf hg
  split
  · rename_i hempty
    rw [List.isEmpty_iff.mp hempty] at hentries
    rw [List.forall₂_nil_right_iff.mp hentries]
    exact .text (by decide)
  · have hcomma : Pieced set ok [] [.text ",", .newline] := .cons_text (by decide) .newline
    have hlines := ((Pieced.separated hcomma hentries).followedBy .newline).suite
    simpa [CodePrinter.suite] using
      (Pieced.cons_text (by decide) hlines).followedBy (.text (by decide))

theorem begins_named (hf : f.Sound set ok ns) (hg : g.Sound set ok ms) :
    Begins set ok loc (ns ++ ms) (named f g loc).body :=
  Begins.first loc
    ((hf.bare.followedBy (.text (by decide))).append hg.bare).parenthesized

theorem begins_starred (hf : f.Sound set ok ns) : Begins set ok loc ns (starred f loc).body :=
  (Begins.first loc (.text (by decide))).append hf.primary

theorem begins_unimplemented (construct : String) :
    Begins set ok loc [] (unimplemented construct loc).body :=
  Begins.first loc (.followedBy .problem (.text (by decide)))

theorem begins_unknown (node : Data) : Begins set ok loc [] (unknown node loc).body :=
  Begins.first loc (.fail (set.raises_fault _))

theorem snippetLines_pieced {lines : List (List Char)} (h : ∀ line ∈ lines, '\n' ∉ line) :
    Pieced set ok [] (snippetLines lines) := by
  fun_induction snippetLines lines with
  | case1 => exact .nil
  | case2 line => exact .snippetLine (oneLine_ofList.mpr (h line (by simp)))
  | case3 line lines _ ih =>
    exact .append (.snippetLine (oneLine_ofList.mpr (h line (by simp))))
      (ih fun l hl => h l (List.mem_cons_of_mem line hl))

/-- An argument goes with its nodes, and none with no nodes. -/
theorem argument_sound (h : List.Forall₂ (Sound set ok) nss fs) (index : Nat) :
    (∃ f, fs[index]? = some f ∧ f.Sound set ok (nss.getD index [])) ∨
      fs[index]? = none ∧ nss.getD index [] = [] := by
  induction h generalizing index with
  | nil => exact .inr (by simp)
  | @cons _ f _ _ hf _ ih =>
    cases index with
    | zero => exact .inl ⟨f, rfl, hf⟩
    | succ index => exact ih index

theorem firstUse_pieced (h : List.Forall₂ (Sound set ok) nss fs) (used : List Nat) (index : Nat) :
    Pieced set ok [] (firstUse fs used index) := by
  unfold firstUse
  split
  · exact .nil
  · rcases argument_sound h index with ⟨f, hget, hf⟩ | ⟨hget, -⟩
    · rw [hget]
      exact hf.issues
    · rw [hget]
      exact .nil

theorem useAll_pieced (h : List.Forall₂ (Sound set ok) nss fs) (used indices : List Nat) :
    Pieced set ok [] (useAll fs used indices) := by
  induction indices generalizing used with
  | nil => exact .nil
  | cons index indices ih => exact (firstUse_pieced h used index).append (ih _)

theorem fill_pieced (h : List.Forall₂ (Sound set ok) nss fs) (used : List Nat)
    (parts : List Template.Part) :
    Pieced set ok (parts.flatMap (Template.Part.nodes nss)) (fill fs used parts) := by
  induction parts generalizing used with
  | nil => exact .nil
  | cons part parts ih =>
    cases part with
    | text value =>
      exact (snippetLines_pieced (lineFeed_notMem_splitLines value.toList)).append (ih used)
    | arg index =>
      refine Pieced.append ?_ (ih _)
      rw [Template.Part.nodes]
      rcases argument_sound h index with ⟨f, hget, hf⟩ | ⟨hget, hnone⟩
      · rw [hget]
        exact (firstUse_pieced h used index).append hf.operandBody
      · rw [hget, hnone]
        exact .text (by decide)

theorem begins_emit (template : String) (h : List.Forall₂ (Sound set ok) nss fs) :
    Begins set ok loc
      ((Template.split (Template.expand fs.length (isConstantAt fs) template)).flatMap
        (Template.Part.nodes nss)) (emit template fs loc).body := by
  have htemplate := @Pieced.template set ok
    (Template.expand fs.length (isConstantAt fs) template)
    (fill fs (Template.choiceIndices (Template.expandSpreads fs.length template.toList)))
    (fun parts => parts.flatMap (Template.Part.nodes nss)) (fill_pieced h _)
  exact .first loc ((useAll_pieced h _ _).before htemplate)

/-! Lowered expressions have nodes without a place in them. -/

theorem ofProblem_pieced (problem : Option Problem) : Pieced set ok [] (ofProblem loc problem) := by
  cases problem with
  | none => exact .nil
  | some what => exact .problem

theorem sound_name {id : String} (h : Pieced set ok [] [.text id]) :
    (name id none).Sound set ok [] :=
  ⟨.nil, (begins_name h).pieced⟩

theorem sound_constant (value : Constant) : (constant value none).Sound set ok [] :=
  ⟨.nil, (begins_constant value).pieced⟩

theorem sound_constants (values : List Constant) :
    List.Forall₂ (Sound set ok) (values.map fun _ => []) (values.map fun c => constant c none) := by
  induction values with
  | nil => exact .nil
  | cons value values ih => exact .cons (sound_constant value) ih

theorem sound_reference {module : String} {member : Option String} (h : ok module)
    (hm : ∀ name ∈ member, ok name) : (reference module member).Sound set ok [] := by
  cases member with
  | none => exact sound_name (.name h)
  | some member => exact ⟨.nil, (begins_attr (sound_name (.name h)) (hm member rfl)).pieced⟩

theorem begins_literalForm {form : LiteralForm} (h : form.AllNames ok) :
    Begins set ok loc [] (literalForm loc form).body := by
  cases form with
  | constant value => exact begins_constant value
  | construct callee member args =>
    exact (begins_call (sound_reference h.1 h.2) (sound_constants args) .nil).cast (by simp)
  | sequence items => exact (begins_list (sound_constants items)).cast (by simp)

theorem begins_typedLiteral {names : RuntimeNames} {type : SemanticType} (value : LiteralValue)
    (hr : names.All ok) (h : type.AllNames ok) :
    Begins set ok loc [] (typedLiteral names type value loc).body :=
  begins_literalForm (SemanticType.lowerLiteral_allNames value hr h)

theorem begins_testForm {names : RuntimeNames} {form : TestForm} (hr : names.All ok)
    (h : form.AllNames ok) (hf : f.Sound set ok ns) :
    Begins set ok loc (if form.readsValue then ns else []) (testForm names f loc form).body := by
  obtain ⟨-, -, -, htype, harray, -⟩ := hr
  have hnone : (constant .none none).Sound set ok [] := sound_constant .none
  cases form with
  | always => exact begins_constant _
  | isNone =>
    exact (begins_compare _ hf (.cons hnone .nil)).cast (by simp [TestForm.readsValue])
  | primitive primitive =>
    have hcall : (call (name names.typeOf none) [f] [] none).Sound set ok ns :=
      ⟨.nil, ((begins_call (sound_name (.name htype)) (.cons hf .nil) .nil).cast (by simp)).pieced⟩
    exact (begins_compare _ hcall (.cons (sound_constant (.string primitive)) .nil)).cast
      (by simp [TestForm.readsValue])
  | «instance» className =>
    have hclass : (name className none).Sound set ok [] := sound_name (.name h)
    exact (begins_call (sound_name (.text (by decide))) (.cons hf (.cons hclass .nil)) .nil).cast
      (by simp [TestForm.readsValue])
  | sequence =>
    exact (begins_call (sound_name (.name harray)) (.cons hf .nil) .nil).cast
      (by simp [TestForm.readsValue])
  | impossible => exact begins_constant _

theorem begins_typeTest {names : RuntimeNames} (type : SemanticType) (hr : names.All ok)
    (hf : f.Sound set ok ns) :
    Begins set ok loc (if (type.testForm names).readsValue then ns else [])
      (typeTest names type f loc).body :=
  begins_testForm hr (type.testForm_allNames hr) hf

/-- A printed expression that may be missing, and is without nodes then. -/
def OptionSound (set : Settings) (ok : String → Prop) (ns : List Node) : Option Fragment → Prop
  | none => ns = []
  | some f => f.Sound set ok ns

end Fragment

open Fragment

/-- A printed parameter of which every part is put together from pieces. -/
structure ParamFragment.Sound (set : Settings) (ok : String → Prop) (ns : List Node)
    (p : ParamFragment) : Prop where
  name : ok p.name
  hint : OptionSound set ok ns p.hint

structure ParamsFragment.Sound (set : Settings) (ok : String → Prop) (ns : ParamNodes)
    (p : ParamsFragment) : Prop where
  posOnly : List.Forall₂ (ParamFragment.Sound set ok) ns.posOnly p.posOnly
  regular : List.Forall₂ (ParamFragment.Sound set ok) ns.regular p.regular
  varArg : ∀ q ∈ p.varArg, q.Sound set ok ns.varArg
  noVarArg : p.varArg = none → ns.varArg = []
  defaults : List.Forall₂ (Fragment.Sound set ok) ns.defaults p.defaults

namespace ParamFragment

variable {p : ParamFragment}

theorem Sound.print (hp : p.Sound set ok ns) (hints : Bool) :
    Pieced set ok (ParamNodes.hinted hints ns) (p.print hints) := by
  obtain ⟨name, hint⟩ := p
  have hname : Pieced set ok [] [.text name] := .name hp.name
  have hhint : OptionSound set ok ns hint := hp.hint
  cases hints with
  | false => cases hint <;> exact hname
  | true =>
    cases hint with
    | none =>
      obtain rfl : ns = [] := hhint
      exact hname
    | some f => exact .append (.cons_name hp.name (.text (by decide))) hhint.bare

theorem printDefault_pieced (p : ParamFragment) (hints : Bool) {d : Option Fragment}
    (hd : OptionSound set ok ns d) : Pieced set ok ns (p.printDefault hints d) := by
  cases d with
  | none =>
    obtain rfl : ns = [] := hd
    exact .nil
  | some f => exact .cons_text (by split <;> decide) hd.bare

end ParamFragment

namespace ParamsFragment

variable {p : ParamsFragment} {ps : ParamNodes}

theorem Sound.alignedDefaults (hp : p.Sound set ok ps) :
    List.Forall₂ (OptionSound set ok) ps.alignedDefaults p.alignedDefaults := by
  have hmissing : ∀ n, List.Forall₂ (OptionSound set ok) (List.replicate n [])
      (List.replicate n none) := by
    intro n
    induction n with
    | zero => exact .nil
    | succ n ih => exact .cons rfl ih
  rw [ParamNodes.alignedDefaults, ParamsFragment.alignedDefaults, hp.regular.length_eq,
    hp.defaults.length_eq]
  refine List.rel_append (hmissing _) (List.forall₂_map_right_iff.mpr ?_)
  exact List.forall₂_drop _ hp.defaults

theorem regular_pieced {params : List ParamFragment} {defaults : List (Option Fragment)}
    (hp : List.Forall₂ (ParamFragment.Sound set ok) nss params)
    (hd : List.Forall₂ (OptionSound set ok) mss defaults) (hints : Bool) :
    List.Forall₂ (Pieced set ok)
      (List.zipWith (fun hint default => ParamNodes.hinted hints hint ++ default) nss mss)
      (List.zipWith (fun q d => q.print hints ++ q.printDefault hints d) params defaults) := by
  induction hp generalizing mss defaults with
  | nil => exact .nil
  | @cons _ q _ _ hq _ ih =>
    cases hd with
    | nil => exact .nil
    | cons hd hds => exact .cons ((hq.print hints).append (q.printDefault_pieced hints hd)) (ih hds)

theorem Sound.print (hp : p.Sound set ok ps) (hints : Bool) :
    Pieced set ok (ps.inOrder hints) (p.print hints) := by
  have hposOnly : List.Forall₂ (Pieced set ok) (ps.posOnly.map (ParamNodes.hinted hints))
      (p.posOnly.map (·.print hints)) :=
    List.forall₂_map_left_iff.mpr (List.forall₂_map_right_iff.mpr
      (hp.posOnly.imp fun _ _ hq => hq.print hints))
  have hslash : ∃ slash, List.Forall₂ (Pieced set ok) slash
      (if p.posOnly.isEmpty then [] else [[.text "/"]]) ∧ slash.flatten = [] := by
    split
    · exact ⟨[], .nil, rfl⟩
    · exact ⟨[[]], .cons (.text (by decide)) .nil, rfl⟩
  have hvarArg : ∃ star, List.Forall₂ (Pieced set ok) star
      (p.varArg.toList.map fun q => .text "*" :: q.print hints) ∧
      star.flatten = ParamNodes.hinted hints ps.varArg := by
    cases hv : p.varArg with
    | none => exact ⟨[], .nil, by simp [ParamNodes.hinted, hp.noVarArg hv]⟩
    | some q =>
      exact ⟨[_], .cons (.cons_text (by decide) ((hp.varArg q hv).print hints)) .nil, by simp⟩
  obtain ⟨slash, hslash, hnone⟩ := hslash
  obtain ⟨star, hstar, hnodes⟩ := hvarArg
  have hitems := List.rel_append (List.rel_append (List.rel_append hposOnly hslash)
    (regular_pieced hp.regular hp.alignedDefaults hints)) hstar
  have hall := Pieced.commaSeparated hitems
  rw [List.flatten_append, List.flatten_append, List.flatten_append, hnone, hnodes,
    List.append_nil] at hall
  exact hall

end ParamsFragment

theorem Fragment.begins_lambda {params : ParamsFragment} {f : Fragment} {loc : Option Location}
    {ps : ParamNodes} (hp : params.Sound set ok ps) (hf : f.Sound set ok ns) :
    Begins set ok loc (ps.inOrder false ++ ns) (Fragment.lambda params f loc).body := by
  have hspace : Pieced set ok [] (if params.isEmpty then [] else [.text " "]) := by
    split
    · exact .nil
    · exact .text (by decide)
  exact (((Begins.first loc (.text (by decide))).followedBy hspace).append
    (hp.print false)).followedBy (.text (by decide)) |>.append hf.bare

/-- An expression whose body begins with its mark is sound. -/
theorem Expr.sound_of_begins (e : Expr) {f : Fragment} (he : e.fragment set.names = f)
    (hl : e.located set.names = (Node.expr e).leading ns) (hi : Pieced set ok [] f.issues)
    (hb : Begins set ok e.loc ns f.body) :
    (e.fragment set.names).Sound set ok (e.located set.names) := by
  subst he
  rw [hl]
  exact ⟨hi, (Node.expr e).pieced hb⟩

mutual

theorem Expr.sound (hr : set.names.All ok) : (e : Expr) → e.AllNames ok →
    (e.fragment set.names).Sound set ok (e.located set.names)
  | .name id loc, h => by
    rw [Expr.AllNames] at h
    exact Expr.sound_of_begins _ (by rw [Expr.fragment]; rfl) (by rw [Expr.located])
      .nil (begins_name (.name h))
  | .constant value loc, _ =>
    Expr.sound_of_begins _ (by rw [Expr.fragment]; rfl) (by rw [Expr.located])
      .nil (begins_constant value)
  | .call func args keywords loc, h => by
    rw [Expr.AllNames] at h
    exact Expr.sound_of_begins _ (by rw [Expr.fragment]; rfl) (by rw [Expr.located])
      .nil (begins_call (func.sound hr h.1) (exprs_sound hr args h.2.1)
        (keywords_sound hr keywords h.2.2))
  | .attr value member loc, h => by
    rw [Expr.AllNames] at h
    exact Expr.sound_of_begins _ (by rw [Expr.fragment]; rfl) (by rw [Expr.located]) .nil
      (begins_attr (value.sound hr h.1) h.2)
  | .subscript value slice loc, h => by
    rw [Expr.AllNames] at h
    exact Expr.sound_of_begins _ (by rw [Expr.fragment]; rfl) (by rw [Expr.located]) .nil
      (begins_subscript (value.sound hr h.1) (slice.sound hr h.2))
  | .binary left op right loc, h => by
    rw [Expr.AllNames] at h
    exact Expr.sound_of_begins _ (by rw [Expr.fragment]; rfl) (by rw [Expr.located]) .nil
      (begins_binary op (left.sound hr h.1) (right.sound hr h.2))
  | .unary op operand loc, h => by
    rw [Expr.AllNames] at h
    exact Expr.sound_of_begins _ (by rw [Expr.fragment]; rfl) (by rw [Expr.located]) .nil
      (begins_unary op (operand.sound hr h))
  | .boolean op values loc, h => by
    rw [Expr.AllNames] at h
    exact Expr.sound_of_begins _ (by rw [Expr.fragment]; rfl) (by rw [Expr.located]) .nil
      (begins_boolean op (exprs_sound hr values h))
  | .compare left ops comparators loc, h => by
    rw [Expr.AllNames] at h
    exact Expr.sound_of_begins _ (by rw [Expr.fragment]; rfl) (by rw [Expr.located]) .nil
      (begins_compare ops (left.sound hr h.1) (exprs_sound hr comparators h.2))
  | .conditional test body orElse loc, h => by
    rw [Expr.AllNames] at h
    exact Expr.sound_of_begins _ (by rw [Expr.fragment]; rfl) (by rw [Expr.located]) .nil
      (begins_conditional (test.sound hr h.1) (body.sound hr h.2.1) (orElse.sound hr h.2.2))
  | .lambda params body loc, h => by
    rw [Expr.AllNames] at h
    exact Expr.sound_of_begins _ (by rw [Expr.fragment]; rfl) (by rw [Expr.located]) .nil
      (begins_lambda (params.sound hr h.1) (body.sound hr h.2))
  | .tuple elements loc, h => by
    rw [Expr.AllNames] at h
    exact Expr.sound_of_begins _ (by rw [Expr.fragment]; rfl) (by rw [Expr.located]) .nil
      (begins_tuple (exprs_sound hr elements h))
  | .list elements loc, h => by
    rw [Expr.AllNames] at h
    exact Expr.sound_of_begins _ (by rw [Expr.fragment]; rfl) (by rw [Expr.located]) .nil
      (begins_list (exprs_sound hr elements h))
  | .set elements loc, h => by
    rw [Expr.AllNames] at h
    exact Expr.sound_of_begins _ (by rw [Expr.fragment]; rfl) (by rw [Expr.located]) .nil
      (begins_set (exprs_sound hr elements h))
  | .dict keys values loc, h => by
    rw [Expr.AllNames] at h
    exact Expr.sound_of_begins _ (by rw [Expr.fragment]; rfl) (by rw [Expr.located]) .nil
      (begins_dict (exprs_sound hr keys h.1) (exprs_sound hr values h.2))
  | .named target value loc, h => by
    rw [Expr.AllNames] at h
    exact Expr.sound_of_begins _ (by rw [Expr.fragment]; rfl) (by rw [Expr.located]) .nil
      (begins_named (target.sound hr h.1) (value.sound hr h.2))
  | .starred value loc, h => by
    rw [Expr.AllNames] at h
    exact Expr.sound_of_begins _ (by rw [Expr.fragment]; rfl) (by rw [Expr.located]) .nil
      (begins_starred (value.sound hr h))
  | .emit template args loc, h => by
    rw [Expr.AllNames] at h
    exact Expr.sound_of_begins _ (by rw [Expr.fragment]; rfl) (by rw [Expr.located]) .nil
      ((begins_emit template (exprs_sound hr args h)).cast (by simp [fragments_eq_map]))
  | .typedLiteral type value loc, h => by
    rw [Expr.AllNames] at h
    exact Expr.sound_of_begins _ (by rw [Expr.fragment]; rfl) (by rw [Expr.located])
      (ofProblem_pieced _)
      (begins_typedLiteral value hr h)
  | .typeTest type value loc, h => by
    rw [Expr.AllNames] at h
    exact Expr.sound_of_begins _ (by rw [Expr.fragment]; rfl) (by rw [Expr.located])
      (ofProblem_pieced _)
      (begins_typeTest type hr (value.sound hr h))
  | .yield _ loc, _ =>
    Expr.sound_of_begins _ (by rw [Expr.fragment]; rfl) (by rw [Expr.located])
      .nil (begins_unimplemented _)
  | .yieldFrom _ loc, _ =>
    Expr.sound_of_begins _ (by rw [Expr.fragment]; rfl) (by rw [Expr.located])
      .nil (begins_unimplemented _)
  | .formattedValue _ _ loc, _ =>
    Expr.sound_of_begins _ (by rw [Expr.fragment]; rfl) (by rw [Expr.located])
      .nil (begins_unimplemented _)
  | .unknown node loc, _ =>
    Expr.sound_of_begins _ (by rw [Expr.fragment]; rfl) (by rw [Expr.located])
      .nil (begins_unknown node)

theorem exprs_sound (hr : set.names.All ok) : (es : List Expr) → exprsAllNames ok es →
    List.Forall₂ (Fragment.Sound set ok) (exprsLocated set.names es) (fragments set.names es)
  | [], _ => by
    rw [exprsLocated, fragments]
    exact .nil
  | e :: es, h => by
    rw [exprsAllNames] at h
    rw [exprsLocated, fragments]
    exact .cons (e.sound hr h.1) (exprs_sound hr es h.2)

theorem option_sound (hr : set.names.All ok) : (o : Option Expr) → optionAllNames ok o →
    OptionSound set ok (optionLocated set.names o) (optionFragment set.names o)
  | none, _ => by
    rw [optionLocated, optionFragment]
    rfl
  | some e, h => by
    rw [optionAllNames] at h
    rw [optionLocated, optionFragment]
    exact e.sound hr h

theorem keywords_sound (hr : set.names.All ok) : (ks : List Keyword) → keywordsAllNames ok ks →
    List.Forall₂ (fun ns k => ok k.1 ∧ k.2.Sound set ok ns) (keywordsLocated set.names ks)
      (keywordFragments set.names ks)
  | [], _ => by
    rw [keywordsLocated, keywordFragments]
    exact .nil
  | .mk name value :: ks, h => by
    rw [keywordsAllNames] at h
    rw [keywordsLocated, keywordFragments, Keyword.fragment]
    exact .cons ⟨h.1, value.sound hr h.2.1⟩ (keywords_sound hr ks h.2.2)

theorem Param.sound (hr : set.names.All ok) : (p : Param) → p.AllNames ok →
    (p.fragment set.names).Sound set ok (p.located set.names)
  | .mk name hint, h => by
    rw [Param.AllNames] at h
    rw [Param.fragment, Param.located]
    exact ⟨h.1, option_sound hr hint h.2⟩

theorem params_sound (hr : set.names.All ok) : (ps : List Param) → paramsAllNames ok ps →
    List.Forall₂ (ParamFragment.Sound set ok) (paramsLocated set.names ps)
      (paramFragments set.names ps)
  | [], _ => by
    rw [paramsLocated, paramFragments]
    exact .nil
  | p :: ps, h => by
    rw [paramsAllNames] at h
    rw [paramsLocated, paramFragments]
    exact .cons (p.sound hr h.1) (params_sound hr ps h.2)

theorem Params.sound (hr : set.names.All ok) : (ps : Params) → ps.AllNames ok →
    (ps.fragment set.names).Sound set ok (ps.located set.names)
  | .mk posOnly regular none defaults, h => by
    rw [Params.AllNames] at h
    rw [Params.fragment, Params.located, optionParamFragment, optionParamLocated]
    exact ⟨params_sound hr posOnly h.1, params_sound hr regular h.2.1, by simp, by simp,
      exprs_sound hr defaults h.2.2.2⟩
  | .mk posOnly regular (some varArg) defaults, h => by
    rw [Params.AllNames, optionParamAllNames] at h
    rw [Params.fragment, Params.located, optionParamFragment, optionParamLocated]
    refine ⟨params_sound hr posOnly h.1, params_sound hr regular h.2.1, ?_, by simp,
      exprs_sound hr defaults h.2.2.2⟩
    intro q hq
    obtain rfl := Option.mem_some_iff.mp hq
    exact varArg.sound hr h.2.2.1

end

namespace Pieced

/-- An empty suite has no nodes, with `pass` in it or not. -/
theorem orPass {ss : List Stmt} (h : Pieced set ok (stmtsLocated set.names ss) is) :
    Pieced set ok (stmtsLocated set.names ss) (orPass is ss.isEmpty) := by
  cases ss with
  | nil =>
    rw [stmtsLocated]
    exact cons_text (by decide) endLine
  | cons s ss => exact h

theorem block {value : String} (hv : Solid value) (h : Pieced set ok ns is) :
    Pieced set ok ns (.text value :: CodePrinter.block is) :=
  append (header hv) (h.suite.followedBy newline)

/-- A header that ends with a colon, and its suite. -/
theorem colonSuite {ss : List Stmt} (h : Pieced set ok (stmtsLocated set.names ss) is) :
    Pieced set ok (stmtsLocated set.names ss)
      (.text ":" :: CodePrinter.suite (CodePrinter.orPass is ss.isEmpty)) :=
  cons_text (by decide) h.orPass.suite

theorem colonBlock {ss : List Stmt} (h : Pieced set ok (stmtsLocated set.names ss) is) :
    Pieced set ok (stmtsLocated set.names ss)
      (.text ":" :: CodePrinter.block (CodePrinter.orPass is ss.isEmpty)) :=
  block (by decide) h.orPass

/-- A keyword and an optional expression. -/
theorem optional {o : Option Fragment} {value : String} (hv : Solid value) :
    OptionSound set ok ns o →
    Pieced set ok ns (match o with | some f => .text value :: f.bare | none => []) := by
  intro h
  cases o with
  | none =>
    obtain rfl : ns = [] := h
    exact nil
  | some f => exact cons_text hv h.bare

theorem asName {name : Option String} : (∀ n ∈ name, ok n) →
    Pieced set ok [] (match name with | some name => [.text " as ", .text name] | none => []) := by
  intro h
  cases name with
  | none => exact nil
  | some value => exact cons_text (by decide) (name (h value rfl))

theorem decorators {fs : List Fragment} (h : List.Forall₂ (Fragment.Sound set ok) nss fs) :
    Pieced set ok nss.flatten (fs.flatMap decorator) :=
  flatMap_pieced (fun _ _ hf => (cons_text (by decide) hf.bare).followedBy newline) h

theorem assignTargets {fs : List Fragment} (h : List.Forall₂ (Fragment.Sound set ok) nss fs) :
    Pieced set ok nss.flatten (fs.flatMap assignTarget) :=
  flatMap_pieced (fun _ _ hf => hf.bare.followedBy (text (by decide))) h

theorem aliases {names : List Alias} (h : ∀ a ∈ names, a.AllNames ok) :
    Pieced set ok [] (aliases names) := by
  have hitem : ∀ a : Alias, a.AllNames ok → Pieced set ok [] a.print := by
    rintro a ⟨hn, has⟩
    unfold Alias.print
    split
    · rename_i asName heq
      split
      · exact name hn
      · exact cons_name hn (cons_text (by decide) (name (has asName heq)))
    · exact name hn
  have hitems : Pieced set ok [] (CodePrinter.commaSeparated (names.map Alias.print)) := by
    have hall : List.Forall₂ (Pieced set ok) (names.map fun _ => []) (names.map Alias.print) := by
      rw [List.forall₂_map_left_iff, List.forall₂_map_right_iff, List.forall₂_same]
      exact fun a ha => hitem a (h a ha)
    simpa using commaSeparated hall
  unfold CodePrinter.aliases
  simp only
  split
  · exact hitems.parenthesized
  · exact hitems

theorem nameList {keyword : String} {values : List String} (hk : Solid keyword)
    (h : ∀ n ∈ values, ok n) : Pieced set ok [] (nameList keyword values) := by
  unfold CodePrinter.nameList
  split
  · exact nil
  · exact names hk h

theorem stmts {s : Stmt} {ss : List Stmt} (hs : Pieced set ok ns (s.instrs set))
    (hss : Pieced set ok ms (stmtsInstrs set ss)) :
    Pieced set ok (ns ++ ms) (stmtsInstrs set (s :: ss)) := by
  rw [stmtsInstrs]
  exact .append hs (.append .endLine hss)

/-- A part that is printed only if it has statements. -/
theorem unlessEmpty {ss : List Stmt} (h : Pieced set ok (stmtsLocated set.names ss) is) :
    Pieced set ok (stmtsLocated set.names ss) (if ss.isEmpty then [] else is) := by
  cases ss with
  | nil =>
    rw [stmtsLocated]
    exact nil
  | cons s ss => exact h

end Pieced

/-- A statement that begins with its mark is put together from pieces. -/
theorem Stmt.pieced_of_begins (s : Stmt) (he : s.instrs set = is)
    (hl : s.located set.names = (Node.stmt s).leading ns) (hb : Begins set ok s.loc ns is) :
    Pieced set ok (s.located set.names) (s.instrs set) := by
  subst he
  rw [hl]
  exact (Node.stmt s).pieced hb

mutual

theorem Stmt.pieced (hr : set.names.All ok) : (s : Stmt) → s.AllNames set ok →
    Pieced set ok (s.located set.names) (s.instrs set)
  | .functionDef name params body decorators returns loc, h => by
    rw [Stmt.AllNames] at h
    obtain ⟨hn, hp, hb, hd, ht⟩ := h
    have hopen : Begins set ok loc (exprsLocated set.names decorators).flatten (markAt loc ++
        (fragments set.names decorators).flatMap decorator ++
        [.text "def ", .text name, .text "("]) :=
      (Begins.first loc (.decorators (exprs_sound hr decorators hd))).followedBy
        (.cons_text (by decide) (.cons_name hn (.text (by decide))))
    have hparams := hopen.append ((params.sound hr hp).print true)
    exact Stmt.pieced_of_begins _ (by unfold Stmt.instrs; rfl) (by rw [Stmt.located])
      (((hparams.followedBy (.text (by decide))).append
        (.optional (by decide) (option_sound hr returns ht))).append
        (stmts_pieced hr body hb).colonBlock)
  | .asyncFunctionDef _ _ _ _ _ loc, _ =>
    Stmt.pieced_of_begins _ (by unfold Stmt.instrs; rfl) (by rw [Stmt.located])
      (Begins.first loc (.followedBy .problem (.text (by decide))))
  | .classDef name bases body decorators loc, h => by
    rw [Stmt.AllNames] at h
    obtain ⟨hn, hbases, hb, hd⟩ := h
    have hparens : Pieced set ok (exprsLocated set.names bases).flatten (if bases.isEmpty then []
        else parenthesized (commaSeparated ((fragments set.names bases).map (·.bare)))) := by
      have hbases := exprs_sound hr bases hbases
      cases bases with
      | nil =>
        rw [exprsLocated]
        exact .nil
      | cons base bases => exact (Pieced.commaSeparated (bares_pieced hbases)).parenthesized
    exact Stmt.pieced_of_begins _ (by rw [Stmt.instrs]) (by rw [Stmt.located])
      ((((Begins.first loc (.decorators (exprs_sound hr decorators hd))).followedBy
        (.cons_text (by decide) (.name hn))).append hparens).append
        (stmts_pieced hr body hb).colonSuite)
  | .conditional test body orElse loc, h => by
    rw [Stmt.AllNames] at h
    exact Stmt.pieced_of_begins _ (by rw [Stmt.instrs]) (by rw [Stmt.located])
      (((Begins.first loc (.cons_text (by decide) (test.sound hr h.1).bare)).append
        (stmts_pieced hr body h.2.1).colonBlock).append (else_pieced hr orElse h.2.2))
  | .forLoop target iter body loc, h => by
    rw [Stmt.AllNames] at h
    exact Stmt.pieced_of_begins _ (by rw [Stmt.instrs]) (by rw [Stmt.located])
      (((Begins.first loc (.cons_text (by decide) (target.sound hr h.1).bare)).append
        (.cons_text (by decide) (iter.sound hr h.2.1).bare)).append
        (stmts_pieced hr body h.2.2).colonSuite)
  | .asyncFor _ _ _ loc, _ =>
    Stmt.pieced_of_begins _ (by unfold Stmt.instrs; rfl) (by rw [Stmt.located])
      (Begins.first loc (.followedBy .problem (.text (by decide))))
  | .whileLoop test body loc, h => by
    rw [Stmt.AllNames] at h
    exact Stmt.pieced_of_begins _ (by rw [Stmt.instrs]) (by rw [Stmt.located])
      ((Begins.first loc (.cons_text (by decide) (test.sound hr h.1).bare)).append
        (stmts_pieced hr body h.2).colonSuite)
  | .tryBlock body handlers orElse finalBody loc, h => by
    rw [Stmt.AllNames] at h
    obtain ⟨hb, hh, ho, hf⟩ := h
    have helse : Pieced set ok (stmtsLocated set.names orElse)
        (if orElse.isEmpty then [] else .text "else:" :: block (stmtsInstrs set orElse)) :=
      ((stmts_pieced hr orElse ho).block (by decide)).unlessEmpty
    have hfinally : Pieced set ok (stmtsLocated set.names finalBody)
        (if finalBody.isEmpty then []
          else .text "finally:" :: block (stmtsInstrs set finalBody)) :=
      ((stmts_pieced hr finalBody hf).block (by decide)).unlessEmpty
    exact Stmt.pieced_of_begins _ (by rw [Stmt.instrs]) (by rw [Stmt.located])
      ((((Begins.first loc ((stmts_pieced hr body hb).orPass.block (by decide))).append
        (handlers_pieced hr handlers hh)).append helse).append hfinally)
  | .importNames names loc, h => by
    rw [Stmt.AllNames] at h
    refine Stmt.pieced_of_begins _ (by rw [Stmt.instrs]) (by rw [Stmt.located])
      (Begins.first loc ?_)
    split
    · exact .nil
    · exact .cons_text (by decide) (.aliases h)
  | .importFrom module names loc, h => by
    rw [Stmt.AllNames] at h
    refine Stmt.pieced_of_begins _ (by rw [Stmt.instrs]) (by rw [Stmt.located])
      (Begins.first loc ?_)
    split
    · exact .nil
    · exact (Pieced.cons_text (by decide) (.resolved h.1)).append
        (.cons_text (by decide) (.aliases h.2))
  | .assign targets value loc, h => by
    rw [Stmt.AllNames] at h
    exact Stmt.pieced_of_begins _ (by rw [Stmt.instrs]) (by rw [Stmt.located])
      ((Begins.first loc (.assignTargets (exprs_sound hr targets h.1))).append
        (value.sound hr h.2).bare)
  | .returnValue value loc, h => by
    rw [Stmt.AllNames] at h
    exact Stmt.pieced_of_begins _ (by unfold Stmt.instrs; rfl) (by rw [Stmt.located])
      (Begins.first loc
        (.cons_text (by decide) (.optional (by decide) (option_sound hr value h))))
  | .raise exception loc, h => by
    rw [Stmt.AllNames] at h
    exact Stmt.pieced_of_begins _ (by rw [Stmt.instrs]) (by rw [Stmt.located])
      (Begins.first loc (.cons_text (by decide) (exception.sound hr h).bare))
  | .expr value loc, h => by
    rw [Stmt.AllNames] at h
    exact Stmt.pieced_of_begins _ (by rw [Stmt.instrs]) (by rw [Stmt.located])
      (Begins.first loc (value.sound hr h).bare)
  | .pass loc, _ | .breakLoop loc, _ | .continueLoop loc, _ =>
    Stmt.pieced_of_begins _ (by rw [Stmt.instrs]) (by rw [Stmt.located])
      (Begins.first loc (.text (by decide)))
  | .globalNames names loc, h | .nonlocalNames names loc, h => by
    rw [Stmt.AllNames] at h
    exact Stmt.pieced_of_begins _ (by rw [Stmt.instrs]) (by rw [Stmt.located])
      (Begins.first loc (.nameList (by decide) h))
  | .unknown _ node loc, _ =>
    Stmt.pieced_of_begins _ (by rw [Stmt.instrs]) (by rw [Stmt.located])
      (Begins.first loc (.fail (set.raises_fault _)))

theorem stmts_pieced (hr : set.names.All ok) : (ss : List Stmt) → stmtsAllNames set ok ss →
    Pieced set ok (stmtsLocated set.names ss) (stmtsInstrs set ss)
  | [], _ => by
    rw [stmtsLocated, stmtsInstrs]
    exact .nil
  | s :: ss, h => by
    rw [stmtsAllNames] at h
    rw [stmtsLocated]
    exact .stmts (s.pieced hr h.1) (stmts_pieced hr ss h.2)

theorem else_pieced (hr : set.names.All ok) : (ss : List Stmt) → stmtsAllNames set ok ss →
    Pieced set ok (elseLocated set.names ss) (elseInstrs set ss)
  | [], _ => by
    rw [elseLocated, elseInstrs]
    exact .nil
  | [s], h => by
    rw [stmtsAllNames] at h
    have hall := Pieced.stmts (s.pieced hr h.1) (stmts_pieced hr [] h.2)
    cases s with
    | pass loc =>
      rw [elseLocated, elseInstrs]
      exact .nil
    | conditional test body orElse loc =>
      have hs := h.1
      rw [Stmt.AllNames] at hs
      rw [elseLocated]
      refine (Node.elseIf test body orElse loc).pieced ?_
      rw [Node.instrs, elseInstrs]
      exact ((Begins.first loc (.cons_text (by decide) (test.sound hr hs.1).bare)).append
        (stmts_pieced hr body hs.2.1).colonBlock).append (else_pieced hr orElse hs.2.2)
    | _ =>
      rw [elseLocated_eq _ _ (by simp) (by simp), elseInstrs_eq _ _ (by simp) (by simp)]
      exact hall.block (by decide)
  | s :: t :: ss, h => by
    rw [stmtsAllNames] at h
    rw [elseLocated_eq _ _ (by simp) (by simp), elseInstrs_eq _ _ (by simp) (by simp)]
    exact (Pieced.stmts (s.pieced hr h.1) (stmts_pieced hr (t :: ss) h.2)).block (by decide)

theorem Handler.pieced (hr : set.names.All ok) : (h : Handler) → h.AllNames set ok →
    Pieced set ok (h.located set.names) (h.instrs set)
  | .mk body type name loc, h => by
    rw [Handler.AllNames] at h
    obtain ⟨hb, ht, hn⟩ := h
    rw [Handler.located]
    refine (Node.handler body type name loc).pieced ?_
    rw [Node.instrs, Handler.instrs.eq_def]
    dsimp only
    exact ((Begins.first loc
      (.cons_text (by decide) (.optional (by decide) (option_sound hr type ht)))).followedBy
      (.asName hn)).append (stmts_pieced hr body hb).colonBlock

theorem handlers_pieced (hr : set.names.All ok) : (hs : List Handler) →
    handlersAllNames set ok hs →
    Pieced set ok (handlersLocated set.names hs) (handlersInstrs set hs)
  | [], _ => by
    rw [handlersLocated, handlersInstrs]
    exact .nil
  | h :: hs, ha => by
    rw [handlersAllNames] at ha
    rw [handlersLocated, handlersInstrs]
    exact .append (h.pieced hr ha.1) (handlers_pieced hr hs ha.2)

end

/-- Where names have no line feed, no text has one. -/
theorem Pieced.composed (h : Pieced set OneLine ns is) : Composed is := by
  induction h with
  | nil => exact .nil
  | append _ _ ihi ihj => exact ihi.append ihj
  | text h => exact .text h.2
  | name h => exact .text h
  | names hk h => exact .cons_text hk.2 (.text (oneLine_intercalate (by decide) h))
  | header h => exact .cons_text h.2 (.text (by decide))
  | newline => exact .newline
  | endLine => exact .endLine
  | suite _ ih => exact (Composed.deeper.append ih).append .dedent
  | snippetLine h => exact .snippetLine h
  | template _ ih => exact .template ih
  | problem => exact .problem
  | fail => exact .fail
  | @node n ns own hn _ ih =>
    rw [hn]
    cases n.loc with
    | none => exact ih
    | some loc => exact .append .mark ih

/-- Whatever the names are, the nodes are printed in order. -/
theorem Pieced.prints (h : Pieced set ok ns is) : Prints set ns is := by
  induction h with
  | nil => exact .nil
  | append _ _ ihi ihj => exact ihi.append ihj
  | names | header => exact .append (.ordinary rfl) (.ordinary rfl)
  | suite _ ih =>
    have hopen : Prints set [] [.newline, .indent] := .append (.ordinary rfl) (.ordinary rfl)
    simpa [CodePrinter.suite] using (hopen.append ih).append (.ordinary rfl)
  | template _ ih => exact .template ih
  | fail h => exact .fail h
  | node hn _ ih => exact .node hn ih
  | _ => exact .ordinary rfl

def Tree.located (names : RuntimeNames) : Tree → List Node
  | .expr e => e.located names
  | .stmts ss => stmtsLocated names ss

theorem RuntimeNames.all_of_forall (names : RuntimeNames) (h : ∀ name, ok name) : names.All ok :=
  ⟨h _, h _, h _, h _, h _, h _, h _, h _⟩

theorem Stmt.prints (set : Settings) (s : Stmt) :
    Prints set (s.located set.names) (s.instrs set) := by
  have hany : ∀ name : String, (fun _ => True) name := fun _ => trivial
  exact (s.pieced (set.names.all_of_forall hany) (s.allNames_of_forall hany)).prints

theorem Params.prints (set : Settings) (ps : Params) (hints : Bool) :
    Prints set ((ps.located set.names).inOrder hints) ((ps.fragment set.names).print hints) := by
  have hany : ∀ name : String, (fun _ => True) name := fun _ => trivial
  exact ((ps.sound (set.names.all_of_forall hany) (ps.allNames_of_forall hany)).print hints).prints

/-- A tree prints its located nodes in order. -/
theorem Tree.prints (set : Settings) (t : Tree) :
    Prints set (t.located set.names) (t.instrs set) := by
  have hany : ∀ name : String, (fun _ => True) name := fun _ => trivial
  have hr := set.names.all_of_forall hany
  cases t with
  | expr e => exact (e.sound hr (e.allNames_of_forall hany)).bare.prints
  | stmts ss => exact (stmts_pieced hr ss (stmtsAllNames_of_forall hany ss)).prints

end CodePrinter
