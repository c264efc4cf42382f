import CodePrinter.Print.Stmt

/-! The nodes of a tree that have a place, in the order in which they are printed.

Main statement: what can come after the first of the instructions that print some nodes
(`Prints.follows`). -/
namespace CodePrinter

def Expr.loc : Expr → Option Location
  | .name _ loc => loc
  | .constant _ loc => loc
  | .call _ _ _ loc => loc
  | .attr _ _ loc => loc
  | .subscript _ _ loc => loc
  | .binary _ _ _ loc => loc
  | .unary _ _ loc => loc
  | .boolean _ _ loc => loc
  | .compare _ _ _ loc => loc
  | .conditional _ _ _ loc => loc
  | .lambda _ _ loc => loc
  | .tuple _ loc => loc
  | .list _ loc => loc
  | .set _ loc => loc
  | .dict _ _ loc => loc
  | .named _ _ loc => loc
  | .starred _ loc => loc
  | .emit _ _ loc => loc
  | .typedLiteral _ _ loc => loc
  | .typeTest _ _ loc => loc
  | .yield _ loc => loc
  | .yieldFrom _ loc => loc
  | .formattedValue _ _ loc => loc
  | .unknown _ loc => loc

/-- What a mapping can be recorded for. -/
inductive Node where
  | expr (e : Expr)
  | stmt (s : Stmt)
  /-- A conditional that is the only statement of an `else` part. -/
  | elseIf (test : Expr) (body orElse : List Stmt) (loc : Option Location)
  | handler (body : List Stmt) (type : Option Expr) (name : Option String)
      (loc : Option Location)

namespace Node

def loc : Node → Option Location
  | .expr e => e.loc
  | .stmt s => s.loc
  | .elseIf _ _ _ loc => loc
  | .handler _ _ _ loc => loc

/-- The instructions that print a node. -/
def instrs (set : Settings) : Node → List Instr
  | .expr e => (e.fragment set.names).body
  | .stmt s => s.instrs set
  | .elseIf test body orElse loc => elseInstrs set [.conditional test body orElse loc]
  | .handler body type name loc => (Handler.mk body type name loc).instrs set

/-- A node and those in it; one without a place is left out. -/
def leading (n : Node) (inner : List Node) : List Node :=
  if n.loc.isSome then n :: inner else inner

theorem leading_none {n : Node} {inner : List Node} (h : n.loc = none) :
    n.leading inner = inner := by
  simp [leading, h]

theorem leading_some {n : Node} {inner : List Node} {loc : Location} (h : n.loc = some loc) :
    n.leading inner = n :: inner := by
  simp [leading, h]

end Node

theorem Fragment.literalForm_body (loc : Option Location) (form : LiteralForm) :
    ∃ own, (Fragment.literalForm loc form).body = markAt loc ++ own := by
  cases form <;> simp [Fragment.literalForm, Fragment.constant, Fragment.call, Fragment.list]

theorem Fragment.testForm_body (names : RuntimeNames) (f : Fragment) (loc : Option Location)
    (form : TestForm) : ∃ own, (Fragment.testForm names f loc form).body = markAt loc ++ own := by
  cases form <;> simp [Fragment.testForm, Fragment.constant, Fragment.call, Fragment.compare]

/-- What prints an expression begins with its mark. -/
theorem Expr.body_eq (names : RuntimeNames) (e : Expr) :
    ∃ own, (e.fragment names).body = markAt e.loc ++ own := by
  cases e with
  | typedLiteral type value loc =>
    rw [Expr.fragment]
    exact Fragment.literalForm_body loc _
  | typeTest type value loc =>
    rw [Expr.fragment]
    exact Fragment.testForm_body names _ loc _
  | _ =>
    simp [Expr.fragment, Expr.loc, Fragment.name, Fragment.constant, Fragment.call, Fragment.attr,
      Fragment.subscript, Fragment.binary, Fragment.unary, Fragment.boolean, Fragment.compare,
      Fragment.conditional, Fragment.lambda, Fragment.tuple, Fragment.list, Fragment.set,
      Fragment.dict, Fragment.named, Fragment.starred, Fragment.emit, Fragment.unimplemented,
      Fragment.unknown]

theorem Stmt.instrs_eq (set : Settings) (s : Stmt) :
    ∃ own, s.instrs set = markAt s.loc ++ own := by
  cases s <;> simp [Stmt.instrs, Stmt.loc]

namespace Node

/-- Every node with a place begins with its mark. -/
theorem instrs_eq (set : Settings) (n : Node) : ∃ own, n.instrs set = markAt n.loc ++ own := by
  cases n with
  | expr e => exact e.body_eq set.names
  | stmt s => exact s.instrs_eq set
  | elseIf test body orElse loc => simp [Node.instrs, Node.loc, elseInstrs]
  | handler body type name loc => simp [Node.instrs, Node.loc, Handler.instrs.eq_def]

end Node

/-- The located nodes of a parameter list, part by part. -/
structure ParamNodes where
  posOnly : List (List Node)
  regular : List (List Node)
  varArg : List Node
  defaults : List (List Node)

namespace ParamNodes

/-- The defaults side by side with the parameters: they belong to the last ones. -/
def alignedDefaults (ns : ParamNodes) : List (List Node) :=
  List.replicate (ns.regular.length - ns.defaults.length) [] ++
    ns.defaults.drop (ns.defaults.length - ns.regular.length)

/-- Type hints are printed in definitions, not in lambdas. -/
def hinted (hints : Bool) (ns : List Node) : List Node := if hints then ns else []

def inOrder (hints : Bool) (ns : ParamNodes) : List Node :=
  (ns.posOnly.map (hinted hints)).flatten ++
    (List.zipWith (fun hint default => hinted hints hint ++ default) ns.regular
      ns.alignedDefaults).flatten ++
    hinted hints ns.varArg

end ParamNodes

/-- The value is printed in a type test, unless the answer is known without it. -/
def TestForm.readsValue : TestForm → Bool
  | .always => false
  | .impossible => false
  | _ => true

/-- The nodes of the argument that a part of a template refers to. -/
def Template.Part.nodes (args : List (List Node)) : Template.Part → List Node
  | .text _ => []
  | .arg index => args.getD index []

mutual

/-- The located nodes of an expression, in the order in which they are printed. What is not printed
is left out, and the arguments of a snippet are there as often as they are referred to. -/
def Expr.located (names : RuntimeNames) : Expr → List Node
  | .call func args keywords loc =>
    (Node.expr (.call func args keywords loc)).leading
      (func.located names ++ (exprsLocated names args).flatten ++
        (keywordsLocated names keywords).flatten)
  | .attr value member loc => (Node.expr (.attr value member loc)).leading (value.located names)
  | .subscript value slice loc =>
    (Node.expr (.subscript value slice loc)).leading (value.located names ++ slice.located names)
  | .binary left op right loc =>
    (Node.expr (.binary left op right loc)).leading (left.located names ++ right.located names)
  | .unary op operand loc => (Node.expr (.unary op operand loc)).leading (operand.located names)
  | .boolean op values loc =>
    (Node.expr (.boolean op values loc)).leading (exprsLocated names values).flatten
  | .compare left ops comparators loc =>
    (Node.expr (.compare left ops comparators loc)).leading
      (left.located names ++ ((exprsLocated names comparators).take ops.length).flatten)
  | .conditional test body orElse loc =>
    (Node.expr (.conditional test body orElse loc)).leading
      (body.located names ++ test.located names ++ orElse.located names)
  | .lambda params body loc =>
    (Node.expr (.lambda params body loc)).leading
      ((params.located names).inOrder false ++ body.located names)
  | .tuple elements loc =>
    (Node.expr (.tuple elements loc)).leading (exprsLocated names elements).flatten
  | .list elements loc =>
    (Node.expr (.list elements loc)).leading (exprsLocated names elements).flatten
  | .set elements loc =>
    (Node.expr (.set elements loc)).leading (exprsLocated names elements).flatten
  | .dict keys values loc =>
    (Node.expr (.dict keys values loc)).leading
      (List.zipWith (· ++ ·) (exprsLocated names keys) (exprsLocated names values)).flatten
  | .named target value loc =>
    (Node.expr (.named target value loc)).leading (target.located names ++ value.located names)
  | .starred value loc => (Node.expr (.starred value loc)).leading (value.located names)
  | .emit template args loc =>
    (Node.expr (.emit template args loc)).leading
      ((Template.split (Template.expand args.length
        (Fragment.isConstantAt (fragments names args)) template)).flatMap
        (Template.Part.nodes (exprsLocated names args)))
  | .typeTest type value loc =>
    (Node.expr (.typeTest type value loc)).leading
      (if (type.testForm names).readsValue then value.located names else [])
  | .name id loc => (Node.expr (.name id loc)).leading []
  | .constant value loc => (Node.expr (.constant value loc)).leading []
  | .typedLiteral type value loc => (Node.expr (.typedLiteral type value loc)).leading []
  | .yield value loc => (Node.expr (.yield value loc)).leading []
  | .yieldFrom value loc => (Node.expr (.yieldFrom value loc)).leading []
  | .formattedValue value formatSpec loc =>
    (Node.expr (.formattedValue value formatSpec loc)).leading []
  | .unknown node loc => (Node.expr (.unknown node loc)).leading []

def exprsLocated (names : RuntimeNames) : List Expr → List (List Node)
  | [] => []
  | e :: es => e.located names :: exprsLocated names es

def optionLocated (names : RuntimeNames) : Option Expr → List Node
  | none => []
  | some e => e.located names

def keywordsLocated (names : RuntimeNames) : List Keyword → List (List Node)
  | [] => []
  | .mk _ value :: ks => value.located names :: keywordsLocated names ks

def Param.located (names : RuntimeNames) : Param → List Node
  | .mk _ hint => optionLocated names hint

def paramsLocated (names : RuntimeNames) : List Param → List (List Node)
  | [] => []
  | p :: ps => p.located names :: paramsLocated names ps

def optionParamLocated (names : RuntimeNames) : Option Param → List Node
  | none => []
  | some p => p.located names

def Params.located (names : RuntimeNames) : Params → ParamNodes
  | .mk posOnly regular varArg defaults =>
    { posOnly := paramsLocated names posOnly
      regular := paramsLocated names regular
      varArg := optionParamLocated names varArg
      defaults := exprsLocated names defaults }

end

mutual

/-- The located nodes of a statement, in the order in which they are printed. -/
def Stmt.located (names : RuntimeNames) : Stmt → List Node
  | .functionDef name params body decorators returns loc =>
    (Node.stmt (.functionDef name params body decorators returns loc)).leading
      ((exprsLocated names decorators).flatten ++ (params.located names).inOrder true ++
        optionLocated names returns ++ stmtsLocated names body)
  | .classDef name bases body decorators loc =>
    (Node.stmt (.classDef name bases body decorators loc)).leading
      ((exprsLocated names decorators).flatten ++ (exprsLocated names bases).flatten ++
        stmtsLocated names body)
  | .conditional test body orElse loc =>
    (Node.stmt (.conditional test body orElse loc)).leading
      (test.located names ++ stmtsLocated names body ++ elseLocated names orElse)
  | .forLoop target iter body loc =>
    (Node.stmt (.forLoop target iter body loc)).leading
      (target.located names ++ iter.located names ++ stmtsLocated names body)
  | .whileLoop test body loc =>
    (Node.stmt (.whileLoop test body loc)).leading (test.located names ++ stmtsLocated names body)
  | .tryBlock body handlers orElse finalBody loc =>
    (Node.stmt (.tryBlock body handlers orElse finalBody loc)).leading
      (stmtsLocated names body ++ handlersLocated names handlers ++ stmtsLocated names orElse ++
        stmtsLocated names finalBody)
  | .assign targets value loc =>
    (Node.stmt (.assign targets value loc)).leading
      ((exprsLocated names targets).flatten ++ value.located names)
  | .returnValue value loc =>
    (Node.stmt (.returnValue value loc)).leading (optionLocated names value)
  | .raise exception loc => (Node.stmt (.raise exception loc)).leading (exception.located names)
  | .expr value loc => (Node.stmt (.expr value loc)).leading (value.located names)
  | .asyncFunctionDef name params body decorators returns loc =>
    (Node.stmt (.asyncFunctionDef name params body decorators returns loc)).leading []
  | .asyncFor target iter body loc => (Node.stmt (.asyncFor target iter body loc)).leading []
  | .importNames names loc => (Node.stmt (.importNames names loc)).leading []
  | .importFrom module names loc => (Node.stmt (.importFrom module names loc)).leading []
  | .pass loc => (Node.stmt (.pass loc)).leading []
  | .breakLoop loc => (Node.stmt (.breakLoop loc)).leading []
  | .continueLoop loc => (Node.stmt (.continueLoop loc)).leading []
  | .globalNames names loc => (Node.stmt (.globalNames names loc)).leading []
  | .nonlocalNames names loc => (Node.stmt (.nonlocalNames names loc)).leading []
  | .unknown kind node loc => (Node.stmt (.unknown kind node loc)).leading []

def stmtsLocated (names : RuntimeNames) : List Stmt → List Node
  | [] => []
  | s :: ss => s.located names ++ stmtsLocated names ss

/-- An `else` part that only passes is not printed, and a single conditional is an `elif` part. -/
def elseLocated (names : RuntimeNames) : List Stmt → List Node
  | [] => []
  | [.pass _] => []
  | [.conditional test body orElse loc] =>
    (Node.elseIf test body orElse loc).leading
      (test.located names ++ stmtsLocated names body ++ elseLocated names orElse)
  | s :: ss => s.located names ++ stmtsLocated names ss

def Handler.located (names : RuntimeNames) : Handler → List Node
  | .mk body type name loc =>
    (Node.handler body type name loc).leading (optionLocated names type ++ stmtsLocated names body)

def handlersLocated (names : RuntimeNames) : List Handler → List Node
  | [] => []
  | h :: hs => h.located names ++ handlersLocated names hs

end

theorem stmtsLocated_append (names : RuntimeNames) (ss ts : List Stmt) :
    stmtsLocated names (ss ++ ts) = stmtsLocated names ss ++ stmtsLocated names ts := by
  induction ss with
  | nil => simp [stmtsLocated]
  | cons s ss ih => simp [stmtsLocated, ih]

/-- The nodes of an `else` part that is neither left out nor an `elif`. -/
theorem elseLocated_eq {names : RuntimeNames} (s : Stmt) (ss : List Stmt)
    (hp : ∀ loc, s :: ss ≠ [.pass loc])
    (hc : ∀ test body orElse loc, s :: ss ≠ [.conditional test body orElse loc]) :
    elseLocated names (s :: ss) = stmtsLocated names (s :: ss) := by
  rw [elseLocated, stmtsLocated]
  · exact fun loc hs hss => hp loc (by rw [hs, hss])
  · exact fun test body orElse loc hs hss => hc test body orElse loc (by rw [hs, hss])

/-- A compile error is one that a path is resolved with. -/
def Settings.Raises (set : Settings) (what : Failure) : Prop :=
  ∀ e, what = .compile e → ∃ path, set.resolve path = .error (.compile e)

/-- An instruction that begins no node, stands for no others and does not stop the pass. -/
def Instr.isOrdinary : Instr → Bool
  | .mark _ => false
  | .template _ _ => false
  | .fail _ => false
  | _ => true

/-- Instructions print some nodes in order. There is no mark in them but those that the nodes begin
with. -/
inductive Prints (set : Settings) : List Node → List Instr → Prop
  | nil : Prints set [] []
  | append {ns ms : List Node} {is js : List Instr} (hi : Prints set ns is)
      (hj : Prints set ms js) : Prints set (ns ++ ms) (is ++ js)
  | ordinary {i : Instr} (h : i.isOrdinary = true) : Prints set [] [i]
  | fail {what : Failure} (h : set.Raises what) : Prints set [] [.fail what]
  | template {source : String} {fill : List Template.Part → List Instr}
      {nodes : List Template.Part → List Node}
      (h : ∀ parts, Prints set (nodes parts) (fill parts)) :
      Prints set (nodes (Template.split source)) [.template source fill]
  | node {n : Node} {ns : List Node} {own : List Instr} (hn : n.instrs set = markAt n.loc ++ own)
      (ho : Prints set ns own) : Prints set (n.leading ns) (n.instrs set)

namespace Prints

variable {set : Settings} {i : Instr} {is js todo : List Instr} {ns ms : List Node}

/-- What the rest of a list can be after its first instruction. -/
def Follows (set : Settings) (ns : List Node) (todo : List Instr) : Instr → Prop
  | .mark loc => ∃ (n : Node) (ms : List Node) (own rest : List Instr), ns = n :: ms ∧
      n.loc = some loc ∧ n.instrs set = .mark loc :: own ∧ todo = own ++ rest ∧ Prints set ms todo
  | .template source fill => ∃ (nodes : List Template.Part → List Node) (ms : List Node),
      ns = nodes (Template.split source) ++ ms ∧ (∀ parts, Prints set (nodes parts) (fill parts)) ∧
      Prints set ms todo
  | .fail what => set.Raises what ∧ Prints set ns todo
  | _ => Prints set ns todo

theorem Follows.append (h : Follows set ns todo i) (hj : Prints set ms js) :
    Follows set (ns ++ ms) (todo ++ js) i := by
  cases i with
  | mark loc =>
    obtain ⟨n, ns, own, rest, rfl, hl, hn, rfl, ho⟩ := h
    exact ⟨n, ns ++ ms, own, rest ++ js, rfl, hl, hn, by simp, ho.append hj⟩
  | template source fill =>
    obtain ⟨nodes, ns, rfl, hfill, ht⟩ := h
    exact ⟨nodes, ns ++ ms, by simp, hfill, ht.append hj⟩
  | fail what => exact ⟨h.1, h.2.append hj⟩
  | _ => exact Prints.append h hj

theorem eq_nil (h : Prints set ns []) : ns = [] := by
  generalize he : ([] : List Instr) = is at h
  induction h with
  | nil => rfl
  | append hi hj ihi ihj =>
    obtain ⟨hi, hj⟩ := List.append_eq_nil_iff.mp he.symm
    rw [ihi hi.symm, ihj hj.symm, List.append_nil]
  | ordinary | fail | template => cases he
  | @node n ns own hn ho ih =>
    rw [hn] at he
    obtain ⟨hmark, hown⟩ := List.append_eq_nil_iff.mp he.symm
    cases hl : n.loc with
    | none => rw [Node.leading_none hl, ih hown.symm]
    | some loc =>
      rw [hl] at hmark
      cases hmark

theorem follows (h : Prints set ns (i :: todo)) : Follows set ns todo i := by
  generalize he : i :: todo = is at h
  induction h generalizing i todo with
  | nil => cases he
  | @append ns ms is js hi hj ihi ihj =>
    cases is with
    | nil =>
      rw [hi.eq_nil]
      exact ihj he
    | cons k ks =>
      obtain ⟨rfl, rfl⟩ := List.cons.inj he
      exact (ihi rfl).append hj
  | @ordinary k h =>
    cases he
    cases k with
    | mark | template | fail => cases h
    | _ => exact .nil
  | fail h => cases he; exact ⟨h, .nil⟩
  | @template _ _ nodes h => cases he; exact ⟨nodes, [], by simp, h, .nil⟩
  | @node n ns own hn ho ih =>
    rw [hn] at he
    cases hl : n.loc with
    | none =>
      rw [hl] at he
      rw [Node.leading_none hl]
      exact ih he
    | some loc =>
      rw [hl] at he hn
      obtain ⟨rfl, rfl⟩ := List.cons.inj he
      exact ⟨n, ns, todo, [], Node.leading_some hl, hl, hn, by simp, ho⟩

/-- The instructions after the first one print the last nodes. -/
theorem tail (h : Prints set ns (i :: todo)) : ∃ ms, ms <:+ ns ∧ Prints set ms todo := by
  have hi := h.follows
  cases i with
  | mark loc =>
    obtain ⟨n, ms, -, -, rfl, -, -, -, ht⟩ := hi
    exact ⟨ms, List.suffix_cons n ms, ht⟩
  | template source fill =>
    obtain ⟨nodes, ms, rfl, -, ht⟩ := hi
    exact ⟨ms, List.suffix_append _ ms, ht⟩
  | fail what => exact ⟨ns, List.suffix_rfl, hi.2⟩
  | _ => exact ⟨ns, List.suffix_rfl, hi⟩

theorem raises {what : Failure} (h : Prints set ns is) (hm : .fail what ∈ is) :
    set.Raises what := by
  induction is generalizing ns with
  | nil => cases hm
  | cons i is ih =>
    rcases List.mem_cons.mp hm with rfl | hm
    · exact h.follows.1
    · obtain ⟨ms, -, ht⟩ := h.tail
      exact ih ht hm

end Prints

end CodePrinter
