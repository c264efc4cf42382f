import CodePrinter.Proofs.Python.Headers

/-! Printed statements are read back from their layout.

Main statement: statements whose expressions are names are read from their text in normal form
(`readStmts?_renderStmts`). -/
namespace CodePrinter.Python

mutual

/-- A statement that the reader knows. -/
def isReadableStmt : Stmt → Bool
  | .functionDef name params body decorators returns _ =>
    isIdentifier name && isReadableParams params && areReadableStmts body &&
      decorators.all isIdentifierName && returns.all isIdentifierName
  | .classDef name bases body decorators _ =>
    isIdentifier name && bases.all isIdentifierName && areReadableStmts body &&
      decorators.all isIdentifierName
  | .conditional test body orElse _ =>
    isIdentifierName test && areReadableStmts body && areReadableStmts orElse
  | .forLoop target iter body _ =>
    isIdentifierName target && isIdentifierName iter && areReadableStmts body
  | .whileLoop test body _ => isIdentifierName test && areReadableStmts body
  | .tryBlock body handlers orElse finalBody _ =>
    areReadableStmts body && areReadableHandlers handlers && areReadableStmts orElse &&
      areReadableStmts finalBody &&
      (!handlers.isEmpty || orElse.isEmpty && !finalBody.isEmpty)
  | .assign targets value _ =>
    !targets.isEmpty && targets.all isIdentifierName && isIdentifierName value
  | .returnValue value _ => value.all isIdentifierName
  | .raise exception _ => isIdentifierName exception
  | .expr value _ => isIdentifierName value
  | .pass _ | .breakLoop _ | .continueLoop _ => true
  | .globalNames names _ | .nonlocalNames names _ => !names.isEmpty && names.all isIdentifier
  | _ => false

def areReadableStmts : List Stmt → Bool
  | [] => true
  | s :: ss => isReadableStmt s && areReadableStmts ss

/-- Only a handler for a type may name the exception. -/
def isReadableHandler : Handler → Bool
  | .mk body type name _ =>
    areReadableStmts body && type.all isIdentifierName && name.all isIdentifier &&
      (name.isNone || type.isSome)

def areReadableHandlers : List Handler → Bool
  | [] => true
  | h :: hs => isReadableHandler h && areReadableHandlers hs

end

/-- A body with nothing in it passes. -/
def bodyOf : List Stmt → List Stmt
  | [] => [.pass]
  | ss => ss

/-- The `else` part of a conditional that only passes is left out. -/
def elseOf : List Stmt → List Stmt
  | [.pass _] => []
  | ss => ss

mutual

/-- The normal form of a statement that the reader knows. -/
def normal : Stmt → Stmt
  | .functionDef name params body decorators returns _ =>
    .functionDef name (shownParams params) (bodyOf (normalAll body)) (shownAll decorators)
      (shownOption returns)
  | .classDef name bases body decorators _ =>
    .classDef name (shownAll bases) (bodyOf (normalAll body)) (shownAll decorators)
  | .conditional test body orElse _ =>
    .conditional (shown test) (bodyOf (normalAll body)) (elseOf (normalAll orElse))
  | .forLoop target iter body _ =>
    .forLoop (shown target) (shown iter) (bodyOf (normalAll body))
  | .whileLoop test body _ => .whileLoop (shown test) (bodyOf (normalAll body))
  | .tryBlock body handlers orElse finalBody _ =>
    .tryBlock (bodyOf (normalAll body)) (normalHandlers handlers) (normalAll orElse)
      (normalAll finalBody)
  | .assign targets value _ => .assign (shownAll targets) (shown value)
  | .returnValue value _ => .returnValue (shownOption value)
  | .raise exception _ => .raise (shown exception)
  | .expr value _ => .expr (shown value)
  | .pass _ => .pass
  | .breakLoop _ => .breakLoop
  | .continueLoop _ => .continueLoop
  | .globalNames names _ => .globalNames names
  | .nonlocalNames names _ => .nonlocalNames names
  | s => s

def normalAll : List Stmt → List Stmt
  | [] => []
  | s :: ss => normal s :: normalAll ss

def normalHandler : Handler → Handler
  | .mk body type name _ => .mk (bodyOf (normalAll body)) (shownOption type) name

def normalHandlers : List Handler → List Handler
  | [] => []
  | h :: hs => normalHandler h :: normalHandlers hs

end

/-- The parts of a `try` after its handlers. -/
def ending : List Stmt → List Stmt → Parts
  | [], [] => .none
  | orElse, [] => .orElse orElse
  | [], finalBody => .final finalBody
  | orElse, finalBody => .orElseFinal orElse finalBody

/-- The parts of a `try` after its body. -/
def handled (orElse finalBody : List Stmt) : List Handler → Parts
  | [] => ending orElse finalBody
  | h :: hs => .handlers h hs orElse finalBody

theorem handle?_handled (orElse finalBody : List Stmt) (h : Handler) (hs : List Handler) :
    (handled orElse finalBody hs).handle? h = some (handled orElse finalBody (h :: hs)) := by
  cases hs with
  | nil => cases orElse <;> cases finalBody <;> rfl
  | cons next hs => rfl

theorem tryPart_before {hs : List Handler} {orElse finalBody : List Stmt} (body ss : List Stmt)
    (h : hs ≠ [] ∨ orElse = [] ∧ finalBody ≠ []) :
    (Clause.tryPart body).before ⟨handled orElse finalBody hs, ss⟩ =
      some ⟨.none, .tryBlock body hs orElse finalBody :: ss⟩ := by
  cases hs with
  | cons first more => rfl
  | nil =>
    rcases h with h | ⟨rfl, hfinal⟩
    · exact absurd rfl h
    · obtain ⟨s, rest, rfl⟩ := List.exists_cons_of_ne_nil hfinal
      rfl

variable {set : Settings} {unit : Nat} {is : List Instr} {body ss : List Stmt} {a b : Block}

theorem bodyOf_ne_nil (ss : List Stmt) : bodyOf ss ≠ [] := by
  cases ss <;> simp [bodyOf]

theorem normalAll_eq_nil : normalAll ss = [] ↔ ss = [] := by
  cases ss <;> simp [normalAll]

/-- Only a statement that passes becomes one. -/
theorem eq_pass_of_normal {s : Stmt} {loc : Option Location} (h : normal s = .pass loc) :
    ∃ loc', s = .pass loc' := by
  cases s with
  | pass loc' => exact ⟨loc', rfl⟩
  | _ => simp [normal] at h

theorem elseOf_normalAll (h : ∀ loc, ss ≠ [.pass loc]) : elseOf (normalAll ss) = normalAll ss := by
  cases ss with
  | nil => rfl
  | cons s ss =>
    cases ss with
    | cons t ss => simp [normalAll, elseOf]
    | nil =>
      rw [normalAll, normalAll, elseOf]
      intro loc hpass
      obtain ⟨loc', rfl⟩ := eq_pass_of_normal (List.cons.inj hpass).1
      exact h loc' rfl

theorem Reads.then_endLine (h : Reads set unit is a b) :
    Reads set unit (is ++ [Instr.endLine]) a b :=
  h.append (reads_of_sets_nil (sets_endLine set unit) a)

/-- A body without statements is read as one that passes. -/
theorem reads_body (hset : Spaced set unit)
    (h : Reads set unit (stmtsInstrs set body) {} ⟨.none, normalAll body⟩) :
    Reads set unit (orPass (stmtsInstrs set body) body.isEmpty) {}
      ⟨.none, bodyOf (normalAll body)⟩ := by
  cases body with
  | nil =>
    have hpass : Says set [.text "pass"] [.word "pass"] := says_text set (by decide)
    exact reads_line hset hpass (by simp) (.inr rfl) rfl rfl
  | cons s ss => exact h

/-- Decorators are read before the definition that they belong to. -/
theorem reads_decorated (hset : Spaced set unit) (define : List Expr → Stmt)
    {decorators : List Expr}
    (hd : ∀ e ∈ decorators, isIdentifierName e = true)
    (hf : ∀ e es, decorate e (define es :: ss) = some (define (e :: es) :: ss))
    (h : ∀ loc, Reads set unit (markAt loc ++ is) a ⟨.none, define [] :: ss⟩)
    (loc : Option Location) :
    Reads set unit (markAt loc ++ ((fragments set.names decorators).flatMap decorator ++ is)) a
      ⟨.none, define (shownAll decorators) :: ss⟩ := by
  induction decorators generalizing loc with
  | nil => exact h loc
  | cons e es ih =>
    obtain ⟨id, hid, hshown, hspoken⟩ := says_name hset.maps (hd e (by simp))
    have hat : Says set [.text "@"] [.symbol "@"] := says_text set (by decide)
    have hline := (hat.append hspoken (by simp [Piece.apart])).after_mark hset.maps loc
    have hrest := ih (fun e' he' => hd e' (List.mem_cons_of_mem e he')) none
    have hread : readSimple (wording [.symbol "@", .word id]) = some (.decorator (.name id)) := by
      simp [readSimple, name?_word hid]
    have hbefore : (Clause.decorator (.name id)).before ⟨.none, define (shownAll es) :: ss⟩ =
        some ⟨.none, define (shownAll (e :: es)) :: ss⟩ := by
      rw [Clause.before, hf, shownAll, hshown]
      rfl
    have hfirst := reads_line hset hline (by simp) (.inl rfl) hread hbefore
    simpa [fragments, decorator, markAt] using hfirst.append hrest

/-! The kinds of statements. -/

/-- The statements of a suite are read, whatever there are. -/
def ReadsBody (set : Settings) (unit : Nat) (body : List Stmt) : Prop :=
  Reads set unit (stmtsInstrs set body) {} ⟨.none, normalAll body⟩

/-- A statement is read in normal form before others. -/
def ReadsStmt (set : Settings) (unit : Nat) (s : Stmt) : Prop :=
  ∀ ss, Reads set unit (s.instrs set ++ [Instr.endLine]) ⟨.none, ss⟩ ⟨.none, normal s :: ss⟩

/-- The `else` part of a conditional is read as what belongs to it. -/
def ReadsElse (set : Settings) (unit : Nat) (orElse : List Stmt) : Prop :=
  ∀ ss, ∃ parts, parts.alternative? = some (elseOf (normalAll orElse)) ∧
    Reads set unit (elseInstrs set orElse) ⟨.none, ss⟩ ⟨parts, ss⟩

theorem readsBody_nil (set : Settings) (unit : Nat) : ReadsBody set unit [] := by
  rw [ReadsBody, stmtsInstrs, normalAll]
  exact reads_of_sets_nil (sets_nil set unit) {}

theorem readsBody_cons {s : Stmt} (hs : ReadsStmt set unit s) (hbody : ReadsBody set unit body) :
    ReadsBody set unit (s :: body) := by
  have hall := (hs (normalAll body)).append hbody
  simpa [ReadsBody, stmtsInstrs, normalAll] using hall

/-- An `else` part that nothing is printed for. -/
theorem readsElse_of_nil {orElse : List Stmt} (hi : elseInstrs set orElse = [])
    (hn : elseOf (normalAll orElse) = []) : ReadsElse set unit orElse := by
  intro ss
  rw [hi, hn]
  exact ⟨.none, rfl, reads_of_sets_nil (sets_nil set unit) _⟩

section Kinds

variable {name : String} {test : Expr} {decorators : List Expr} (hset : Spaced set unit)

include hset

theorem readsStmt_function {params : Params} {returns : Option Expr}
    (hname : isIdentifier name = true) (hparams : isReadableParams params = true)
    (hbody : ReadsBody set unit body) (hd : ∀ e ∈ decorators, isIdentifierName e = true)
    (hreturns : returns.all isIdentifierName = true) (loc : Option Location) :
    ReadsStmt set unit (.functionDef name params body decorators returns loc) := by
  intro ss
  obtain ⟨ps, hspoken, hread⟩ := says_function hset.maps hname hparams hreturns
  -- the line is read after a mark, which stands before the first decorator if there is one
  have hdef := fun loc => reads_block hset (hspoken.after_mark hset.maps loc) (by simp)
    (reads_body hset hbody) (bodyOf_ne_nil _) (hread _) (rfl : Clause.before _ ⟨.none, ss⟩ = _)
  simp only [List.append_assoc] at hdef
  have hall := reads_decorated hset (fun ds => .functionDef name (shownParams params)
    (bodyOf (normalAll body)) ds (shownOption returns)) hd (fun _ _ => rfl) hdef loc
  rw [normal]
  cases returns <;>
    simpa [Stmt.instrs, functionLine, parenthesized, optionalPart, optionFragment] using
      hall.then_endLine

theorem readsStmt_class {bases : List Expr} (hname : isIdentifier name = true)
    (hbases : ∀ e ∈ bases, isIdentifierName e = true) (hbody : ReadsBody set unit body)
    (hd : ∀ e ∈ decorators, isIdentifierName e = true) (loc : Option Location) :
    ReadsStmt set unit (.classDef name bases body decorators loc) := by
  intro ss
  obtain ⟨ps, hspoken, hread⟩ := says_class hset.maps hname hbases
  have hdef := fun loc => reads_suite hset (hspoken.after_mark hset.maps loc) (by simp)
    (reads_body hset hbody) (bodyOf_ne_nil _) (hread _) (rfl : Clause.before _ ⟨.none, ss⟩ = _)
  simp only [List.append_assoc] at hdef
  have hall := reads_decorated hset (fun ds => .classDef name (shownAll bases)
    (bodyOf (normalAll body)) ds) hd (fun _ _ => rfl) hdef loc
  rw [normal]
  simpa [Stmt.instrs, classLine] using hall.then_endLine

/-- A part of a conditional with a test. -/
theorem reads_branch {lead keyword : String} {part : Expr → List Stmt → Clause}
    (hlead : Says set [.text lead] [.word keyword, .space])
    (hpart : ∀ id body, isIdentifier id = true →
      readHeader body [.word keyword, .word id] = some (part (.name id) body))
    (htest : isIdentifierName test = true) (hbody : ReadsBody set unit body)
    (hbefore : (part (shown test) (bodyOf (normalAll body))).before a = some b)
    (loc : Option Location) :
    Reads set unit (markAt loc ++ .text lead :: (test.fragment set.names).bare ++
      .text ":" :: block (orPass (stmtsInstrs set body) body.isEmpty)) a b := by
  obtain ⟨id, hid, hshown, hspoken⟩ := says_name hset.maps htest
  have hline := (hlead.append hspoken (by simp)).colon.after_mark hset.maps loc
  rw [hshown] at hbefore
  have hall := reads_block hset hline (by simp) (reads_body hset hbody) (bodyOf_ne_nil _)
    (hpart id _ hid) hbefore
  simpa using hall

theorem readsStmt_conditional {orElse : List Stmt} (htest : isIdentifierName test = true)
    (hbody : ReadsBody set unit body) (helse : ReadsElse set unit orElse) (loc : Option Location) :
    ReadsStmt set unit (.conditional test body orElse loc) := by
  intro ss
  obtain ⟨parts, hparts, hreads⟩ := helse ss
  have hif : Says set [.text "if "] [.word "if", .space] := says_text set (by decide)
  have hpart : ∀ id body, isIdentifier id = true →
      readHeader body [.word "if", .word id] = some (.ifPart (.name id) body) := by
    intro id body hid
    simp [readHeader, name?_word hid]
  have hbefore : (Clause.ifPart (shown test) (bodyOf (normalAll body))).before ⟨parts, ss⟩ =
      some ⟨.none, normal (.conditional test body orElse loc) :: ss⟩ := by
    rw [Clause.before, hparts, normal]
    rfl
  have hall := (reads_branch hset hif hpart htest hbody hbefore loc).append hreads
  rw [Stmt.instrs]
  exact hall.then_endLine

theorem readsElse_elif {orElse : List Stmt} (htest : isIdentifierName test = true)
    (hbody : ReadsBody set unit body) (helse : ReadsElse set unit orElse) (loc : Option Location) :
    ReadsElse set unit [.conditional test body orElse loc] := by
  intro ss
  obtain ⟨parts, hparts, hreads⟩ := helse ss
  have helif : Says set [.text "elif "] [.word "elif", .space] := says_text set (by decide)
  have hpart : ∀ id body, isIdentifier id = true →
      readHeader body [.word "elif", .word id] = some (.elifPart (.name id) body) := by
    intro id body hid
    simp [readHeader, name?_word hid]
  have hbefore : (Clause.elifPart (shown test) (bodyOf (normalAll body))).before ⟨parts, ss⟩ =
      some ⟨.elif [normal (.conditional test body orElse loc)], ss⟩ := by
    rw [Clause.before, hparts, normal]
    rfl
  refine ⟨.elif [normal (.conditional test body orElse loc)], ?_, ?_⟩
  · simp only [normalAll, normal]
    rfl
  · rw [elseInstrs]
    exact (reads_branch hset helif hpart htest hbody hbefore loc).append hreads

theorem readsStmt_for {target iter : Expr} (htarget : isIdentifierName target = true)
    (hiter : isIdentifierName iter = true) (hbody : ReadsBody set unit body)
    (loc : Option Location) : ReadsStmt set unit (.forLoop target iter body loc) := by
  intro ss
  obtain ⟨id, hid, hshown, hspoken⟩ := says_name hset.maps htarget
  obtain ⟨id', hid', hshown', hspoken'⟩ := says_name hset.maps hiter
  have hfor : Says set [.text "for "] [.word "for", .space] := says_text set (by decide)
  have hin : Says set [.text " in "] [.space, .word "in", .space] := says_text set (by decide)
  have hline := (((hfor.append hspoken (by simp)).append hin (by simp)).append hspoken'
    (by simp)).colon.after_mark hset.maps loc
  have hsplit : [Token.word id, .word "in", .word id'].splitOn (.word "in") =
      [[.word id], [.word id']] := by
    have hno : Token.word "in" ∉ [Token.word id] := by
      simpa using (word_ne_keyword hid (by decide)).symm
    have hno' : Token.word "in" ∉ [Token.word id'] := by
      simpa using (word_ne_keyword hid' (by decide)).symm
    rw [← List.splitOn_eq_singleton hno']
    exact List.splitOn_append_cons_self_of_not_mem hno [.word id']
  have hread : ∀ body, readHeader body [.word "for", .word id, .word "in", .word id'] =
      some (.statement (.forLoop (.name id) (.name id') body)) := by
    intro body
    simp [readHeader, hsplit, name?_word hid, name?_word hid']
  have hall := reads_suite hset hline (by simp) (reads_body hset hbody) (bodyOf_ne_nil _)
    (hread _) (rfl : Clause.before _ ⟨.none, ss⟩ = _)
  rw [normal, hshown, hshown']
  simpa [Stmt.instrs] using hall.then_endLine

theorem readsStmt_while (htest : isIdentifierName test = true) (hbody : ReadsBody set unit body)
    (loc : Option Location) : ReadsStmt set unit (.whileLoop test body loc) := by
  intro ss
  obtain ⟨id, hid, hshown, hspoken⟩ := says_name hset.maps htest
  have hwhile : Says set [.text "while "] [.word "while", .space] := says_text set (by decide)
  have hline := (hwhile.append hspoken (by simp)).colon.after_mark hset.maps loc
  have hread : ∀ body, readHeader body [.word "while", .word id] =
      some (.statement (.whileLoop (.name id) body)) := by
    intro body
    simp [readHeader, name?_word hid]
  have hall := reads_suite hset hline (by simp) (reads_body hset hbody) (bodyOf_ne_nil _)
    (hread _) (rfl : Clause.before _ ⟨.none, ss⟩ = _)
  rw [normal, hshown]
  simpa [Stmt.instrs] using hall.then_endLine

/-- A part of a statement without a test, such as `else`. -/
theorem reads_part {line keyword : String} {c : Clause}
    (hline : Says set [.text line] ([Piece.word keyword] ++ [Piece.symbol ":"])) (hne : body ≠ [])
    (hbody : ReadsBody set unit body)
    (hpart : readHeader (normalAll body) [.word keyword] = some c) (hbefore : c.before a = some b) :
    Reads set unit (.text line :: block (stmtsInstrs set body)) a b := by
  have hnormal : normalAll body ≠ [] := mt normalAll_eq_nil.mp hne
  exact reads_block hset hline (by simp) hbody hnormal hpart hbefore

theorem readsElse_block {s : Stmt} {ss : List Stmt} (hp : ∀ loc, s :: ss ≠ [.pass loc])
    (hc : ∀ test body orElse loc, s :: ss ≠ [.conditional test body orElse loc])
    (hbody : ReadsBody set unit (s :: ss)) : ReadsElse set unit (s :: ss) := by
  intro rest
  have helse : Says set [.text "else:"] ([Piece.word "else"] ++ [Piece.symbol ":"]) :=
    says_text set (by decide)
  refine ⟨.orElse (normalAll (s :: ss)), by rw [elseOf_normalAll hp]; rfl, ?_⟩
  rw [elseInstrs_eq s ss hp hc]
  exact reads_part hset helse (by simp) hbody rfl rfl

theorem reads_ending {orElse finalBody : List Stmt} (horElse : ReadsBody set unit orElse)
    (hfinal : ReadsBody set unit finalBody) (ss : List Stmt) :
    Reads set unit
      ((if orElse.isEmpty then [] else .text "else:" :: block (stmtsInstrs set orElse)) ++
        (if finalBody.isEmpty then [] else .text "finally:" :: block (stmtsInstrs set finalBody)))
      ⟨.none, ss⟩ ⟨ending (normalAll orElse) (normalAll finalBody), ss⟩ := by
  have helse : Says set [.text "else:"] ([Piece.word "else"] ++ [Piece.symbol ":"]) :=
    says_text set (by decide)
  have hfinally : Says set [.text "finally:"] ([Piece.word "finally"] ++ [Piece.symbol ":"]) :=
    says_text set (by decide)
  have hnil := fun a => reads_of_sets_nil (sets_nil set unit) a
  cases orElse with
  | nil =>
    cases finalBody with
    | nil => exact hnil _
    | cons s ss' => exact reads_part hset hfinally (by simp) hfinal rfl rfl
  | cons s ss' =>
    cases finalBody with
    | nil => exact (reads_part hset helse (by simp) horElse rfl rfl).append (hnil _)
    | cons t ts =>
      exact (reads_part hset helse (by simp) horElse rfl rfl).append
        (reads_part hset hfinally (by simp) hfinal rfl rfl)

theorem reads_handler {type : Option Expr} {name : Option String} (hbody : ReadsBody set unit body)
    (htype : type.all isIdentifierName = true) (hname : name.all isIdentifier = true)
    (hboth : name.isSome = true → type.isSome = true) (loc : Option Location)
    {parts parts' : Parts} {ss : List Stmt}
    (hparts : parts.handle? (normalHandler (.mk body type name loc)) = some parts') :
    Reads set unit ((Handler.mk body type name loc).instrs set) ⟨parts, ss⟩ ⟨parts', ss⟩ := by
  obtain ⟨ps, hspoken, hread⟩ := says_handler hset.maps htype hname hboth
  have hbefore : (Clause.exceptPart (.mk (bodyOf (normalAll body)) (shownOption type) name)).before
      ⟨parts, ss⟩ = some ⟨parts', ss⟩ := by
    rw [normalHandler] at hparts
    rw [Clause.before, hparts]
    rfl
  have hall := reads_block hset (hspoken.after_mark hset.maps loc) (by simp) (reads_body hset hbody)
    (bodyOf_ne_nil _) (hread _) hbefore
  cases type <;> cases name <;>
    simpa [Handler.instrs, handlerLine, optionalPart, optionFragment, asPart] using hall

theorem readsStmt_try {handlers : List Handler} {orElse finalBody : List Stmt}
    (hbody : ReadsBody set unit body)
    (hhandlers : ∀ ss, Reads set unit (handlersInstrs set handlers)
      ⟨ending (normalAll orElse) (normalAll finalBody), ss⟩
      ⟨handled (normalAll orElse) (normalAll finalBody) (normalHandlers handlers), ss⟩)
    (horElse : ReadsBody set unit orElse) (hfinal : ReadsBody set unit finalBody)
    (h : handlers ≠ [] ∨ orElse = [] ∧ finalBody ≠ []) (loc : Option Location) :
    ReadsStmt set unit (.tryBlock body handlers orElse finalBody loc) := by
  intro ss
  have htry : Says set [.text "try:"] ([Piece.word "try"] ++ [Piece.symbol ":"]) :=
    says_text set (by decide)
  have hcomplete : normalHandlers handlers ≠ [] ∨
      normalAll orElse = [] ∧ normalAll finalBody ≠ [] := by
    refine h.imp ?_ ?_
    · intro hne
      cases handlers with
      | nil => exact absurd rfl hne
      | cons h hs => simp [normalHandlers]
    · rintro ⟨rfl, hne⟩
      exact ⟨rfl, mt normalAll_eq_nil.mp hne⟩
  have hfirst := reads_block hset (htry.after_mark hset.maps loc) (by simp) (reads_body hset hbody)
    (bodyOf_ne_nil _) rfl (tryPart_before (bodyOf (normalAll body)) ss hcomplete)
  have hall := (hfirst.append (hhandlers ss)).append (reads_ending hset horElse hfinal ss)
  rw [normal]
  simpa [Stmt.instrs] using hall.then_endLine

/-- A line that is a statement by itself. -/
theorem readsStmt_line {s : Stmt} {p : Piece} {ps : List Piece} (hp : p ≠ .space)
    (hspoken : Says set is (p :: ps)) (loc : Option Location) (hs : s.instrs set = markAt loc ++ is)
    (hread : readSimple (wording (p :: ps)) = some (.statement (normal s))) :
    ReadsStmt set unit s := by
  intro ss
  rw [hs]
  exact reads_line hset (hspoken.after_mark hset.maps loc) hp (.inr rfl) hread rfl

theorem readsStmt_assign {targets : List Expr} {value : Expr} (hne : targets ≠ [])
    (htargets : ∀ e ∈ targets, isIdentifierName e = true) (hvalue : isIdentifierName value = true)
    (loc : Option Location) : ReadsStmt set unit (.assign targets value loc) := by
  obtain ⟨ids, name, hids, hname, hshownAll, hshown, hspoken⟩ :=
    says_assignment hset.maps htargets hvalue
  have hread := readSimple_assignPieces hids hname
  obtain ⟨id, ps, hhead, -⟩ := head_assignPieces hids hname
  have hsome : ids ≠ [] := by
    rintro rfl
    obtain ⟨e, es, rfl⟩ := List.exists_cons_of_ne_nil hne
    cases hshownAll
  rw [hhead] at hspoken hread
  refine readsStmt_line hset (by simp) hspoken loc (by rw [Stmt.instrs, List.append_assoc]) ?_
  rw [hread, if_neg hsome, normal, hshownAll, hshown]

theorem readsStmt_expr {value : Expr} (hvalue : isIdentifierName value = true)
    (loc : Option Location) : ReadsStmt set unit (.expr value loc) := by
  obtain ⟨id, hid, hshown, hspoken⟩ := says_name hset.maps hvalue
  have hread := readSimple_assignPieces (List.forall_mem_nil (isIdentifier · = true)) hid
  refine readsStmt_line hset (by simp) hspoken loc (by rw [Stmt.instrs]) ?_
  rw [normal, hshown]
  exact hread

theorem readsStmt_return {value : Option Expr} (hvalue : value.all isIdentifierName = true)
    (loc : Option Location) : ReadsStmt set unit (.returnValue value loc) := by
  have hreturn : Says set [.text "return"] [.word "return"] := says_text set (by decide)
  cases value with
  | none =>
    exact readsStmt_line hset (by simp) hreturn loc (by rw [Stmt.instrs, optionFragment]) rfl
  | some e =>
    obtain ⟨id, hid, hshown, hspoken⟩ := says_name hset.maps hvalue
    have hspace : Says set [.text " "] [.space] := says_text set (by decide)
    have hline := (hreturn.append hspace (by simp)).append hspoken (by simp)
    refine readsStmt_line hset (by simp) hline loc (by simp [Stmt.instrs, optionFragment]) ?_
    rw [normal, shownOption, hshown]
    have hread : readSimple [.word "return", .word id] =
        ((name? [.word id]).map fun e => .returnValue (some e)).map .statement := rfl
    rw [name?_word hid] at hread
    exact hread

theorem readsStmt_raise {exception : Expr} (h : isIdentifierName exception = true)
    (loc : Option Location) : ReadsStmt set unit (.raise exception loc) := by
  obtain ⟨id, hid, hshown, hspoken⟩ := says_name hset.maps h
  have hraise : Says set [.text "raise "] [.word "raise", .space] := says_text set (by decide)
  refine readsStmt_line hset (by simp) (hraise.append hspoken (by simp)) loc
    (by simp [Stmt.instrs]) ?_
  rw [normal, hshown]
  have hread : readSimple [.word "raise", .word id] =
      ((name? [.word id]).map fun e => .raise e).map .statement := rfl
  rw [name?_word hid] at hread
  exact hread

/-- The names that a function shares with what is around it. -/
theorem readsStmt_names {s : Stmt} {names : List String} {lead keyword : String}
    (hlead : Says set [.text lead] [.word keyword, .space])
    (hread : ∀ ts, separated? "," identifier? ts = some names →
      readSimple (.word keyword :: ts) = some (.statement (normal s)))
    (hne : names ≠ []) (hnames : ∀ name ∈ names, isIdentifier name = true)
    (loc : Option Location) (hs : s.instrs set = markAt loc ++ nameList lead names) :
    ReadsStmt set unit s := by
  obtain ⟨ps, hspoken, hlist⟩ := says_nameList hlead hnames hne
  exact readsStmt_line hset (by simp) hspoken loc hs (hread _ hlist)

end Kinds

mutual

theorem reads_stmt (hset : Spaced set unit) : (s : Stmt) → isReadableStmt s = true →
    ReadsStmt set unit s
  | .functionDef name params body decorators returns loc, h => by
    simp only [isReadableStmt, Bool.and_eq_true, List.all_eq_true] at h
    obtain ⟨⟨⟨⟨hname, hparams⟩, hbody⟩, hd⟩, hreturns⟩ := h
    exact readsStmt_function hset hname hparams (reads_stmts hset body hbody) hd hreturns loc
  | .classDef name bases body decorators loc, h => by
    simp only [isReadableStmt, Bool.and_eq_true, List.all_eq_true] at h
    obtain ⟨⟨⟨hname, hbases⟩, hbody⟩, hd⟩ := h
    exact readsStmt_class hset hname hbases (reads_stmts hset body hbody) hd loc
  | .conditional test body orElse loc, h => by
    simp only [isReadableStmt, Bool.and_eq_true] at h
    exact readsStmt_conditional hset h.1.1 (reads_stmts hset body h.1.2)
      (reads_else hset orElse h.2) loc
  | .forLoop target iter body loc, h => by
    simp only [isReadableStmt, Bool.and_eq_true] at h
    exact readsStmt_for hset h.1.1 h.1.2 (reads_stmts hset body h.2) loc
  | .whileLoop test body loc, h => by
    simp only [isReadableStmt, Bool.and_eq_true] at h
    exact readsStmt_while hset h.1 (reads_stmts hset body h.2) loc
  | .tryBlock body handlers orElse finalBody loc, h => by
    simp only [isReadableStmt, Bool.and_eq_true, Bool.or_eq_true, Bool.not_eq_true',
      List.isEmpty_eq_false_iff, List.isEmpty_iff] at h
    obtain ⟨⟨⟨⟨hbody, hhandlers⟩, horElse⟩, hfinal⟩, hcomplete⟩ := h
    exact readsStmt_try hset (reads_stmts hset body hbody)
      (reads_handlers hset handlers hhandlers _ _) (reads_stmts hset orElse horElse)
      (reads_stmts hset finalBody hfinal) hcomplete loc
  | .assign targets value loc, h => by
    simp only [isReadableStmt, Bool.and_eq_true, Bool.not_eq_true', List.isEmpty_eq_false_iff,
      List.all_eq_true] at h
    exact readsStmt_assign hset h.1.1 h.1.2 h.2 loc
  | .returnValue value loc, h => readsStmt_return hset (by simpa [isReadableStmt] using h) loc
  | .raise exception loc, h => readsStmt_raise hset (by simpa [isReadableStmt] using h) loc
  | .expr value loc, h => readsStmt_expr hset (by simpa [isReadableStmt] using h) loc
  | .pass loc, _ =>
    have hpass : Says set [.text "pass"] [.word "pass"] := says_text set (by decide)
    readsStmt_line hset (by simp) hpass loc (by rw [Stmt.instrs]) rfl
  | .breakLoop loc, _ =>
    have hbreak : Says set [.text "break"] [.word "break"] := says_text set (by decide)
    readsStmt_line hset (by simp) hbreak loc (by rw [Stmt.instrs]) rfl
  | .continueLoop loc, _ =>
    have hcontinue : Says set [.text "continue"] [.word "continue"] := says_text set (by decide)
    readsStmt_line hset (by simp) hcontinue loc (by rw [Stmt.instrs]) rfl
  | .globalNames names loc, h => by
    simp only [isReadableStmt, Bool.and_eq_true, Bool.not_eq_true', List.isEmpty_eq_false_iff,
      List.all_eq_true] at h
    have hglobal : Says set [.text "global "] [.word "global", .space] := says_text set (by decide)
    refine readsStmt_names hset hglobal ?_ h.1 h.2 loc (by rw [Stmt.instrs])
    intro ts hts
    have hread : readSimple (.word "global" :: ts) =
        ((separated? "," identifier? ts).map fun names => .globalNames names).map .statement := rfl
    rw [hread, hts, normal]
    rfl
  | .nonlocalNames names loc, h => by
    simp only [isReadableStmt, Bool.and_eq_true, Bool.not_eq_true', List.isEmpty_eq_false_iff,
      List.all_eq_true] at h
    have hnonlocal : Says set [.text "nonlocal "] [.word "nonlocal", .space] :=
      says_text set (by decide)
    refine readsStmt_names hset hnonlocal ?_ h.1 h.2 loc (by rw [Stmt.instrs])
    intro ts hts
    have hread : readSimple (.word "nonlocal" :: ts) =
        ((separated? "," identifier? ts).map fun names =>
          .nonlocalNames names).map .statement := rfl
    rw [hread, hts, normal]
    rfl
  | .asyncFunctionDef .., h | .asyncFor .., h | .importNames .., h | .importFrom .., h
  | .unknown .., h => by simp [isReadableStmt] at h

theorem reads_stmts (hset : Spaced set unit) : (ss : List Stmt) → areReadableStmts ss = true →
    ReadsBody set unit ss
  | [], _ => readsBody_nil set unit
  | s :: ss, h => by
    simp only [areReadableStmts, Bool.and_eq_true] at h
    exact readsBody_cons (reads_stmt hset s h.1) (reads_stmts hset ss h.2)

theorem reads_else (hset : Spaced set unit) : (orElse : List Stmt) →
    areReadableStmts orElse = true → ReadsElse set unit orElse
  | [], _ => readsElse_of_nil (by rw [elseInstrs]) rfl
  | [s], h => by
    simp only [areReadableStmts, Bool.and_eq_true] at h
    have hall := readsBody_cons (reads_stmt hset s h.1) (readsBody_nil set unit)
    cases s with
    | pass loc => exact readsElse_of_nil (by rw [elseInstrs]) rfl
    | conditional test body orElse loc =>
      simp only [isReadableStmt, Bool.and_eq_true] at h
      exact readsElse_elif hset h.1.1.1 (reads_stmts hset body h.1.1.2)
        (reads_else hset orElse h.1.2) loc
    -- every other statement stands in a block of its own
    | _ => exact readsElse_block hset (by simp) (by simp) hall
  | s :: t :: ss, h => by
    simp only [areReadableStmts, Bool.and_eq_true] at h
    exact readsElse_block hset (by simp) (by simp) (readsBody_cons (reads_stmt hset s h.1)
      (readsBody_cons (reads_stmt hset t h.2.1) (reads_stmts hset ss h.2.2)))

theorem reads_handlers (hset : Spaced set unit) : (hs : List Handler) →
    areReadableHandlers hs = true → (orElse finalBody ss : List Stmt) →
    Reads set unit (handlersInstrs set hs) ⟨ending orElse finalBody, ss⟩
      ⟨handled orElse finalBody (normalHandlers hs), ss⟩
  | [], _, orElse, finalBody, ss => by
    rw [handlersInstrs, normalHandlers]
    exact reads_of_sets_nil (sets_nil set unit) _
  | .mk body type name loc :: hs, h, orElse, finalBody, ss => by
    simp only [areReadableHandlers, isReadableHandler, Bool.and_eq_true, Bool.or_eq_true,
      Option.isNone_iff_eq_none] at h
    obtain ⟨⟨⟨⟨hbody, htype⟩, hname⟩, hboth⟩, hmore⟩ := h
    have htyped : name.isSome = true → type.isSome = true := by
      intro hsome
      rcases hboth with rfl | htype
      · cases hsome
      · exact htype
    rw [handlersInstrs, normalHandlers]
    exact (reads_handler hset (reads_stmts hset body hbody) htype hname htyped loc
      (handle?_handled orElse finalBody _ _)).append (reads_handlers hset hs hmore _ _ _)

end

/-- Statements whose expressions are names are printed without failure and read from their layout in
normal form: an empty body passes, and the `else` part of a conditional that only passes is gone. -/
theorem readStmts?_renderStmts (hunit : 0 < unit)
    (hindent : set.indent.toList = List.replicate unit ' ') (ss : List Stmt)
    (h : areReadableStmts ss = true) (hkeeps : Pass.Keeps set {} (stmtsLocated set.names ss)) :
    (renderStmts set ss).failure = none ∧
      readStmts? unit (renderStmts set ss).pass.page.pending = some (normalAll ss) := by
  have hset : Spaced set.withoutChecks unit :=
    ⟨hunit, by rwa [set.indent_withoutChecks], set.unchecked_withoutChecks⟩
  rw [renderStmts_withoutChecks hkeeps]
  exact readStmts?_of_reads (reads_stmts hset ss h)

/-- An `elif` with an `else` part that only passes, before a `try` with an empty body, in a
decorated function. -/
theorem readStmts?_renderStmts_nested :
    readStmts? 4 (renderStmts {} [.functionDef "f"
        (.mk [.mk "a" none] [.mk "b" (some (.name "int"))] (some (.mk "rest" none)) [])
        [.conditional (.name "a") [] [.conditional (.name "b") [.returnValue (some (.name "b"))]
            [.pass]],
          .tryBlock [] [.mk [.raise (.name "error")] (some (.name "E")) (some "error")] []
            [.whileLoop (.name "b") []]]
        [.name "cached"] none]).pass.page.pending =
      some [.functionDef "f" (.mk [.mk "a" none] [.mk "b" (some (.name "int"))]
        (some (.mk "rest" none)) [])
        [.conditional (.name "a") [.pass]
            [.conditional (.name "b") [.returnValue (some (.name "b"))] []],
          .tryBlock [.pass] [.mk [.raise (.name "error")] (some (.name "E")) (some "error")] []
            [.whileLoop (.name "b") [.pass]]]
        [.name "cached"] none] := by
  refine (readStmts?_renderStmts (by decide) (by decide) _ ?_
    (Settings.unchecked_default.keeps _ _)).2.trans ?_
  · decide
  · simp [normalAll, normal, normalHandlers, normalHandler, bodyOf, elseOf, shown, shownAll,
      shownOption, shownParams, shownParamList, shownParam]

end CodePrinter.Python
