import CodePrinter.Syntax.Stmt
import CodePrinter.Proofs.Python.Layout

/-! Statements read from lines. Every expression in them is a name.

A block is read from its last line to its first, so that a header finds the parts that belong to it
right after it. -/
namespace CodePrinter.Python

def identifier? : List Token → Option String
  | [.word text] => if isIdentifier text then some text else none
  | _ => none

def name? (ts : List Token) : Option Expr := (identifier? ts).map (.name ·)

/-- What stands between separators, each read by itself. -/
def separated? {α : Type} (separator : String) (read : List Token → Option α) (ts : List Token) :
    Option (List α) :=
  (ts.splitOn (.symbol separator)).mapM read

/-- What stands between commas, if anything does. -/
def commaList? {α : Type} (read : List Token → Option α) : List Token → Option (List α)
  | [] => some []
  | ts => separated? "," read ts

/-! Parameters. -/

inductive ParamItem where
  /-- A parameter by itself. -/
  | plain (p : Param)
  /-- The sign after the positional parameters. -/
  | slash
  /-- The parameter for the rest of the arguments. -/
  | star (p : Param)

def readParam : List Token → Option Param
  | [.word name] => (identifier? [.word name]).map (.mk · none)
  | .word name :: .symbol ":" :: hint =>
    (identifier? [.word name]).bind fun name => (name? hint).map fun hint => .mk name (some hint)
  | _ => none

def readParamItem : List Token → Option ParamItem
  | [.symbol "/"] => some .slash
  | .symbol "*" :: ts => (readParam ts).map .star
  | ts => (readParam ts).map .plain

/-- The parameters after the sign for the positional ones. -/
def readRegular : List ParamItem → Option (List Param × Option Param)
  | [] => some ([], none)
  | [.star p] => some ([], some p)
  | .plain p :: items => (readRegular items).map fun x => (p :: x.1, x.2)
  | _ => none

/-- The parameters, of which those up to the sign are positional. At least one is. -/
def readPositional : List ParamItem → Option (List Param × List ParamItem)
  | .plain p :: .slash :: items => some ([p], items)
  | .plain p :: items => (readPositional items).map fun x => (p :: x.1, x.2)
  | _ => none

def readParams (items : List ParamItem) : Option Params :=
  match readPositional items with
  | some (posOnly, items) => (readRegular items).map fun x => .mk posOnly x.1 x.2 []
  | none => (readRegular items).map fun x => .mk [] x.1 x.2 []

/-! Lines. -/

/-- A line, with what is read from the lines under it. -/
inductive Clause where
  /-- A statement by itself. -/
  | statement (s : Stmt)
  | decorator (e : Expr)
  | ifPart (test : Expr) (body : List Stmt)
  | elifPart (test : Expr) (body : List Stmt)
  | elsePart (body : List Stmt)
  | tryPart (body : List Stmt)
  | exceptPart (h : Handler)
  | finallyPart (body : List Stmt)

/-- Reads names with signs of assignment between them. -/
def readAssignment (ts : List Token) : Option Stmt :=
  (separated? "=" name? ts).bind fun es =>
    es.getLast?.map fun value => match es.dropLast with
      | [] => .expr value
      | targets => .assign targets value

/-- Reads a line that begins with a keyword. -/
def readKeyword : String → List Token → Option Stmt
  | "pass", [] => some .pass
  | "break", [] => some .breakLoop
  | "continue", [] => some .continueLoop
  | "return", [] => some (.returnValue none)
  | "return", ts => (name? ts).map fun e => .returnValue (some e)
  | "raise", ts => (name? ts).map fun e => .raise e
  | "global", ts => (separated? "," identifier? ts).map fun names => .globalNames names
  | "nonlocal", ts => (separated? "," identifier? ts).map fun names => .nonlocalNames names
  | _, _ => none

/-- Reads a line with nothing under it. -/
def readSimple : List Token → Option Clause
  | .symbol "@" :: ts => (name? ts).map .decorator
  | .word text :: ts =>
    (if text ∈ keywords then readKeyword text ts else readAssignment (.word text :: ts)).map
      .statement
  | _ => none

/-- Reads what stands between `def` and the colon. -/
def readFunction (body : List Stmt) : List Token → Option Stmt
  | .word name :: .symbol "(" :: ts => do
    let name ← identifier? [.word name]
    let (params, returns) ← match ts.splitOn (.symbol ")") with
      | [params, []] => some (params, none)
      | [params, .symbol "->" :: returns] => (name? returns).map fun e => (params, some e)
      | _ => none
    let params ← (commaList? readParamItem params).bind readParams
    return .functionDef name params body [] returns
  | _ => none

/-- Reads what stands between `class` and the colon. -/
def readClass (body : List Stmt) : List Token → Option Stmt
  | [.word name] => (identifier? [.word name]).map fun name => .classDef name [] body []
  | .word name :: .symbol "(" :: ts => do
    let name ← identifier? [.word name]
    let bases ← match ts.splitOn (.symbol ")") with
      | [bases, []] => commaList? name? bases
      | _ => none
    return .classDef name bases body []
  | _ => none

/-- Reads what stands between `except` and the colon. -/
def readHandler (body : List Stmt) : List Token → Option Handler
  | [] => some (.mk body none none)
  | ts => match ts.splitOn (.word "as") with
    | [type] => (name? type).map fun type => .mk body (some type) none
    | [type, name] =>
      (name? type).bind fun type => (identifier? name).map fun name =>
        .mk body (some type) (some name)
    | _ => none

/-- Reads what stands before the colon of a line with others under it. -/
def readHeader (body : List Stmt) : List Token → Option Clause
  | .word "def" :: ts => (readFunction body ts).map .statement
  | .word "class" :: ts => (readClass body ts).map .statement
  | .word "if" :: ts => (name? ts).map (.ifPart · body)
  | .word "elif" :: ts => (name? ts).map (.elifPart · body)
  | [.word "else"] => some (.elsePart body)
  | .word "for" :: ts => match ts.splitOn (.word "in") with
    | [target, iter] =>
      (name? target).bind fun target => (name? iter).map fun iter =>
        .statement (.forLoop target iter body)
    | _ => none
  | .word "while" :: ts => (name? ts).map fun test => .statement (.whileLoop test body)
  | [.word "try"] => some (.tryPart body)
  | .word "except" :: ts => (readHandler body ts).map .exceptPart
  | [.word "finally"] => some (.finallyPart body)
  | _ => none

/-- Reads a line. Exactly a line that ends with a colon has lines under it. -/
def readClause (ts : List Token) : List Stmt → Option Clause
  | [] => readSimple ts
  | body => if ts.getLast? = some (.symbol ":") then readHeader body ts.dropLast else none

/-! Blocks. -/

/-- What a block begins with that belongs to a header before it. -/
inductive Parts where
  | none
  /-- An `elif` and what follows it, as an `else` part with a single conditional. -/
  | elif (orElse : List Stmt)
  | orElse (body : List Stmt)
  | final (body : List Stmt)
  | orElseFinal (body finalBody : List Stmt)
  | handlers (first : Handler) (more : List Handler) (orElse finalBody : List Stmt)

/-- The `else` part of a conditional. -/
def Parts.alternative? : Parts → Option (List Stmt)
  | .none => some []
  | .elif body => some body
  | .orElse body => some body
  | _ => Option.none

/-- Puts a handler before others, or before what may follow the last one. -/
def Parts.handle? (h : Handler) : Parts → Option Parts
  | .none => some (.handlers h [] [] [])
  | .orElse body => some (.handlers h [] body [])
  | .final body => some (.handlers h [] [] body)
  | .orElseFinal body finalBody => some (.handlers h [] body finalBody)
  | .handlers first more body finalBody => some (.handlers h (first :: more) body finalBody)
  | .elif _ => Option.none

structure Block where
  parts : Parts := .none
  stmts : List Stmt := []

/-- A decorator belongs to the definition that follows it. -/
def decorate (e : Expr) : List Stmt → Option (List Stmt)
  | .functionDef name params body decorators returns loc :: ss =>
    some (.functionDef name params body (e :: decorators) returns loc :: ss)
  | .classDef name bases body decorators loc :: ss =>
    some (.classDef name bases body (e :: decorators) loc :: ss)
  | _ => none

/-- Puts a line, with what is under it, before a block. -/
def Clause.before : Clause → Block → Option Block
  | .statement s, ⟨.none, ss⟩ => some ⟨.none, s :: ss⟩
  | .decorator e, ⟨.none, ss⟩ => (decorate e ss).map (⟨.none, ·⟩)
  | .ifPart test body, ⟨parts, ss⟩ =>
    parts.alternative?.map fun orElse => ⟨.none, .conditional test body orElse :: ss⟩
  | .elifPart test body, ⟨parts, ss⟩ =>
    parts.alternative?.map fun orElse => ⟨.elif [.conditional test body orElse], ss⟩
  | .elsePart body, ⟨.none, ss⟩ => some ⟨.orElse body, ss⟩
  | .elsePart body, ⟨.final finalBody, ss⟩ => some ⟨.orElseFinal body finalBody, ss⟩
  | .finallyPart body, ⟨.none, ss⟩ => some ⟨.final body, ss⟩
  | .exceptPart h, ⟨parts, ss⟩ => (parts.handle? h).map (⟨·, ss⟩)
  | .tryPart body, ⟨.final finalBody, ss⟩ => some ⟨.none, .tryBlock body [] [] finalBody :: ss⟩
  | .tryPart body, ⟨.handlers first more orElse finalBody, ss⟩ =>
    some ⟨.none, .tryBlock body (first :: more) orElse finalBody :: ss⟩
  | _, _ => none

/-- The statements of a block, if it does not begin with a part of another one. -/
def block? (cs : List Clause) : Option (List Stmt) :=
  match cs.foldrM Clause.before {} with
  | some ⟨.none, ss⟩ => some ss
  | _ => none

mutual

def Item.clause? : Item → Option Clause
  | .mk tokens under => do
    let cs ← clauses? under
    let body ← block? cs
    readClause tokens body

def clauses? : List Item → Option (List Clause)
  | [] => some []
  | item :: items => do
    let c ← item.clause?
    let cs ← clauses? items
    return c :: cs

end

/-- Reads statements, laid out with units of some spaces. -/
def readStmts? (unit : Nat) (text : String) : Option (List Stmt) := do
  let lines ← readLines? unit text.toList
  let items ← nest 0 lines
  let cs ← clauses? items
  block? cs

end CodePrinter.Python
