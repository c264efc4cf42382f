import CodePrinter.Print.Stmt
import CodePrinter.Sink

/-! Printing step by step to memory. -/
namespace CodePrinter

/-- A step of a session. -/
inductive Step where
  | print (text : String) (loc : Option Location)
  | newline
  | indent
  | dedent
  | mark (loc : Option Location)
  | flush
  | close
  | importPath (path : String)
  | expr (e : Expr)
  | operand (e : Expr)
  | params (p : Params) (hints : Bool)
  | snippet (template : String) (args : List Expr)
  | stmt (s : Stmt)
  | stmts (ss : List Stmt)
  | block (ss : List Stmt) (skipNewline : Bool)
  | endLine

structure Session where
  pass : Pass := {}
  sink : Memory := {}

/-- What a step leaves behind: the session, what it answers, and what stopped it. -/
structure StepResult where
  session : Session
  answer : Option String := none
  failure : Option Failure := none

namespace Step

/-- The instructions of a step that prints. -/
def instrs (set : Settings) : Step → List Instr
  | .print value loc => markAt loc ++ [.text value]
  | .newline => [.newline]
  | .indent => [.indent]
  | .dedent => [.dedent]
  | .mark loc => markAt loc
  | .expr e => (e.fragment set.names).bare
  | .operand e => (e.fragment set.names).operand
  | .params p hints => (p.fragment set.names).print hints
  | .snippet template args => Fragment.snippet template (fragments set.names args)
  | .stmt s => s.instrs set
  | .stmts ss => stmtsInstrs set ss
  | .block ss skipNewline =>
    .text "" :: suite (orPass (stmtsInstrs set ss) ss.isEmpty) ++
      if skipNewline then [] else [.newline]
  | .endLine => [.endLine]
  | .flush => []
  | .close => []
  | .importPath _ => []

end Step

namespace Session

/-- Writes the pending text. It is dropped also if the write fails. -/
def flush (s : Session) : StepResult :=
  let cleared := { s.pass with page := s.pass.page.flush }
  if s.pass.page.pending = "" then { session := { s with pass := cleared } }
  else
    let (sink, failure) := s.sink.write s.pass.page.pending
    { session := { pass := cleared, sink }, failure }

def step (set : Settings) (s : Session) : Step → StepResult
  | .flush => s.flush
  | .close => { session := { s with sink := s.sink.close } }
  | .importPath path =>
    match set.resolve path with
    | .ok resolved => { session := s, answer := some resolved }
    | .error failure => { session := s, failure := some failure }
  | other =>
    let outcome := perform set (other.instrs set) s.pass
    { session := { s with pass := outcome.pass }, failure := outcome.failure }

/-- The steps of a session one after the other; a failure does not end it. -/
def run (set : Settings) : List Step → Session → List StepResult × Session
  | [], s => ([], s)
  | x :: xs, s =>
    let result := s.step set x
    let (results, last) := run set xs result.session
    (result :: results, last)

end Session

end CodePrinter
