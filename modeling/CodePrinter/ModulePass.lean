import CodePrinter.Print.Stmt
import CodePrinter.Sink

/-! Printing of a whole module, a chunk for each declaration.

The imports that a module opens with are the first chunk. Every chunk is flushed before the next is
begun, so a pass that ends early leaves whole chunks in the sink. The sink is closed on every way
out. -/
namespace CodePrinter

inductive LogLevel where
  | debug
  | info
  | warn
  deriving DecidableEq

def LogLevel.name : LogLevel → String
  | .debug => "debug"
  | .info => "info"
  | .warn => "warn"

structure LogEntry where
  level : LogLevel
  text : String
  deriving DecidableEq

/-- A log without what is of interest to nobody but developers. -/
def LogEntry.visible (log : List LogEntry) : List LogEntry := log.filter (·.level ≠ .debug)

/-- The imports that a module opens with, and the declarations after them. -/
def splitImports (body : List Stmt) : List Stmt × List Stmt := body.span (·.isImport)

namespace ModulePass

variable {σ : Type}

/-- The state between two chunks. -/
structure State (σ : Type) where
  pass : Pass
  sink : σ
  log : List LogEntry := []
  /-- The number of declarations printed. -/
  printed : Nat := 0

/-- How far a pass came. -/
structure Progress (σ : Type) where
  state : State σ
  failure : Option Failure := none
  cancelled : Bool := false

def flushedEntry (page : Page) : LogEntry :=
  { level := .debug
    text := "pyemit: flushed " ++ toString (Text.width page.pending) ++
      " characters, next line " ++ toString page.line }

/-- Writes the pending text. It is dropped also if the write fails. -/
def flush (sink : Sink σ) (s : State σ) : Progress σ :=
  let page := s.pass.page
  let s' := { s with pass := { s.pass with page := page.flush } }
  if page.pending = "" then { state := { s' with log := s.log ++ [flushedEntry page] } }
  else match sink.write page.pending s.sink with
    | (written, none) =>
      { state := { s' with sink := written, log := s.log ++ [flushedEntry page] } }
    | (left, some failure) => { state := { s' with sink := left }, failure := some failure }

/-- Prints the leading imports and an empty line. -/
def imports (set : Settings) (sink : Sink σ) (stmts : List Stmt) (s : State σ) : Progress σ :=
  match perform set (stmtsInstrs set stmts ++ [.newline]) s.pass with
  | { pass, failure := none } => flush sink { s with pass }
  | { pass, failure } => { state := { s with pass }, failure }

def declarationNote (decl : Stmt) : Note :=
  { message := "while printing " ++ decl.describe, loc := decl.loc }

/-- Prints a declaration and an empty line. -/
def declaration (set : Settings) (sink : Sink σ) (decl : Stmt) (s : State σ) : Progress σ :=
  match perform set (decl.instrs set) s.pass with
  | { pass, failure := some f } =>
    { state := { s with pass }, failure := some (f.addNote (declarationNote decl)) }
  | { pass, failure := none } =>
    flush sink { s with pass := { pass with page := pass.page.endLine.newline } }

/-- Prints declarations one after the other, until one fails or the pass is cancelled. -/
def declarations (set : Settings) (sink : Sink σ) (cancelled : σ → Bool) :
    List Stmt → State σ → Progress σ
  | [], s => { state := s }
  | decl :: decls, s =>
    if cancelled s.sink then { state := s, cancelled := true }
    else
      match declaration set sink decl s with
      | { state, failure := none, .. } =>
        declarations set sink cancelled decls { state with printed := state.printed + 1 }
      | stopped => stopped

/-- Prints the chunks of a module. -/
def chunks (set : Settings) (sink : Sink σ) (cancelled : σ → Bool) (body : List Stmt)
    (s : State σ) : Progress σ :=
  if cancelled s.sink then { state := s, cancelled := true }
  else
    match imports set sink (splitImports body).1 s with
    | { state, failure := none, .. } =>
      declarations set sink cancelled (splitImports body).2 state
    | stopped => stopped

structure Summary where
  cancelled : Bool
  declarations : Nat
  deriving DecidableEq

structure Result (σ : Type) where
  outcome : Except Failure Summary
  pass : Pass
  sink : σ
  log : List LogEntry

/-- A warning for each error that was reported after the first `before` diagnostics. -/
def warnings (before : Nat) (diagnostics : List Diagnostic) : List LogEntry :=
  ((diagnostics.drop before).filter (·.isError)).map
    fun d => { level := .warn, text := d.format }

def closeWarning (failure : Failure) : LogEntry :=
  { level := .warn, text := "pyemit: closing the writer failed: " ++ failure.message }

def cancelledEntry (printed total : Nat) : LogEntry :=
  { level := .info
    text := "pyemit: cancelled after " ++ toString printed ++ " of " ++ toString total ++
      " declarations" }

/-- Closes the sink and says how the pass ended. A failure to close counts only if nothing failed
before. -/
def finish (sink : Sink σ) (before total : Nat) (p : Progress σ) : Result σ :=
  let s := p.state
  let log := s.log ++ warnings before s.pass.diagnostics
  match p.failure, sink.close s.sink with
  | some failure, (closed, some closing) =>
    { outcome := .error failure, pass := s.pass, sink := closed,
      log := log ++ [closeWarning closing] }
  | some failure, (closed, none) =>
    { outcome := .error failure, pass := s.pass, sink := closed, log }
  | none, (closed, some closing) =>
    { outcome := .error closing, pass := s.pass, sink := closed, log }
  | none, (closed, none) =>
    { outcome := .ok { cancelled := p.cancelled, declarations := s.printed }
      pass := s.pass
      sink := closed
      log := log ++ if p.cancelled then [cancelledEntry s.printed total] else [] }

/-- Prints a module to a sink, and closes the sink. -/
def run (set : Settings) (sink : Sink σ) (cancelled : σ → Bool) (body : List Stmt) (pass : Pass)
    (state : σ) : Result σ :=
  finish sink pass.diagnostics.length (splitImports body).2.length
    (chunks set sink cancelled body { pass, sink := state })

end ModulePass

end CodePrinter
