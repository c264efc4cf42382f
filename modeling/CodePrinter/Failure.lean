import CodePrinter.Diagnostic
import CodePrinter.Fault

/-! Failures that stop a pass, and the policy that decides between stopping and reporting. -/
namespace CodePrinter

/-- The part of the work in which a compile error arose. -/
inductive Stage where
  | builder
  | print
  deriving DecidableEq

def Stage.name : Stage → String
  | .builder => "builder"
  | .print => "print"

/-- Every other name is that of printing. -/
def Stage.ofName (name : String) : Stage := if name = Stage.builder.name then .builder else .print

structure Note where
  message : String
  loc : Option Location := none
  deriving DecidableEq

/-- A problem of the tree that stopped the pass. -/
structure CompileError where
  message : String
  stage : Stage := .print
  loc : Option Location := none
  notes : List Note := []
  deriving DecidableEq

def CompileError.addNote (e : CompileError) (note : Note) : CompileError :=
  { e with notes := e.notes ++ [note] }

inductive Failure where
  | compile (error : CompileError)
  | fault (fault : Fault)

def Failure.message : Failure → String
  | .compile e => e.message
  | .fault f => f.message

/-- A note is kept with a compile error only. -/
def Failure.addNote (note : Note) : Failure → Failure
  | .compile e => .compile (e.addNote note)
  | .fault f => .fault f

/-- Whether a problem stops the pass or is reported and made good with a placeholder. -/
inductive FailurePolicy where
  | fatal
  | recover
  deriving DecidableEq

def FailurePolicy.name : FailurePolicy → String
  | .fatal => "fatal"
  | .recover => "recover"

/-- Only the fatal policy stops a pass, so every other name is that of recovery. -/
def FailurePolicy.ofName (name : String) : FailurePolicy :=
  if name = FailurePolicy.fatal.name then .fatal else .recover

/-- A failure under a policy: the error that stops the pass, or the diagnostics with one more. -/
def FailurePolicy.report (policy : FailurePolicy) (stage : Stage) (code message : String)
    (loc : Option Location) (fileName : Option String) (ds : List Diagnostic) :
    Except CompileError (List Diagnostic) :=
  match policy with
  | .fatal => .error { message, stage, loc }
  | .recover => .ok (ds ++ [{ severity := .error, code, message, loc, fileName }])

end CodePrinter
