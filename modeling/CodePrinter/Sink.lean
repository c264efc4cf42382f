import CodePrinter.Failure

/-! Where printed text goes. -/
namespace CodePrinter

/-- A sink takes chunks of text in order until it is closed. Each step leaves a state behind, also
one that fails. -/
structure Sink (σ : Type) where
  write : String → σ → σ × Option Failure
  close : σ → σ × Option Failure

/-- Chunks kept in memory. -/
structure Memory where
  chunks : List String := []
  closed : Bool := false
  deriving DecidableEq

namespace Memory

def write (chunk : String) (m : Memory) : Memory × Option Failure :=
  if m.closed then (m, some (.fault .writeAfterClose))
  else ({ m with chunks := m.chunks ++ [chunk] }, none)

def close (m : Memory) : Memory := { m with closed := true }

def text (m : Memory) : String := String.join m.chunks

def sink : Sink Memory := { write, close := fun m => (m.close, none) }

end Memory

inductive FileState where
  /-- Nothing has waited for the file yet. -/
  | unopened
  | failed
  | opened (content : String)
  | finished (content : String)
  deriving DecidableEq

/-- A file. The first write or close waits until it is opened, and only then is it known whether it
can be: one in a directory that does not exist cannot. -/
structure FileSink where
  path : String
  missing : Bool := false
  state : FileState := .unopened
  deriving DecidableEq

namespace FileSink

/-- The file once it is known whether it can be opened. -/
def settle (f : FileSink) : FileSink :=
  match f.state with
  | .unopened => { f with state := if f.missing then .failed else .opened "" }
  | _ => f

/-- The first error of the file, as far as it is known. -/
def error? (f : FileSink) : Option Failure :=
  match f.state with
  | .failed => some (.fault (.noSuchFile f.path))
  | _ => none

/-- The text in the file, if there is a file. -/
def content? (f : FileSink) : Option String :=
  match f.state with
  | .opened content | .finished content => some content
  | _ => none

def write (chunk : String) (f : FileSink) : FileSink × Option Failure :=
  let f := f.settle
  match f.state with
  | .opened content => ({ f with state := .opened (content ++ chunk) }, none)
  | .finished _ => (f, some (.fault .writeAfterEnd))
  | _ => (f, f.error?)

def close (f : FileSink) : FileSink × Option Failure :=
  let f := f.settle
  match f.state with
  | .opened content => ({ f with state := .finished content }, none)
  | .finished _ => (f, some (.fault .endAfterFinish))
  | _ => (f, f.error?)

def sink : Sink FileSink := { write, close }

end FileSink

/-- What goes wrong while a module is printed to memory. -/
structure Disturbance where
  /-- The number of the write that fails, from 1, and how. -/
  failingWrite : Option (Nat × Failure) := none
  failingClose : Option Failure := none
  cancelledBefore : Bool := false
  /-- The number of the write at whose end the pass is cancelled, from 1. -/
  cancelledAfter : Option Nat := none

namespace Disturbance

def write (d : Disturbance) (chunk : String) (m : Memory) : Memory × Option Failure :=
  match d.failingWrite with
  | some (number, failure) =>
    if m.chunks.length + 1 = number then (m, some failure) else m.write chunk
  | none => m.write chunk

def sink (d : Disturbance) : Sink Memory :=
  { write := d.write, close := fun m => (m.close, d.failingClose) }

/-- Whether the pass is cancelled, once some chunks are written. -/
def cancelled (d : Disturbance) (m : Memory) : Bool :=
  d.cancelledBefore || match d.cancelledAfter with
    | some number => 0 < number && number ≤ m.chunks.length
    | none => false

end Disturbance

end CodePrinter
