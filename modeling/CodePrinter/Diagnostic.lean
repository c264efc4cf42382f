import CodePrinter.Location
import CodePrinter.Text.Collation

/-! Diagnostics: what a pass reports without stopping. -/
namespace CodePrinter

inductive Severity where
  | error
  | warning
  | info
  | other (label : String)
  deriving DecidableEq

def Severity.label : Severity → String
  | .error => "error"
  | .warning => "warning"
  | .info => "info"
  | .other label => label

def Severity.ofLabel (label : String) : Severity :=
  ([.error, .warning, .info].find? (·.label = label)).getD (.other label)

structure Diagnostic where
  severity : Severity
  code : String
  message : String
  loc : Option Location := none
  fileName : Option String := none
  deriving DecidableEq

namespace Diagnostic

/-- A diagnostic on one line: file, position, severity, code and message. -/
def format (d : Diagnostic) : String :=
  let position := match d.loc with
    | some loc => toString loc.start.line ++ ":" ++ toString loc.start.column
    | none => "0:0"
  d.fileName.getD "<unknown>" ++ ":" ++ position ++ ": " ++ d.severity.label ++ " " ++ d.code ++
    ": " ++ d.message

def isError (d : Diagnostic) : Bool := d.severity = .error

/-- Diagnostics without a place come after those with one, and keep their order. -/
def compareLocs : Option Location → Option Location → Ordering
  | some a, some b =>
    (compare a.start.line b.start.line).then (compare a.start.column b.start.column)
  | some _, none => .lt
  | none, some _ => .gt
  | none, none => .eq

/-- The order by file, then line, then column. -/
def order (a b : Diagnostic) : Ordering :=
  (Text.collate (a.fileName.getD "") (b.fileName.getD "")).then (compareLocs a.loc b.loc)

/-- The diagnostics in order; those that the order does not tell apart stay as they were. -/
def sorted (ds : List Diagnostic) : List Diagnostic :=
  ds.mergeSort fun a b => (order a b).isLE

def ofSeverity (severity : Severity) (ds : List Diagnostic) : List Diagnostic :=
  ds.filter (·.severity = severity)

def errors (ds : List Diagnostic) : List Diagnostic := ofSeverity .error ds

def warnings (ds : List Diagnostic) : List Diagnostic := ofSeverity .warning ds

def hasErrors (ds : List Diagnostic) : Bool := ds.any isError

end Diagnostic

end CodePrinter
