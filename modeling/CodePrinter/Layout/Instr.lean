import CodePrinter.Layout.Page
import CodePrinter.Settings
import CodePrinter.Problem
import CodePrinter.Template.Cache

/-! Printing instructions and what they do. Trees are printed as lists of instructions, so that a
fact about every pass is a fact about lists.

Main statement: a list of instructions does what its first part does and then, if that did not
fail, what the rest does (`perform_append`). -/
namespace CodePrinter

inductive Instr where
  | text (value : String)
  /-- Records that a node begins here. -/
  | mark (loc : Location)
  | newline
  /-- Ends the line, unless it is empty. -/
  | endLine
  | indent
  | dedent
  /-- A line of a snippet; `more` tells whether another one follows. -/
  | snippetLine (value : String) (more : Bool)
  /-- Looks up the parts of a template and prints what is made of them. -/
  | template (source : String) (fill : List Template.Part → List Instr)
  | problem (what : Problem) (loc : Option Location)
  /-- Stops the pass. -/
  | fail (what : Failure)

/-- The state of a pass. -/
structure Pass where
  page : Page := {}
  /-- The mappings recorded so far, in order. -/
  mappings : List Mapping := []
  diagnostics : List Diagnostic := []
  cache : Template.Cache := {}

/-- The state that a pass ended in, and what stopped it if anything did. -/
structure Outcome where
  pass : Pass
  failure : Option Failure := none

/-- Goes on from a state that no failure led to. -/
def Outcome.andThen (o : Outcome) (next : Pass → Outcome) : Outcome :=
  match o.failure with
  | none => next o.pass
  | some _ => o

namespace Pass

def onPage (f : Page → Page) (p : Pass) : Outcome := { pass := { p with page := f p.page } }

/-- The mapping of a node that begins at the next character. -/
def mappingAt (page : Page) (loc : Location) : Mapping :=
  { generated := { line := page.line, column := page.column }
    origin := loc.start
    name := loc.identifier }

/-- Records a mapping, after the indentation if the line is empty. -/
def mark (set : Settings) (loc : Location) (p : Pass) : Outcome :=
  let page := p.page.startLine set.indent
  let mapping := mappingAt page loc
  match set.maps with
  | .discard => { pass := { p with page } }
  | .keep => { pass := { p with page, mappings := p.mappings ++ [mapping] } }
  | .checked source =>
    if mapping.fits source then
      { pass := { p with page, mappings := p.mappings ++ [mapping] } }
    else { pass := { p with page }, failure := some (.fault (.invalidMapping source mapping)) }

def problem (set : Settings) (what : Problem) (loc : Option Location) (p : Pass) : Outcome :=
  match what.report set.policy set.fileName loc p.diagnostics with
  | .ok diagnostics => { pass := { p with diagnostics } }
  | .error e => { pass := p, failure := some (.compile e) }

end Pass

mutual

/-- What one instruction does. -/
def Instr.perform (set : Settings) : Instr → Pass → Outcome
  | .text value, p => p.onPage (·.print set.indent value)
  | .mark loc, p => p.mark set loc
  | .newline, p => p.onPage (·.newline)
  | .endLine, p => p.onPage (·.endLine)
  | .indent, p => p.onPage (·.indent)
  | .dedent, p => p.onPage (·.dedent)
  | .snippetLine value more, p => p.onPage (·.snippetLine set.indent value more)
  | .template source fill, p =>
    perform set (fill (p.cache.split source).1) { p with cache := (p.cache.split source).2 }
  | .problem what loc, p => p.problem set what loc
  | .fail what, p => { pass := p, failure := some what }

/-- What a list of instructions does, up to the first failure. -/
def perform (set : Settings) : List Instr → Pass → Outcome
  | [], p => { pass := p }
  | i :: is, p => (i.perform set p).andThen fun q => perform set is q

end

theorem perform_nil (set : Settings) (p : Pass) : perform set [] p = { pass := p } := by
  rw [perform]

theorem perform_cons (set : Settings) (i : Instr) (is : List Instr) (p : Pass) :
    perform set (i :: is) p = (i.perform set p).andThen (perform set is) := by
  rw [perform]

theorem perform_append (set : Settings) (is js : List Instr) (p : Pass) :
    perform set (is ++ js) p = (perform set is p).andThen (perform set js) := by
  induction is generalizing p with
  | nil => rw [List.nil_append, perform_nil]; rfl
  | cons i is ih =>
    rw [List.cons_append, perform_cons, perform_cons]
    rcases i.perform set p with ⟨q, _ | failure⟩
    · exact ih q
    · rfl

end CodePrinter
