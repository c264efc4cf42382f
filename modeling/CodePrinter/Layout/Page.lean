import CodePrinter.Text.Blank
import CodePrinter.Text.Lines
import CodePrinter.Text.Units

/-! The printed text that is not flushed yet, and the place where the next character goes. -/
namespace CodePrinter

structure Page where
  /-- Text printed since the last flush. -/
  pending : String := ""
  /-- The line of the next character, from 1. -/
  line : Nat := 1
  /-- The column of the next character, from 0, in code units. -/
  column : Nat := 0
  /-- Something other than indentation stands on the line. -/
  hasText : Bool := false
  /-- The number of indentation units before a line. -/
  depth : Nat := 0
  deriving DecidableEq

namespace Page

/-- The indentation at a depth. -/
def indentation (unit : String) (depth : Nat) : String := String.join (List.replicate depth unit)

/-- Indents a line on which nothing stands yet. -/
def startLine (unit : String) (p : Page) : Page :=
  if p.column = 0 then
    { p with
      pending := p.pending ++ indentation unit p.depth
      column := Text.width (indentation unit p.depth) }
  else p

/-- Prints a text, after the indentation if the line is empty. Line feeds in it are not noticed. -/
def print (unit text : String) (p : Page) : Page :=
  let q := p.startLine unit
  { q with
    pending := q.pending ++ text
    column := q.column + Text.width text
    hasText := q.hasText || text ≠ "" }

def newline (p : Page) : Page :=
  { p with pending := p.pending ++ "\n", line := p.line + 1, column := 0, hasText := false }

/-- Ends the line, unless it is empty. -/
def endLine (p : Page) : Page := if p.column = 0 then p else p.newline

def indent (p : Page) : Page := { p with depth := p.depth + 1 }

def dedent (p : Page) : Page := { p with depth := p.depth - 1 }

/-- Prints a line of a snippet. At the start of a line the white space it begins with gives way to
the indentation, and a line with nothing else on it is left out. -/
def snippetLine (unit text : String) (more : Bool) (p : Page) : Page :=
  let text := if p.hasText then text else String.ofList (Text.trimStart text.toList)
  if text = "" then p
  else if more then (p.print unit text).newline
  else p.print unit text

/-- Hands over the pending text. -/
def flush (p : Page) : Page := { p with pending := "" }

end Page

end CodePrinter
