import CodePrinter.Proofs.Python.Tokens
import CodePrinter.Syntax.Expr

/-! A reader for Python's expressions, by recursive descent.

There is a rule for each level of precedence, from lambdas and conditionals to atoms. A rule reads
its parts by the reader that it is given, so that only `parse` recurs. -/
namespace CodePrinter.Python

/-- Reads something from the front of a list of tokens, and gives back the rest. -/
abbrev Reader (α : Type) := List Token → Option (α × List Token)

/-- The levels of precedence, from the loosest to the tightest. -/
inductive Level where
  | expression
  | disjunction
  | conjunction
  | inversion
  | comparison
  | bitOr
  | bitXor
  | bitAnd
  | shift
  | sum
  | product
  | factor
  | power
  | primary
  | atom
  deriving DecidableEq

namespace Level

/-- The place of a level among the levels. -/
def rank : Level → Nat
  | .expression => 0
  | .disjunction => 1
  | .conjunction => 2
  | .inversion => 3
  | .comparison => 4
  | .bitOr => 5
  | .bitXor => 6
  | .bitAnd => 7
  | .shift => 8
  | .sum => 9
  | .product => 10
  | .factor => 11
  | .power => 12
  | .primary => 13
  | .atom => 14

/-- The next level, which binds tighter. -/
def tighter : Level → Level
  | .expression => .disjunction
  | .disjunction => .conjunction
  | .conjunction => .inversion
  | .inversion => .comparison
  | .comparison => .bitOr
  | .bitOr => .bitXor
  | .bitXor => .bitAnd
  | .bitAnd => .shift
  | .shift => .sum
  | .sum => .product
  | .product => .factor
  | .factor => .power
  | .power => .primary
  | _ => .atom

/-- The operators of a level that associate to the left. -/
def binaryOps : Level → List (String × BinaryOp)
  | .bitOr => [("|", .bitOr)]
  | .bitXor => [("^", .bitXor)]
  | .bitAnd => [("&", .bitAnd)]
  | .shift => [("<<", .lShift), (">>", .rShift)]
  | .sum => [("+", .add), ("-", .sub)]
  | .product => [("*", .mult), ("/", .div), ("//", .floorDiv), ("%", .mod), ("@", .matMult)]
  | _ => []

end Level

def unaryOps : List (String × UnaryOp) := [("+", .uAdd), ("-", .uSub), ("~", .invert)]

def compareOps : List (String × CompareOp) :=
  [("==", .eq), ("!=", .notEq), ("<", .lt), ("<=", .ltE), (">", .gt), (">=", .gtE)]

section Parts

variable {α β : Type}

/-- A symbol of a table. -/
def operator? (ops : List (String × α)) : Reader α
  | .symbol text :: ts => (ops.lookup text).map fun op => (op, ts)
  | _ => none

def word? (text : String) : Reader Unit
  | .word w :: ts => if w = text then some ((), ts) else none
  | _ => none

def compareOp? : Reader CompareOp
  | .word "is" :: .word "not" :: ts => some (.isNot, ts)
  | .word "is" :: ts => some (.is, ts)
  | .word "in" :: ts => some (.in, ts)
  | .word "not" :: .word "in" :: ts => some (.notIn, ts)
  | ts => operator? compareOps ts

/-- At most `n` items, each after a separator. -/
def chain (separator : Reader β) (item : Reader α) : (n : Nat) → Reader (List (β × α))
  | 0, ts => some ([], ts)
  | n + 1, ts =>
    match separator ts with
    | none => some ([], ts)
    | some (b, ts) => do
      let (a, ts) ← item ts
      let (more, ts) ← chain separator item n ts
      some ((b, a) :: more, ts)

/-- At most `n` items up to a bracket, with commas between them; a last comma is allowed. -/
def itemsUntil (close : String) (item : Reader α) : (n : Nat) → Reader (List α)
  | 0, _ => none
  | n + 1, ts =>
    if ts.head? = some (.symbol close) then some ([], ts.tail)
    else do
      let (a, ts) ← item ts
      if ts.head? = some (.symbol close) then some ([a], ts.tail)
      else if ts.head? = some (.symbol ",") then
        let (more, ts) ← itemsUntil close item n ts.tail
        some (a :: more, ts)
      else none

/-- The items after the first, up to a bracket. -/
def moreUntil (close : String) (item : Reader α) : Reader (List α) := fun ts =>
  if ts.head? = some (.symbol close) then some ([], ts.tail)
  else if ts.head? = some (.symbol ",") then itemsUntil close item ts.length ts.tail
  else none

end Parts

/-- The parameters of a lambda, up to the colon. -/
def lambdaParams : Reader (List String)
  | .symbol ":" :: ts => some ([], ts)
  | .word name :: .symbol ":" :: ts => if name ∈ keywords then none else some ([name], ts)
  | .word name :: .symbol "," :: ts => do
    let (names, ts) ← lambdaParams ts
    if name ∈ keywords then none else some (name :: names, ts)
  | _ => none

/-- String literals in a row are one. -/
def adjacentStrings : List Token → String × List Token
  | .string value :: ts => (value ++ (adjacentStrings ts).1, (adjacentStrings ts).2)
  | ts => ("", ts)

/-- Positional arguments come before those with a keyword. -/
def splitArguments : List (Option String × Expr) → Option (List Expr × List Keyword)
  | [] => some ([], [])
  | (none, e) :: rest => (splitArguments rest).map fun (args, keywords) => (e :: args, keywords)
  | (some name, e) :: rest =>
    match splitArguments rest with
    | some ([], keywords) => some ([], .mk name e :: keywords)
    | _ => none

section Rules

variable (p : Level → Reader Expr)

def readLambda : Reader Expr := fun ts => do
  let (names, ts) ← lambdaParams ts
  let (body, ts) ← p .expression ts
  some (.lambda (.mk [] (names.map (.mk · none)) none []) body, ts)

def readConditional : Reader Expr := fun ts => do
  let (body, ts) ← p .disjunction ts
  match ts with
  | .word "if" :: ts => do
    let (test, ts) ← p .disjunction ts
    match ts with
    | .word "else" :: ts => do
      let (orElse, ts) ← p .expression ts
      some (.conditional test body orElse, ts)
    | _ => none
  | ts => some (body, ts)

def readExpression : Reader Expr
  | .word "lambda" :: ts => readLambda p ts
  | ts => readConditional p ts

def readBoolean (op : BoolOp) (word : String) (operand : Reader Expr) : Reader Expr := fun ts => do
  let (first, ts) ← operand ts
  let (more, ts) ← chain (word? word) operand ts.length ts
  some (if more.isEmpty then first else .boolean op (first :: more.map (·.2)), ts)

def readInversion : Reader Expr
  | .word "not" :: ts => do
    let (operand, ts) ← p .inversion ts
    some (.unary .not operand, ts)
  | ts => p .comparison ts

def readComparison : Reader Expr := fun ts => do
  let (first, ts) ← p .bitOr ts
  let (more, ts) ← chain compareOp? (p .bitOr) ts.length ts
  some (if more.isEmpty then first else .compare first (more.map (·.1)) (more.map (·.2)), ts)

def readBinary (level : Level) : Reader Expr := fun ts => do
  let (first, ts) ← p level.tighter ts
  let (more, ts) ← chain (operator? level.binaryOps) (p level.tighter) ts.length ts
  some (more.foldl (fun left x => .binary left x.1 x.2) first, ts)

def readFactor : Reader Expr := fun ts =>
  match operator? unaryOps ts with
  | some (op, ts) => do
    let (operand, ts) ← p .factor ts
    some (.unary op operand, ts)
  | none => p .power ts

def readPower : Reader Expr := fun ts => do
  let (base, ts) ← p .primary ts
  match ts with
  | .symbol "**" :: ts => do
    let (exponent, ts) ← p .factor ts
    some (.binary base .pow exponent, ts)
  | ts => some (base, ts)

/-- A name and a symbol after it. -/
def nameBefore? (symbol : String) : Reader String
  | .word name :: .symbol text :: ts =>
    if text = symbol && name ∉ keywords then some (name, ts) else none
  | _ => none

/-- An expression in brackets, which may be an assignment. -/
def readElement : Reader Expr := fun ts =>
  match nameBefore? ":=" ts with
  | some (name, ts) => do
    let (value, ts) ← p .expression ts
    some (.named (.name name) value, ts)
  | none => p .expression ts

def readArgument : Reader (Option String × Expr) := fun ts =>
  match nameBefore? "=" ts with
  | some (name, ts) => do
    let (value, ts) ← p .expression ts
    some ((some name, value), ts)
  | none => do
    let (value, ts) ← readElement p ts
    some ((none, value), ts)

/-- At most `n` attributes, calls and subscripts of an expression. -/
def readTrailers : (n : Nat) → Expr → Reader Expr
  | 0, e, ts => some (e, ts)
  | n + 1, e, .symbol "." :: .word name :: ts =>
    if name ∈ keywords then none else readTrailers n (.attr e name) ts
  | n + 1, e, .symbol "(" :: ts => do
    let (items, ts) ← itemsUntil ")" (readArgument p) ts.length ts
    let (args, keywords) ← splitArguments items
    readTrailers n (.call e args keywords) ts
  | n + 1, e, .symbol "[" :: ts => do
    let (slice, ts) ← readElement p ts
    match ts with
    | .symbol "]" :: ts => readTrailers n (.subscript e slice) ts
    | _ => none
  | _ + 1, e, ts => some (e, ts)

def readPrimary : Reader Expr := fun ts => do
  let (first, ts) ← p .atom ts
  readTrailers p ts.length first ts

/-- What follows the first expression in parentheses: a tuple has a comma. -/
def readTuple (first : Expr) : Reader Expr
  | .symbol ")" :: ts => some (first, ts)
  | ts => do
    let (more, ts) ← moreUntil ")" (readElement p) ts
    some (.tuple (first :: more), ts)

def readParenthesized : Reader Expr
  | .symbol ")" :: ts => some (.tuple [], ts)
  | ts => do
    let (first, ts) ← readElement p ts
    readTuple p first ts

def readEntry : Reader (Expr × Expr) := fun ts => do
  let (key, ts) ← p .expression ts
  match ts with
  | .symbol ":" :: ts => do
    let (value, ts) ← p .expression ts
    some ((key, value), ts)
  | _ => none

/-- What follows the first expression in braces: a dictionary has a colon. -/
def readSetOrDict (first : Expr) : Reader Expr
  | .symbol ":" :: ts => do
    let (value, ts) ← p .expression ts
    let (more, ts) ← moreUntil "\x7d" (readEntry p) ts
    some (.dict (first :: more.map (·.1)) (value :: more.map (·.2)), ts)
  | ts => do
    let (more, ts) ← moreUntil "\x7d" (readElement p) ts
    some (.set (first :: more), ts)

def readBraced : Reader Expr
  | .symbol "\x7d" :: ts => some (.dict [] [], ts)
  | ts => do
    let (first, ts) ← readElement p ts
    readSetOrDict p first ts

def readAtom : Reader Expr
  | .word name :: ts =>
    if name = "True" then some (.bool true, ts)
    else if name = "False" then some (.bool false, ts)
    else if name = "None" then some (.noneValue, ts)
    else if name ∈ keywords then none
    else some (.name name, ts)
  | .int value :: ts => some (.int (.ofInt value), ts)
  | .string value :: ts => some (.string (value ++ (adjacentStrings ts).1), (adjacentStrings ts).2)
  | .symbol "(" :: ts => readParenthesized p ts
  | .symbol "[" :: ts => do
    let (elements, ts) ← itemsUntil "]" (readElement p) ts.length ts
    some (.list elements, ts)
  | .symbol "\x7b" :: ts => readBraced p ts
  | _ => none

/-- The rule of a level. -/
def readLevel : Level → Reader Expr
  | .expression => readExpression p
  | .disjunction => readBoolean .or "or" (p .conjunction)
  | .conjunction => readBoolean .and "and" (p .inversion)
  | .inversion => readInversion p
  | .comparison => readComparison p
  | .bitOr => readBinary p .bitOr
  | .bitXor => readBinary p .bitXor
  | .bitAnd => readBinary p .bitAnd
  | .shift => readBinary p .shift
  | .sum => readBinary p .sum
  | .product => readBinary p .product
  | .factor => readFactor p
  | .power => readPower p
  | .primary => readPrimary p
  | .atom => readAtom p

end Rules

/-- Reads an expression of a level, with rules nested at most `fuel` deep. -/
def parse : (fuel : Nat) → Level → Reader Expr
  | 0, _ => fun _ => none
  | fuel + 1, level => readLevel (parse fuel) level

/-- The expression that a text is. There are fifteen levels, so no more rules than that begin at a
token. -/
def readExpr? (text : String) : Option Expr := do
  let ts ← tokens? text
  match parse (15 * ts.length) .expression ts with
  | some (e, []) => some e
  | _ => none

end CodePrinter.Python
