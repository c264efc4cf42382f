import CodePrinter.Double.Decimal
import CodePrinter.Text.Escape

/-! The tokens of Python text, read from left to right.

The longest token is read: a character goes to the token at hand if it can. White space separates
tokens; a line break is white space inside brackets, and an error outside of them. -/
namespace CodePrinter.Python

inductive Token where
  | word (text : String)
  | int (value : Nat)
  | string (value : String)
  | symbol (text : String)
  deriving DecidableEq

def keywords : List String :=
  ["False", "None", "True", "and", "as", "assert", "async", "await", "break", "class", "continue",
    "def", "del", "elif", "else", "except", "finally", "for", "from", "global", "if", "import",
    "in", "is", "lambda", "nonlocal", "not", "or", "pass", "raise", "return", "try", "while",
    "with", "yield"]

def symbols : List String :=
  ["(", ")", "[", "]", "\x7b", "\x7d", ",", ":", ".", ";", "@", "=", "+", "-", "*", "/", "%", "&",
    "|", "^", "~", "<", ">", "->", ":=", "==", "!=", "<=", ">=", "<<", ">>", "**", "//", "+=", "-=",
    "*=", "/=", "%=", "&=", "|=", "^=", "@=", "<<=", ">>=", "**=", "//=", "..."]

/-- A character that a word may begin with. Those beyond ASCII are not told apart. -/
def isWordStart (c : Char) : Bool := c.isAlpha || c = '_' || 0x80 ≤ c.toNat

def isWordChar (c : Char) : Bool := isWordStart c || c.isDigit

def isWord (text : String) : Bool :=
  match text.toList with
  | [] => false
  | c :: cs => isWordStart c && cs.all isWordChar

/-- A name that a program may use. -/
def isIdentifier (text : String) : Bool := isWord text && text ∉ keywords

/-- A symbol can go on with a character. -/
def isSymbolStart (cs : List Char) : Bool := symbols.any fun symbol => cs.isPrefixOf symbol.toList

/-- The character that a letter after a backslash stands for. -/
def unescape? (c : Char) : Option Char :=
  if c = '\\' || c = '\x27' || c = '"' then some c
  else if c = 'n' then some '\n'
  else if c = 'r' then some '\r'
  else if c = 't' then some '\t'
  else if c = 'b' then some '\x08'
  else if c = 'f' then some '\x0c'
  else if c = 'a' then some '\x07'
  else if c = 'v' then some '\x0b'
  else none

/-- The number of hexadecimal digits after a backslash and a letter. -/
def codeLength? (c : Char) : Option Nat :=
  if c = 'x' then some 2 else if c = 'u' then some 4 else if c = 'U' then some 8 else none

def hexValue? (c : Char) : Option Nat :=
  if '0' ≤ c && c ≤ '9' then some (c.toNat - 0x30)
  else if 'a' ≤ c && c ≤ 'f' then some (c.toNat - 0x57)
  else if 'A' ≤ c && c ≤ 'F' then some (c.toNat - 0x37)
  else none

/-- The token at hand, as far as it is read. -/
inductive Pending where
  | idle
  | word (cs : List Char)
  | int (cs : List Char)
  | symbol (cs : List Char)
  /-- A string literal, with what it stands for. -/
  | quoted (cs : List Char)
  /-- A string literal up to a backslash. -/
  | escaped (cs : List Char)
  /-- A string literal up to some digits of a character code, with the number of those left. -/
  | coded (cs : List Char) (left value : Nat)
  /-- A string literal up to its closing quote. -/
  | closed (cs : List Char)
  deriving DecidableEq

/-- The tokens that end with what is at hand, if it is a whole token. An integer has no leading
zeros. -/
def Pending.tokens? : Pending → Option (List Token)
  | .idle => some []
  | .word cs => some [.word (String.ofList cs)]
  | .int cs =>
    if cs.head? = some '0' && cs ≠ ['0'] then none else some [.int (Decimal.ofDigits cs)]
  | .symbol cs =>
    if String.ofList cs ∈ symbols then some [.symbol (String.ofList cs)] else none
  | .closed cs => some [.string (String.ofList cs)]
  | _ => none

/-- The number of open brackets after a token. -/
def Token.depthAfter (depth : Nat) : Token → Nat
  | .symbol text =>
    if text ∈ ["(", "[", "\x7b"] then depth + 1
    else if text ∈ [")", "]", "\x7d"] then depth - 1
    else depth
  | _ => depth

structure Scan where
  tokens : List Token := []
  /-- The number of open brackets. -/
  depth : Nat := 0
  pending : Pending := .idle
  deriving DecidableEq

namespace Scan

/-- Ends the token at hand. -/
def settle (s : Scan) : Option Scan :=
  s.pending.tokens?.map fun ts =>
    { tokens := s.tokens ++ ts, depth := ts.foldl Token.depthAfter s.depth }

/-- Begins a token. -/
def start (s : Scan) (c : Char) : Option Scan :=
  if c = ' ' || c = '\t' || (c = '\n' && 0 < s.depth) then some { s with pending := .idle }
  else if isWordStart c then some { s with pending := .word [c] }
  else if Decimal.isDigit c then some { s with pending := .int [c] }
  else if c = '"' then some { s with pending := .quoted [] }
  else if isSymbolStart [c] then some { s with pending := .symbol [c] }
  else none

/-- Reads a character. A word right before a quote, a number right before a letter or a point, and
two quotes in a row are no tokens of the kinds that are read here. -/
def step (s : Scan) (c : Char) : Option Scan :=
  match s.pending with
  | .idle => s.start c
  | .word cs =>
    if isWordChar c then some { s with pending := .word (cs ++ [c]) }
    else if c = '"' then none
    else s.settle.bind (·.start c)
  | .int cs =>
    if Decimal.isDigit c then some { s with pending := .int (cs ++ [c]) }
    else if isWordChar c || c = '.' then none
    else s.settle.bind (·.start c)
  | .symbol cs =>
    if isSymbolStart (cs ++ [c]) then some { s with pending := .symbol (cs ++ [c]) }
    else s.settle.bind (·.start c)
  | .quoted cs =>
    if c = '"' then some { s with pending := .closed cs }
    else if c = '\\' then some { s with pending := .escaped cs }
    else if c = '\n' then none
    else some { s with pending := .quoted (cs ++ [c]) }
  | .escaped cs =>
    match unescape? c, codeLength? c with
    | some value, _ => some { s with pending := .quoted (cs ++ [value]) }
    | none, some left => some { s with pending := .coded cs left 0 }
    | none, none => none
  | .coded cs left value =>
    (hexValue? c).bind fun digit =>
      let value := value * 16 + digit
      if 1 < left then some { s with pending := .coded cs (left - 1) value }
      else if value.isValidChar then some { s with pending := .quoted (cs ++ [Char.ofNat value]) }
      else none
  | .closed _ => if c = '"' then none else s.settle.bind (·.start c)

end Scan

/-- The tokens of a text. -/
def tokens? (text : String) : Option (List Token) :=
  ((text.toList.foldlM Scan.step {}).bind Scan.settle).map (·.tokens)

example : tokens? "f(-1, k=\"\\u00e9\\n\") <= a.b" =
    some [.word "f", .symbol "(", .symbol "-", .int 1, .symbol ",", .word "k", .symbol "=",
      .string "é\n", .symbol ")", .symbol "<=", .word "a", .symbol ".", .word "b"] := by
  decide +kernel

end CodePrinter.Python
