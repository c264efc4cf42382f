import CodePrinter.Double.Decimal
import CodePrinter.Template.Scan
import CodePrinter.Text.Blank

/-! The macros of a template, which depend on how many arguments it is given.

`$i` stands for an argument. `$i...` stands for the arguments from `i` on. A group in double braces
is a choice between two texts, if a question mark follows the argument that it opens with; else it
is kept only if its last argument exists. -/
namespace CodePrinter.Template

/-- A reference `$i`, with all the digits there are. -/
def reference? : List Char → Option (Nat × List Char)
  | '$' :: cs =>
    if (cs.takeWhile Decimal.isDigit).isEmpty then none
    else some (Decimal.ofDigits (cs.takeWhile Decimal.isDigit), cs.dropWhile Decimal.isDigit)
  | _ => none

/-- A spread `$i...`. -/
def spread? (cs : List Char) : Option (Nat × List Char) :=
  match reference? cs with
  | some (index, '.' :: '.' :: '.' :: rest) => some (index, rest)
  | _ => none

/-- What stands before the first occurrence of `stop` on the current line, and what follows it. -/
def lineUntil? (stop : List Char) : List Char → Option (List Char × List Char)
  | [] => none
  | c :: cs =>
    if stop.isPrefixOf (c :: cs) then some ([], (c :: cs).drop stop.length)
    else if Text.isLineTerminator c then none
    else (lineUntil? stop cs).map fun (before, rest) => (c :: before, rest)

/-- A group that stands for one text if an argument is a constant, and for another if not. -/
structure Choice where
  index : Nat
  constant : List Char
  otherwise : List Char

def openBraces : List Char := ['\x7b', '\x7b']

def closeBraces : List Char := ['\x7d', '\x7d']

/-- A choice `$i ? A : B` in double braces. -/
def choice? (cs : List Char) : Option (Choice × List Char) :=
  if openBraces.isPrefixOf cs then
    match reference? (Text.trimStart (cs.drop 2)) with
    | none => none
    | some (index, cs) =>
      match Text.trimStart cs with
      | '?' :: cs =>
        match lineUntil? [':'] cs with
        | none => none
        | some (constant, cs) =>
          (lineUntil? closeBraces cs).map fun (otherwise, rest) =>
            ({ index, constant, otherwise }, rest)
      | _ => none
  else none

/-- The last reference before the first closing brace, and what follows it. -/
def lastReference? : List Char → Option (Nat × List Char)
  | [] => none
  | c :: cs =>
    if c = '\x7d' then none
    else (lastReference? cs).or (reference? (c :: cs))

/-- A group that is kept only if an argument exists. -/
structure Group where
  index : Nat
  inner : List Char

/-- A text in double braces with a reference before its first closing brace; what follows the
reference is on one line. -/
def group? (cs : List Char) : Option (Group × List Char) :=
  if openBraces.isPrefixOf cs then
    match lastReference? (cs.drop 2) with
    | none => none
    | some (index, tail) =>
      (lineUntil? closeBraces tail).map fun (_, rest) =>
        ({ index, inner := (cs.drop 2).take (cs.length - rest.length - 4) }, rest)
  else none

/-- A reference as it is written. -/
def referenceChars (index : Nat) : List Char := '$' :: Nat.toDigits 10 index

/-- The references from `index` up to the number of arguments, with commas between. -/
def spreadChars (count index : Nat) : List Char :=
  [',', ' '].intercalate ((List.range' index (count - index)).map referenceChars)

def expandSpreads (count : Nat) (cs : List Char) : List Char :=
  replace (spreadChars count) (scan spread? cs)

/-- The arguments that decide the choices of a template, in order. -/
def choiceIndices (cs : List Char) : List Nat :=
  (hits (scan choice? cs)).map (·.index)

def expandChoices (isConstant : Nat → Bool) (cs : List Char) : List Char :=
  replace (fun c : Choice => if isConstant c.index then c.constant else c.otherwise)
    (scan choice? cs)

def expandGroups (count : Nat) (cs : List Char) : List Char :=
  replace (fun g : Group => if g.index < count then g.inner else []) (scan group? cs)

/-- A template with its macros expanded for a number of arguments, some of them constants: first
the spreads, then the choices, then the groups that are left. -/
def expand (count : Nat) (isConstant : Nat → Bool) (template : String) : String :=
  String.ofList (expandGroups count (expandChoices isConstant
    (expandSpreads count template.toList)))

end CodePrinter.Template
