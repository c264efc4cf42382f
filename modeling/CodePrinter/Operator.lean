import CodePrinter.Fault

/-! The operators of Python and how they are written, spaces included. -/
namespace CodePrinter

inductive BinaryOp where
  | add
  | sub
  | mult
  | div
  | floorDiv
  | mod
  | pow
  | lShift
  | rShift
  | bitOr
  | bitXor
  | bitAnd
  | matMult
  | unknown (name : String)
  deriving DecidableEq

inductive BoolOp where
  | and
  | or
  | unknown (name : String)
  deriving DecidableEq

inductive CompareOp where
  | eq
  | notEq
  | lt
  | ltE
  | gt
  | gtE
  | is
  | isNot
  | in
  | notIn
  | unknown (name : String)
  deriving DecidableEq

inductive UnaryOp where
  | invert
  | not
  | uAdd
  | uSub
  | unknown (name : String)
  deriving DecidableEq

def BinaryOp.name : BinaryOp → String
  | .add => "add"
  | .sub => "sub"
  | .mult => "mult"
  | .div => "div"
  | .floorDiv => "floorDiv"
  | .mod => "mod"
  | .pow => "pow"
  | .lShift => "lShift"
  | .rShift => "rShift"
  | .bitOr => "bitOr"
  | .bitXor => "bitXor"
  | .bitAnd => "bitAnd"
  | .matMult => "matMult"
  | .unknown name => name

def BinaryOp.all : List BinaryOp :=
  [.add, .sub, .mult, .div, .floorDiv, .mod, .pow, .lShift, .rShift, .bitOr, .bitXor, .bitAnd,
    .matMult]

def BinaryOp.ofName (name : String) : BinaryOp :=
  (all.find? (·.name = name)).getD (.unknown name)

def BinaryOp.text : BinaryOp → Except Fault String
  | .add => .ok " + "
  | .sub => .ok " - "
  | .mult => .ok " * "
  | .div => .ok " / "
  | .floorDiv => .ok " // "
  | .mod => .ok " % "
  | .pow => .ok " ** "
  | .lShift => .ok " << "
  | .rShift => .ok " >> "
  | .bitOr => .ok " | "
  | .bitXor => .ok " ^ "
  | .bitAnd => .ok " & "
  | .matMult => .ok " @ "
  | .unknown name => .error (.unknownOperator .binary name)

def BoolOp.name : BoolOp → String
  | .and => "and"
  | .or => "or"
  | .unknown name => name

def BoolOp.all : List BoolOp := [.and, .or]

def BoolOp.ofName (name : String) : BoolOp :=
  (all.find? (·.name = name)).getD (.unknown name)

def BoolOp.text : BoolOp → Except Fault String
  | .and => .ok " and "
  | .or => .ok " or "
  | .unknown name => .error (.unknownOperator .boolean name)

def CompareOp.name : CompareOp → String
  | .eq => "eq"
  | .notEq => "notEq"
  | .lt => "lt"
  | .ltE => "ltE"
  | .gt => "gt"
  | .gtE => "gtE"
  | .is => "is"
  | .isNot => "isNot"
  | .in => "in"
  | .notIn => "notIn"
  | .unknown name => name

def CompareOp.all : List CompareOp :=
  [.eq, .notEq, .lt, .ltE, .gt, .gtE, .is, .isNot, .in, .notIn]

def CompareOp.ofName (name : String) : CompareOp :=
  (all.find? (·.name = name)).getD (.unknown name)

def CompareOp.text : CompareOp → Except Fault String
  | .eq => .ok " == "
  | .notEq => .ok " != "
  | .lt => .ok " < "
  | .ltE => .ok " <= "
  | .gt => .ok " > "
  | .gtE => .ok " >= "
  | .is => .ok " is "
  | .isNot => .ok " is not "
  | .in => .ok " in "
  | .notIn => .ok " not in "
  | .unknown name => .error (.unknownOperator .comparison name)

def UnaryOp.name : UnaryOp → String
  | .invert => "invert"
  | .not => "not"
  | .uAdd => "uAdd"
  | .uSub => "uSub"
  | .unknown name => name

def UnaryOp.all : List UnaryOp := [.invert, .not, .uAdd, .uSub]

def UnaryOp.ofName (name : String) : UnaryOp :=
  (all.find? (·.name = name)).getD (.unknown name)

/-- Of the unary operators, only `not` is followed by a space. -/
def UnaryOp.text : UnaryOp → Except Fault String
  | .invert => .ok "~"
  | .not => .ok "not "
  | .uAdd => .ok "+"
  | .uSub => .ok "-"
  | .unknown name => .error (.unknownOperator .unary name)

end CodePrinter
