import CodePrinter.SourceMap.Mapping

/-! Errors that stop a pass under either failure policy. -/
namespace CodePrinter

/-- The families of operators. -/
inductive OperatorFamily where
  | binary
  | boolean
  | comparison
  | unary
  deriving DecidableEq

inductive Fault where
  | unknownExpression (node : Json)
  | unknownStatement (node : Json)
  | unknownConstant (node : Json)
  /-- A node of no known kind that has no JSON form to name it by. -/
  | unserializable
  | unknownOperator (family : OperatorFamily) (name : String)
  | invalidMapping (source : String) (mapping : Mapping)
  | writeAfterClose
  | noSuchFile (path : String)
  | writeAfterEnd
  | endAfterFinish
  /-- An error raised by a resolver or a sink of the caller. -/
  | external (message : String)
  /-- A bare text raised by a sink of the caller. -/
  | bare (text : String)

/-- The fault of a node of no known kind. -/
def Fault.ofNode (fault : Json → Fault) (node : Data) : Fault :=
  match node.toJson? with
  | some json => fault json
  | none => .unserializable

def OperatorFamily.label : OperatorFamily → String
  | .binary => "operator"
  | .boolean => "boolean operator"
  | .comparison => "comparison operator"
  | .unary => "unary operator"

def Fault.message : Fault → String
  | .unknownExpression node => "Unknown expression: " ++ node.compact
  | .unknownStatement node => "Unknown statement: " ++ node.compact
  | .unknownConstant node => "Unknown constant: " ++ node.compact
  | .unserializable => "Do not know how to serialize a BigInt"
  | .unknownOperator family name => "Unknown " ++ family.label ++ ": " ++ name
  | .invalidMapping source mapping => "Invalid mapping: " ++ (mapping.toJson source).compact
  | .writeAfterClose => "StringWriter: write after close"
  | .noSuchFile path => "ENOENT: no such file or directory, open '" ++ path ++ "'"
  | .writeAfterEnd => "write after end"
  | .endAfterFinish => "Cannot call end after a stream was finished"
  | .external message => message
  | .bare text => text

end CodePrinter
