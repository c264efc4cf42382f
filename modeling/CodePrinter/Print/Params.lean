import CodePrinter.Print.Fragment

/-! Printed parameter lists, and lambdas. -/
namespace CodePrinter

/-- A parameter and its type hint. -/
structure ParamFragment where
  name : String
  hint : Option Fragment

/-- The parameters of a function. -/
structure ParamsFragment where
  posOnly : List ParamFragment
  regular : List ParamFragment
  varArg : Option ParamFragment
  defaults : List Fragment

namespace ParamFragment

def isHinted (hints : Bool) (p : ParamFragment) : Bool :=
  hints && p.hint.isSome

def print (hints : Bool) (p : ParamFragment) : List Instr :=
  match hints, p.hint with
  | true, some hint => [.text p.name, .text ": "] ++ hint.bare
  | _, _ => [.text p.name]

/-- There are spaces around the sign of a default only after a type hint. -/
def printDefault (hints : Bool) (p : ParamFragment) : Option Fragment → List Instr
  | none => []
  | some value => .text (if p.isHinted hints then " = " else "=") :: value.bare

end ParamFragment

namespace ParamsFragment

/-- The defaults side by side with the parameters: they belong to the last ones. -/
def alignedDefaults (p : ParamsFragment) : List (Option Fragment) :=
  List.replicate (p.regular.length - p.defaults.length) none ++
    (p.defaults.drop (p.defaults.length - p.regular.length)).map some

/-- The items of a parameter list, to be separated by commas. -/
def items (hints : Bool) (p : ParamsFragment) : List (List Instr) :=
  p.posOnly.map (·.print hints) ++ (if p.posOnly.isEmpty then [] else [[.text "/"]]) ++
    List.zipWith (fun q d => q.print hints ++ q.printDefault hints d) p.regular
      p.alignedDefaults ++
    p.varArg.toList.map fun q => .text "*" :: q.print hints

/-- A parameter list without parentheses. -/
def print (hints : Bool) (p : ParamsFragment) : List Instr :=
  commaSeparated (p.items hints)

def isEmpty (p : ParamsFragment) : Bool :=
  p.posOnly.isEmpty && p.regular.isEmpty && p.varArg.isNone

end ParamsFragment

namespace Fragment

/-- The parameters of a lambda have no type hints. -/
def lambda (params : ParamsFragment) (body : Fragment) (loc : Option Location) : Fragment :=
  { shape := .greedy
    body := markAt loc ++ [.text "lambda"] ++ (if params.isEmpty then [] else [.text " "]) ++
      params.print false ++ [.text ": "] ++ body.bare }

end Fragment

end CodePrinter
