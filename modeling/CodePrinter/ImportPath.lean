/-! Dotted module paths for file-style module references. -/
namespace CodePrinter.ImportPath

/-- The non-empty segments between slashes. -/
def segments : List Char → List (List Char)
  | [] => []
  | '/' :: cs => segments cs
  | [c] => [[c]]
  | c :: '/' :: cs => [c] :: segments cs
  | c :: d :: cs =>
    match segments (d :: cs) with
    | [] => [[c]]
    | segment :: rest => (c :: segment) :: rest

/-- The package level that leading dot segments name, and the segments after them. A single dot
is one level; two dots are one more, and two at the start. -/
def level : (start : Nat) → List (List Char) → Nat × List (List Char)
  | start, ['.'] :: rest => level (start + 1) rest
  | start, ['.', '.'] :: rest => level (if start = 0 then 2 else start + 1) rest
  | start, rest => (start, rest)

def isAlphanumeric (c : Char) : Bool :=
  ('A' ≤ c && c ≤ 'Z') || ('a' ≤ c && c ≤ 'z') || ('0' ≤ c && c ≤ '9')

/-- A file name without its extension: the letters and digits it ends with and a dot before them. -/
def dropExtension (segment : List Char) : List Char :=
  match segment.reverse.span isAlphanumeric with
  | (_ :: _, '.' :: stem) => stem.reverse
  | _ => segment

def identifier (segment : List Char) : List Char :=
  segment.map fun c => if c = '-' then '_' else c

/-- The names of a module path; only the last segment has an extension to lose. -/
def moduleNames : List (List Char) → List (List Char)
  | [] => []
  | [segment] => [identifier (dropExtension segment)]
  | segment :: rest => identifier segment :: moduleNames rest

/-- The module path of a reference. A reference without a slash is a module path already. -/
def dotted (path : String) : String :=
  if '/' ∈ path.toList then
    let (dots, names) := level 0 (segments path.toList)
    String.ofList (List.replicate dots '.' ++ ['.'].intercalate (moduleNames names))
  else path

end CodePrinter.ImportPath
