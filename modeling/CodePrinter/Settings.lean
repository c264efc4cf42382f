import CodePrinter.Failure
import CodePrinter.Lowering.Names
import CodePrinter.ImportPath

/-! The choices of a caller that a pass depends on. -/
namespace CodePrinter

structure Settings where
  /-- The unit of indentation. -/
  indent : String := "    "
  policy : FailurePolicy := .fatal
  /-- The file that diagnostics name. -/
  fileName : Option String := none
  names : RuntimeNames := {}
  /-- The module path that is printed for a module reference. -/
  resolve : String → Except Failure String := fun path => .ok (ImportPath.dotted path)
  maps : MapPolicy := .discard

end CodePrinter
