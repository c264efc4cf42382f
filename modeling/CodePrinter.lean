import CodePrinter.Text.Units
import CodePrinter.Text.Blank
import CodePrinter.Text.Lines
import CodePrinter.Text.Escape
import CodePrinter.Text.Collation
import CodePrinter.Double.Shortest
import CodePrinter.Syntax.Stmt
import CodePrinter.Lowering.Literal
import CodePrinter.Lowering.Test
import CodePrinter.Template.Cache
import CodePrinter.Print.Stmt
import CodePrinter.Dump.Tree
import CodePrinter.Dump.Report
import CodePrinter.Dump.Form
import CodePrinter.SourceMap.Version3
import CodePrinter.ModulePass
import CodePrinter.Session
import CodePrinter.Proofs.Names
import CodePrinter.Proofs.OneLine
import CodePrinter.Proofs.Points
import CodePrinter.Proofs.Pieces
import CodePrinter.Proofs.Positions
import CodePrinter.Proofs.IntegerNumerals
import CodePrinter.Proofs.IntegerLiterals
import CodePrinter.Proofs.Python.Forms
import CodePrinter.Proofs.Python.Fragments
import CodePrinter.Proofs.Python.StringLiterals
import CodePrinter.Proofs.Python.Operations
import CodePrinter.Proofs.Python.RoundTrip
import CodePrinter.Proofs.Python.Layout
import CodePrinter.Proofs.Python.Lines
import CodePrinter.Proofs.Python.StatementRoundTrip
import CodePrinter.Proofs.Balance
import CodePrinter.Proofs.CacheHistory
import CodePrinter.Proofs.FailurePolicies
import CodePrinter.Proofs.SeparateRuns
import CodePrinter.Proofs.SnippetLines
import CodePrinter.Proofs.TemplateSegments
import CodePrinter.Proofs.ExitProtocol
import CodePrinter.Proofs.SessionText
import CodePrinter.Proofs.SourceMap.RoundTrip
import CodePrinter.Proofs.SideBySide
import CodePrinter.Proofs.AlikeFragments
import CodePrinter.Proofs.LoweredTrees
import CodePrinter.Proofs.Locations
import CodePrinter.Proofs.Suites
import CodePrinter.Proofs.Margins
import CodePrinter.Proofs.ImportLevels
import CodePrinter.Proofs.Python.Imports
import CodePrinter.Proofs.Python.SnippetBodies
import CodePrinter.Proofs.ArgumentUses
import CodePrinter.Proofs.TemplateParts
import CodePrinter.Proofs.Python.ParameterLists
import CodePrinter.Proofs.Python.NumberConstants
