import ModuleBundler.Text.Basic
import ModuleBundler.Text.Alphanumeric
import ModuleBundler.Text.WordChar
import ModuleBundler.Path
import ModuleBundler.Error
import ModuleBundler.Syntax.Brace
import ModuleBundler.Import.Statement
import ModuleBundler.Module.Basic
import ModuleBundler.Module.Header
import ModuleBundler.Syntax.Comment
import ModuleBundler.Module.Block
import ModuleBundler.Module.Parser
import ModuleBundler.CallSite
import ModuleBundler.Digest.Sha256
import ModuleBundler.Service.Request
import ModuleBundler.Registry
import ModuleBundler.Scan
import ModuleBundler.Bundle.Basic
import ModuleBundler.Service.Basic
import ModuleBundler.Report.Json
import ModuleBundler.Report.Registry
import ModuleBundler.Command
import ModuleBundler.Main
import ModuleBundler.Proofs.NormalPath
import ModuleBundler.Proofs.Scan.Invariant
import ModuleBundler.Proofs.Scan.Closure
import ModuleBundler.Proofs.Bundle.Wiring
import ModuleBundler.Proofs.Brace.Lines
import ModuleBundler.Proofs.Bundle.Scaffold
import ModuleBundler.Proofs.Module.Reading
import ModuleBundler.Proofs.Service.Cache
import ModuleBundler.Proofs.Scan.Order
import ModuleBundler.Proofs.Scan.Termination
import ModuleBundler.Proofs.CallSite.Redirect
import ModuleBundler.Proofs.CallSite.Lines
import ModuleBundler.Proofs.Service.RequestPath
import ModuleBundler.Proofs.Bundle.Names
import ModuleBundler.Proofs.CallSite.OnePass
import ModuleBundler.Proofs.Service.Failure
import ModuleBundler.Proofs.Import.Text
import ModuleBundler.Proofs.Import.Clause
import ModuleBundler.Proofs.Import.RoundTrip
import ModuleBundler.Proofs.Import.Lexemes
import ModuleBundler.Proofs.Module.ImportLines
import ModuleBundler.Proofs.Module.Comments
import ModuleBundler.Proofs.Service.Tidy
import ModuleBundler.Proofs.Module.Loops
import ModuleBundler.Proofs.Module.SourceOrder
import ModuleBundler.Proofs.Bundle.Exports
import ModuleBundler.Proofs.Bundle.ExportValues
import ModuleBundler.Proofs.Brace.Tracker
import ModuleBundler.Proofs.Brace.Pieces
import ModuleBundler.Proofs.CallSite.Braces
import ModuleBundler.Proofs.Bundle.ParsedBlock
