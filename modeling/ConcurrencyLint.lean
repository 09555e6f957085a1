import ConcurrencyLint.Main
import ConcurrencyLint.Proofs.Analyzer.Blocks
import ConcurrencyLint.Proofs.Analyzer.Inputs
import ConcurrencyLint.Proofs.Analyzer.Locations
import ConcurrencyLint.Proofs.Analyzer.Restriction
import ConcurrencyLint.Proofs.Analyzer.Suppression
import ConcurrencyLint.Proofs.Cli.Status
import ConcurrencyLint.Proofs.ParseTree.Callee
import ConcurrencyLint.Proofs.ParseTree.Comments
import ConcurrencyLint.Proofs.ParseTree.Coverage
import ConcurrencyLint.Proofs.ParseTree.Faults
import ConcurrencyLint.Proofs.ParseTree.Ranges
import ConcurrencyLint.Proofs.Pattern.Exclusion
import ConcurrencyLint.Proofs.Allowance.Reading
import ConcurrencyLint.Proofs.Allowance.Trailing
import ConcurrencyLint.Proofs.Walk.EntryPoints
import ConcurrencyLint.Proofs.Walk.Wrappers
import ConcurrencyLint.Proofs.Walk.Segments
import ConcurrencyLint.Proofs.Analyzer.Identifiers
import ConcurrencyLint.Proofs.Json.RoundTrip
import ConcurrencyLint.Proofs.Analyzer.Sources
import ConcurrencyLint.Proofs.Report.Json
import ConcurrencyLint.Proofs.ParseTree.Arguments
import ConcurrencyLint.Proofs.ParseTree.Bindings
import ConcurrencyLint.Proofs.Scope.Matching
import ConcurrencyLint.Proofs.Walk.Preorder
import ConcurrencyLint.Proofs.Allowance.Lines
