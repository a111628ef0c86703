import AssemblyInfo.Main
import AssemblyInfo.Proofs.Except
import AssemblyInfo.Proofs.Utf8
import AssemblyInfo.Proofs.Text
import AssemblyInfo.Proofs.Numerals
import AssemblyInfo.Proofs.Rounding
import AssemblyInfo.Proofs.Decimals
import AssemblyInfo.Proofs.Literal
import AssemblyInfo.Proofs.Integers
import AssemblyInfo.Proofs.Declaration.CSharp
import AssemblyInfo.Proofs.Declaration.JScript
import AssemblyInfo.Proofs.Declaration.Written
import AssemblyInfo.Proofs.Declaration.Body
import AssemblyInfo.Proofs.Call
import AssemblyInfo.Proofs.Layout
import AssemblyInfo.Proofs.Relayout
import AssemblyInfo.Proofs.Name
import AssemblyInfo.Proofs.Outline
import AssemblyInfo.Proofs.Refinement
import AssemblyInfo.Proofs.Editing
import AssemblyInfo.Proofs.Reloading
import AssemblyInfo.Proofs.Runs
import AssemblyInfo.Proofs.OrderedMap
import AssemblyInfo.Proofs.Slices
import AssemblyInfo.Proofs.Scan
import AssemblyInfo.Proofs.Leftmost
import AssemblyInfo.Proofs.Lines
import AssemblyInfo.Proofs.Anchoring
import AssemblyInfo.Proofs.Header
import AssemblyInfo.Proofs.Integrity
import AssemblyInfo.Proofs.Checked
import AssemblyInfo.Proofs.Uppercase
import AssemblyInfo.Proofs.Lookup
import AssemblyInfo.Proofs.Files
import AssemblyInfo.Proofs.Commands
import AssemblyInfo.Proofs.Sessions
import AssemblyInfo.Proofs.Appending
import AssemblyInfo.Proofs.LiteralForm
import AssemblyInfo.Proofs.Swallowing
import AssemblyInfo.Proofs.Commuting
import AssemblyInfo.Proofs.WrittenNames
import AssemblyInfo.Proofs.SingleQuotes
import AssemblyInfo.Proofs.Capitals
import AssemblyInfo.Proofs.Objects
import AssemblyInfo.Proofs.Listing
import AssemblyInfo.Proofs.FloatLiteral
import AssemblyInfo.Proofs.Callees
