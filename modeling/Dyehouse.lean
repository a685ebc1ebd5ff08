import Dyehouse.Text.Basic
import Dyehouse.Text.Blank
import Dyehouse.Text.LineBreak
import Dyehouse.Text.Printable
import Dyehouse.Text.Quoted
import Dyehouse.Text.Case
import Dyehouse.Table
import Dyehouse.Name
import Dyehouse.Collection
import Dyehouse.Scope
import Dyehouse.Registry
import Dyehouse.Shelf
import Dyehouse.Sheet.Basic
import Dyehouse.Sheet.Css
import Dyehouse.Diagnostic
import Dyehouse.Statement.Basic
import Dyehouse.Statement.Fault
import Dyehouse.Sheet.Edit
import Dyehouse.Context
import Dyehouse.State
import Dyehouse.Handler
import Dyehouse.Run
import Dyehouse.Source.Line
import Dyehouse.Source.Error
import Dyehouse.Source.Basic
import Dyehouse.Source.Printer
import Dyehouse.Source.Grammar
import Dyehouse.Source.Lexer
import Dyehouse.Compilation
import Dyehouse.Command.Arguments
import Dyehouse.Command.Request
import Dyehouse.Command.Files
import Dyehouse.Command.Output
import Dyehouse.Command.Help
import Dyehouse.Command.Report
import Dyehouse.Command.Outcome
import Dyehouse.Main
import Dyehouse.Proofs.Plan
import Dyehouse.Proofs.Failure
import Dyehouse.Proofs.Registry
import Dyehouse.Proofs.Frame
import Dyehouse.Proofs.Lookup
import Dyehouse.Proofs.Sheet
import Dyehouse.Proofs.Lines
import Dyehouse.Proofs.Grammar
import Dyehouse.Proofs.Lexing
import Dyehouse.Proofs.Locality
import Dyehouse.Proofs.Dominance
import Dyehouse.Proofs.Quoting
import Dyehouse.Proofs.Keys
import Dyehouse.Proofs.Strictness
import Dyehouse.Proofs.Unambiguous
import Dyehouse.Proofs.Provenance
import Dyehouse.Proofs.Identifiers
import Dyehouse.Proofs.Minify
import Dyehouse.Proofs.Semicolons
import Dyehouse.Proofs.Authored
import Dyehouse.Proofs.Independence
import Dyehouse.Proofs.Bindings
import Dyehouse.Proofs.Classes
import Dyehouse.Proofs.Reports
import Dyehouse.Proofs.Shorthand
import Dyehouse.Proofs.LineEndings
import Dyehouse.Proofs.References
import Dyehouse.Proofs.LookAlikes
import Dyehouse.Proofs.Emptiness
import Dyehouse.Proofs.Escapes
