import Retint.CommandLine.Arguments
import Retint.CommandLine.Program
import Retint.CommandLine.Report
import Retint.Edit
import Retint.Files.Directories
import Retint.Files.Path
import Retint.Files.System
import Retint.Json.Numeral
import Retint.Json.Printer
import Retint.Json.Reader
import Retint.Json.Value
import Retint.Kind
import Retint.Language
import Retint.Main
import Retint.Number.Decimal
import Retint.Number.Narrow
import Retint.Number.Whole
import Retint.Parser.Basic
import Retint.Pipeline.Basic
import Retint.Pipeline.Settle
import Retint.Proofs.CommandLine.Entries
import Retint.Proofs.CommandLine.Items
import Retint.Proofs.CommandLine.Viewing
import Retint.Proofs.Edit.Between
import Retint.Proofs.Edit.Minimal
import Retint.Proofs.Edit.Script
import Retint.Proofs.Files.Following
import Retint.Proofs.Files.Making
import Retint.Proofs.Json.Grammar
import Retint.Proofs.Json.Printing
import Retint.Proofs.Pipeline.Bounds
import Retint.Proofs.Pipeline.Cycle
import Retint.Proofs.Pipeline.History
import Retint.Proofs.Pipeline.Order
import Retint.Proofs.Pipeline.Publication
import Retint.Proofs.Pipeline.Queue
import Retint.Proofs.Pipeline.Recovery
import Retint.Proofs.Pipeline.Refinement
import Retint.Proofs.Pipeline.Refusal
import Retint.Proofs.Pipeline.Rest
import Retint.Proofs.Pipeline.Results
import Retint.Proofs.Pipeline.Synchrony
import Retint.Proofs.Pipeline.Transition
import Retint.Proofs.Session.Acceptance
import Retint.Proofs.Session.Agreement
import Retint.Proofs.Session.Kinds
import Retint.Proofs.Session.Positions
import Retint.Proofs.Session.Rejection
import Retint.Proofs.Settings.Ensuring
import Retint.Proofs.Settings.Fields
import Retint.Proofs.Settings.Themes
import Retint.Proofs.Style.Hexadecimal
import Retint.Proofs.Style.Overrides
import Retint.Proofs.Text.Chunks
import Retint.Proofs.Text.Order
import Retint.Proofs.Text.Quoting
import Retint.Proofs.Text.Rows
import Retint.Proofs.Tree.Identity
import Retint.Proofs.Tree.Keys
import Retint.Proofs.Tree.Nesting
import Retint.Proofs.Tree.Shift
import Retint.Proofs.Viewport.Debounce
import Retint.Proofs.Viewport.Freshness
import Retint.Proofs.Viewport.Lines
import Retint.Settings.Basic
import Retint.Settings.File
import Retint.Style.Color
import Retint.Style.Palette
import Retint.Style.Theme
import Retint.Text.Basic
import Retint.Text.Blank
import Retint.Text.Chunks
import Retint.Text.Digits
import Retint.Text.Lines
import Retint.Text.Quoted
import Retint.Text.Unshown
import Retint.Tree.Basic
import Retint.Tree.Classify
import Retint.Tree.Listing
import Retint.Tree.Session
import Retint.Tree.Walk
import Retint.Viewport.Filter
import Retint.Viewport.Layout
import Retint.Viewport.Window
