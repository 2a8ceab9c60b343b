import CodeView.Binary64.Basic
import CodeView.Binary64.Numeral
import CodeView.Binary64.Rounding
import CodeView.Binary64.Scaling
import CodeView.Binary64.Shortest
import CodeView.Command
import CodeView.Directory
import CodeView.Files
import CodeView.Frame.Bits
import CodeView.Frame.Block
import CodeView.Frame.Checksum
import CodeView.Frame.Fault
import CodeView.Frame.Header
import CodeView.Frame.Literals
import CodeView.Frame.Sequences
import CodeView.Frame.StateTable
import CodeView.Frame.SymbolCode
import CodeView.Frame.Unpack
import CodeView.Html.Canvas
import CodeView.Html.Comment
import CodeView.Html.Entity
import CodeView.Html.Highlight
import CodeView.Html.Page
import CodeView.Interface.Prune
import CodeView.Interface.Rule
import CodeView.Json.Decode
import CodeView.Json.Fault
import CodeView.Json.Read
import CodeView.Json.Reading
import CodeView.Json.Scan
import CodeView.Json.Value
import CodeView.Layout.Event
import CodeView.Layout.Options
import CodeView.Layout.Write
import CodeView.Main
import CodeView.Package.LinkTable
import CodeView.Package.Load
import CodeView.Package.Settings
import CodeView.Package.Summaries
import CodeView.Package.TypeName
import CodeView.Report
import CodeView.Syntax.Build
import CodeView.Syntax.Document
import CodeView.Syntax.Format
import CodeView.Syntax.Kind
import CodeView.Syntax.Modifier
import CodeView.Syntax.Tree
import CodeView.Text.Blank
import CodeView.Text.CaseTable
import CodeView.Text.Escape
import CodeView.Text.Faceless
import CodeView.Text.Lowercase
import CodeView.Text.Shown
import CodeView.Text.Utf8
import CodeView.View.Dump
import CodeView.View.Render
import CodeView.View.Slot
import CodeView.Proofs.Syntax.Paths
import CodeView.Proofs.Interface.Trim
import CodeView.Proofs.Syntax.Build
import CodeView.Proofs.Syntax.Modifiers
import CodeView.Proofs.Interface.Meaning
import CodeView.Proofs.Html.Fidelity
import CodeView.Proofs.Html.Congruence
import CodeView.Proofs.Interface.View
import CodeView.Proofs.Interface.Noninterference
import CodeView.Proofs.Html.Elements
import CodeView.Proofs.Interface.Subview
import CodeView.Proofs.Syntax.Walks
import CodeView.Proofs.Syntax.Numbering
import CodeView.Proofs.Interface.Reached
import CodeView.Proofs.Interface.Idempotence
import CodeView.Proofs.Interface.Rebuilt
import CodeView.Proofs.Layout.Coverage
import CodeView.Proofs.Html.Depth
import CodeView.Proofs.Json.Carries
import CodeView.Proofs.Syntax.Readers
import CodeView.Proofs.Json.Texts
import CodeView.Proofs.Interface.Account
import CodeView.Proofs.Interface.Detaching
import CodeView.Proofs.View.Requests
import CodeView.Proofs.Html.Lines
import CodeView.Proofs.Layout.Arrangement
import CodeView.Proofs.Html.Braces
import CodeView.Proofs.Layout.Conditionals
import CodeView.Proofs.Html.Trivia
import CodeView.Proofs.Html.Entities
import CodeView.Proofs.Html.Comments
import CodeView.Proofs.Html.Literals
import CodeView.Proofs.Syntax.Notes
import CodeView.Proofs.Html.Classification
import CodeView.Proofs.Binary64.Decimals
import CodeView.Proofs.Binary64.Scaling
import CodeView.Proofs.Package.TypeName
import CodeView.Proofs.Syntax.Keywords
import CodeView.Proofs.Binary64.Shortest
import CodeView.Proofs.Json.Numerals
import CodeView.Proofs.Html.Floats
