import Ambient.Code.Chars
import Ambient.Code.Nesting
import Ambient.Code.State
import Ambient.Command.Execute
import Ambient.Command.Help
import Ambient.Command.Line
import Ambient.Declaration.Literal
import Ambient.Declaration.Object
import Ambient.Declaration.Symbol
import Ambient.Disk.Basic
import Ambient.Disk.Tree
import Ambient.Disk.Walk
import Ambient.Document
import Ambient.Failure
import Ambient.Files
import Ambient.Glob
import Ambient.Ignore.Pattern
import Ambient.Ignore.Rule
import Ambient.Ignore.Scope
import Ambient.Import.Statement
import Ambient.Import.Usage
import Ambient.Isolation.Chain
import Ambient.Isolation.Project
import Ambient.Json5.Document
import Ambient.Json5.Identifier
import Ambient.Json5.Value
import Ambient.Main
import Ambient.Numeral
import Ambient.Path.Basic
import Ambient.Path.Relative
import Ambient.Reader
import Ambient.Run.Generate
import Ambient.Run.Report
import Ambient.Settings.Basic
import Ambient.Settings.File
import Ambient.Settings.Issue
import Ambient.Settings.Search
import Ambient.Source.Block
import Ambient.Source.Scan
import Ambient.Store
import Ambient.Text.Basic
import Ambient.Text.Class
import Ambient.Toml.Document
import Ambient.Toml.Scalar
import Ambient.Toml.Value
import Ambient.Proofs.Path.Components
import Ambient.Proofs.Path.Declared
import Ambient.Proofs.Path.Collision
import Ambient.Proofs.Isolation.Reading
import Ambient.Proofs.Run.Memory
import Ambient.Proofs.Run.Repeat
import Ambient.Proofs.Code.Offsets
import Ambient.Proofs.Source.Spans
import Ambient.Proofs.Text.Lines
import Ambient.Proofs.Source.Visible
import Ambient.Proofs.Isolation.Chain
import Ambient.Proofs.Text.Spacing
import Ambient.Proofs.Code.Plain
import Ambient.Proofs.Code.Balanced
import Ambient.Proofs.Code.Prefix
import Ambient.Proofs.Code.Token
import Ambient.Proofs.Declaration.ObjectLiteral
import Ambient.Proofs.Declaration.Value
import Ambient.Proofs.Declaration.Signature
import Ambient.Proofs.Import.Line
import Ambient.Proofs.Import.RoundTrip
import Ambient.Proofs.Run.Interleaving
import Ambient.Proofs.Path.Normal
import Ambient.Proofs.Run.Kept
import Ambient.Proofs.Source.Exported
import Ambient.Proofs.Declaration.Constant
import Ambient.Proofs.Code.Regex
import Ambient.Proofs.Source.Regex
import Ambient.Proofs.Disk.Discovery
import Ambient.Proofs.Checked.Code
import Ambient.Proofs.Checked.Source
import Ambient.Proofs.Checked.Declaration
import Ambient.Proofs.Checked.Import
import Ambient.Proofs.Checked.Document
import Ambient.Proofs.Declaration.Body
import Ambient.Proofs.Declaration.Annotation
import Ambient.Proofs.Code.Items
import Ambient.Proofs.Declaration.Fields
import Ambient.Proofs.Source.DocComment
import Ambient.Proofs.Code.Hidden
import Ambient.Proofs.Declaration.Numeral
import Ambient.Proofs.Source.CommentCode
import Ambient.Proofs.Declaration.LiteralType
import Ambient.Proofs.Declaration.StringType
import Ambient.Proofs.Path.Containment
import Ambient.Proofs.Import.Table
import Ambient.Proofs.Import.TypeNames
import Ambient.Proofs.Document.Options
import Ambient.Proofs.Code.Layout
import Ambient.Proofs.Import.Reading
import Ambient.Proofs.Import.Grammar
import Ambient.Proofs.Import.Parsing
import Ambient.Proofs.Code.Lines
import Ambient.Proofs.Code.Stripped
import Ambient.Proofs.Code.Split
import Ambient.Proofs.Import.Invisible
import Ambient.Proofs.Path.Canonical
import Ambient.Proofs.Code.Closing
import Ambient.Proofs.Settings.Nearest
