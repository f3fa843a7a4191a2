import DocAudit.Auditor
import DocAudit.Binary64
import DocAudit.Catalog
import DocAudit.Check.Content
import DocAudit.Check.Links
import DocAudit.Check.Naming
import DocAudit.CommandLine
import DocAudit.CommandLine.Options
import DocAudit.Config
import DocAudit.Config.File
import DocAudit.Config.Storage
import DocAudit.Discovery
import DocAudit.Document
import DocAudit.Document.Load
import DocAudit.Extension
import DocAudit.FileName
import DocAudit.FileTree
import DocAudit.FileTree.Edit
import DocAudit.FrontMatter
import DocAudit.Json
import DocAudit.Link
import DocAudit.Lowercase
import DocAudit.Lowercase.Table
import DocAudit.Main
import DocAudit.Markdown.Code
import DocAudit.Markdown.Construct
import DocAudit.Markdown.Heading
import DocAudit.Markdown.Target
import DocAudit.Path
import DocAudit.Proofs.Path.Components
import DocAudit.Proofs.Text.Cut
import DocAudit.Report
import DocAudit.Rule
import DocAudit.Text
import DocAudit.Toml.Document
import DocAudit.Toml.Quoted
import DocAudit.Toml.Scalar
import DocAudit.Toml.Value
import DocAudit.TreeAudit
import DocAudit.Utf8
import DocAudit.Violation
import DocAudit.Yaml.Anchor
import DocAudit.Yaml.Cursor
import DocAudit.Yaml.Node
import DocAudit.Yaml.Scalar
import DocAudit.Yaml.Token
import DocAudit.Yaml.Token.Name
import DocAudit.Yaml.Token.Scalar
import DocAudit.Yaml.Token.Stream
import DocAudit.Yaml.Value
import DocAudit.Proofs.Outcome
import DocAudit.Proofs.Path.Walk
import DocAudit.Proofs.Links.Existence
import DocAudit.Proofs.Markdown.Reading
import DocAudit.Proofs.Markdown.Pieces
import DocAudit.Proofs.Markdown.Extraction
import DocAudit.Proofs.Path.Extension
import DocAudit.Proofs.TreeAudit.Closure
import DocAudit.Proofs.Auditor.RuleOrder
import DocAudit.Proofs.TreeAudit.Loading
import DocAudit.Proofs.TreeAudit.Relocation
import DocAudit.Proofs.Links.Relative
import DocAudit.Proofs.FileTree.Names
import DocAudit.Proofs.FileTree.Descent
import DocAudit.Proofs.Discovery.Walk
import DocAudit.Proofs.Discovery.Hidden
import DocAudit.Proofs.Discovery.Listing
import DocAudit.Proofs.Links.Rooted
import DocAudit.Proofs.TreeAudit.Locality
import DocAudit.Proofs.Toml.Quoted
import DocAudit.Proofs.Toml.Document
import DocAudit.Proofs.FileTree.Writing
import DocAudit.Proofs.Config.File
import DocAudit.Proofs.Config.Storage
import DocAudit.Proofs.Document.Body
import DocAudit.Proofs.Document.Layout
import DocAudit.Proofs.Auditor.Separation
import DocAudit.Proofs.Markdown.LineBreak
import DocAudit.Proofs.Auditor.LineBreak
import DocAudit.Proofs.Json.Pretty
import DocAudit.Proofs.CommandLine.Status
import DocAudit.Proofs.Markdown.SingleLine
import DocAudit.Proofs.Report.Lines
import DocAudit.Proofs.Auditor.KnownFiles
import DocAudit.Proofs.Document.Attributes
import DocAudit.Proofs.Path.NormalForm
import DocAudit.Proofs.Document.Partition
import DocAudit.Proofs.Auditor.Fences
import DocAudit.Proofs.Auditor.HeadingLines
import DocAudit.Proofs.Markdown.Seams
import DocAudit.Proofs.Links.AssetLeads
import DocAudit.Proofs.Links.Fragment
import DocAudit.Proofs.CommandLine.Settings
import DocAudit.Proofs.Markdown.Marker
import DocAudit.Proofs.Report.Styles
import DocAudit.Proofs.CommandLine.Colours
import DocAudit.Proofs.Auditor.LetterCase
import DocAudit.Proofs.Markdown.Unfenced
import DocAudit.Proofs.Discovery.Termination
import DocAudit.Proofs.Path.ExtensionOffset
