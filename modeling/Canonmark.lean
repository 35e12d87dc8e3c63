import Canonmark.Canonical.Document
import Canonmark.Canonical.Inline
import Canonmark.Canonical.Source
import Canonmark.Canonical.VideoParagraph
import Canonmark.Command.Arguments
import Canonmark.Command.Run
import Canonmark.Config.Configuration
import Canonmark.Config.File
import Canonmark.Config.Template
import Canonmark.Destination.Parentheses
import Canonmark.Destination.Percent
import Canonmark.Destination.Spaced
import Canonmark.Document.Basic
import Canonmark.Document.Builder
import Canonmark.Document.Printer
import Canonmark.Document.Shortcut
import Canonmark.Files.Host
import Canonmark.Files.Path
import Canonmark.Files.Session
import Canonmark.Files.Tree
import Canonmark.Html.Element
import Canonmark.Html.Emphasis
import Canonmark.Html.Piece
import Canonmark.Reference.Catalog
import Canonmark.Reference.CatalogFile
import Canonmark.Reference.CatalogLoad
import Canonmark.Reference.Registry
import Canonmark.Reference.Target
import Canonmark.Settings
import Canonmark.Source.BlockReader
import Canonmark.Source.BlockStart
import Canonmark.Source.BlockTree
import Canonmark.Source.Container
import Canonmark.Source.Definition
import Canonmark.Source.Event
import Canonmark.Source.Extensions
import Canonmark.Source.Inline
import Canonmark.Source.LeafReader
import Canonmark.Source.Line
import Canonmark.Source.Link
import Canonmark.Source.RawHtml
import Canonmark.Source.Reader
import Canonmark.Source.Token
import Canonmark.Text.Ascii
import Canonmark.Text.Basic
import Canonmark.Text.Entity
import Canonmark.Text.FencedLines
import Canonmark.Text.RangeTable
import Canonmark.Text.Splice
import Canonmark.Text.Table.Alphanumeric
import Canonmark.Text.Table.CaseFold
import Canonmark.Text.Table.Entities
import Canonmark.Text.Table.Lowercase
import Canonmark.Text.Table.Punctuation
import Canonmark.Text.Table.Word
import Canonmark.Text.Unicode
import Canonmark.Toml.Document
import Canonmark.Toml.Scalar
import Canonmark.Toml.Value
import Canonmark.Yaml.Cursor
import Canonmark.Yaml.Node
import Canonmark.Yaml.Scalar
import Canonmark.Yaml.Token
import Canonmark.Main
import Canonmark.Proofs.Destination.Scan
import Canonmark.Proofs.Destination.Wrapping
import Canonmark.Proofs.Wrapped.Blocks
import Canonmark.Proofs.Canonical.Literal
import Canonmark.Proofs.Canonical.Document
import Canonmark.Proofs.Canonical.Outline
import Canonmark.Proofs.Destination.Encoding
import Canonmark.Proofs.Destination.LinkTail
import Canonmark.Proofs.Document.Definitions
import Canonmark.Proofs.Printed.Headings
import Canonmark.Proofs.Reference.Catalog
import Canonmark.Proofs.Canonical.Quoting
import Canonmark.Proofs.Canonical.Stable
import Canonmark.Proofs.Canonical.Marks
import Canonmark.Proofs.Reference.Merging
import Canonmark.Proofs.Printed.Enclosed
import Canonmark.Proofs.Html.Emphasis
import Canonmark.Proofs.Source.FencedSpans
import Canonmark.Proofs.Destination.PrintedLink
import Canonmark.Proofs.Canonical.Videos
import Canonmark.Proofs.Document.Mirrored
import Canonmark.Proofs.Command.Files
import Canonmark.Proofs.Document.Tightness
import Canonmark.Proofs.Destination.Safe
import Canonmark.Proofs.Destination.Decoding
import Canonmark.Proofs.Html.Settling
import Canonmark.Proofs.Text.Escaping
import Canonmark.Proofs.Destination.Unescaping
import Canonmark.Proofs.Destination.Found
import Canonmark.Proofs.Destination.Calm
import Canonmark.Proofs.Destination.Searched
import Canonmark.Proofs.Destination.PointyTail
import Canonmark.Proofs.Destination.Rewrapping
import Canonmark.Proofs.Destination.FencedBlocks
import Canonmark.Proofs.Document.QuotedLines
import Canonmark.Proofs.Canonical.Regrouping
import Canonmark.Proofs.Canonical.Emphasis
import Canonmark.Proofs.Text.Spliced
import Canonmark.Proofs.Document.Escapes
import Canonmark.Proofs.Html.Tags
import Canonmark.Proofs.Canonical.Autolinks
import Canonmark.Proofs.Canonical.LineEnds
import Canonmark.Proofs.Config.Template
import Canonmark.Proofs.Config.Loading
import Canonmark.Proofs.Config.Discovery
import Canonmark.Proofs.Destination.Unmatched
import Canonmark.Proofs.Html.Origins
import Canonmark.Proofs.Destination.LeftAlone
import Canonmark.Proofs.Canonical.Plain
