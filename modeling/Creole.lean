import Creole.Renderer
import Creole.Settings.File
import Creole.Proofs.Docbook.SectionNesting
import Creole.Proofs.Html.Safety
import Creole.Proofs.Inline.RoundTrip
import Creole.Proofs.Macro.Idempotence
import Creole.Proofs.Docbook.Content
import Creole.Proofs.Node.Alignment
import Creole.Proofs.Docbook.Cells
import Creole.Proofs.Html.Cells
import Creole.Proofs.Alignment
import Creole.Proofs.Inline.Kept
import Creole.Proofs.Block.Kept
import Creole.Proofs.Node.Path
import Creole.Proofs.Shape
import Creole.Proofs.Inline.Shape
import Creole.Proofs.Block.Shape
import Creole.Proofs.Macro.Depth
import Creole.Proofs.Html.Row
import Creole.Proofs.Html.Failures
import Creole.Proofs.Macro.Substitution
import Creole.Proofs.Block.Boundary
import Creole.Proofs.Inline.Literal
import Creole.Proofs.Block.Literal
import Creole.Proofs.Text.Percent
import Creole.Proofs.Link.Target
import Creole.Proofs.Settings.Rules
import Creole.Proofs.Link.Resource
import Creole.Proofs.Block.Escape
import Creole.Proofs.Node.Urls
import Creole.Proofs.Html.Urls
import Creole.Proofs.Docbook.Urls
import Creole.Proofs.Urls
import Creole.Proofs.Xml.Reader
import Creole.Proofs.Xml.Writer
import Creole.Proofs.Xml.Spaced
import Creole.Proofs.Xml.RoundTrip
import Creole.Proofs.Inline.Agreement
import Creole.Proofs.Inline.Truncated
import Creole.Proofs.Inline.Stops
import Creole.Proofs.Inline.Nesting
import Creole.Proofs.Block.Fences
import Creole.Proofs.Link.Written
import Creole.Proofs.Block.ListNesting
import Creole.Proofs.Link.Kept
import Creole.Proofs.Block.Openers
import Creole.Proofs.Block.Headings
import Creole.Proofs.Block.Quotes
import Creole.Proofs.Block.Cells
import Creole.Proofs.Block.Tables
import Creole.Proofs.Block.Code
import Creole.Proofs.Inline.RawUrl
import Creole.Proofs.Link.LocalName
import Creole.Proofs.Page.Revisions
import Creole.Proofs.Settings.References
import Creole.Proofs.Xml.Sections
import Creole.Proofs.Text.Slice
import Creole.Proofs.Block.Bars
import Creole.Proofs.Inline.Offsets
import Creole.Proofs.Inline.Tiles
