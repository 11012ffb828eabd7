import LessStyle.Files.Snapshot
import LessStyle.Main
import LessStyle.Proofs.Report.Batch
import LessStyle.Proofs.Report.Dedup
import LessStyle.Proofs.Report.LineBreaks
import LessStyle.Proofs.Rule.Alias
import LessStyle.Proofs.Rule.BraceSpace
import LessStyle.Proofs.Rule.Candidates
import LessStyle.Proofs.Rule.Comma
import LessStyle.Proofs.Rule.HexColor
import LessStyle.Proofs.Rule.Highlight
import LessStyle.Proofs.Rule.Indent
import LessStyle.Proofs.Rule.LeadingZero
import LessStyle.Proofs.Rule.Location
import LessStyle.Proofs.Rule.Selectors
import LessStyle.Proofs.Rule.Session
import LessStyle.Proofs.Rule.ShortValue
import LessStyle.Proofs.Sheet.Braces
import LessStyle.Proofs.Sheet.Colon
import LessStyle.Proofs.Sheet.Columns
import LessStyle.Proofs.Sheet.Cursor
import LessStyle.Proofs.Sheet.Cursor.Nodes
import LessStyle.Proofs.Sheet.Cursor.Rounds
import LessStyle.Proofs.Sheet.Levels
import LessStyle.Proofs.Sheet.Lines
import LessStyle.Proofs.Sheet.Mixins
import LessStyle.Proofs.Sheet.Order
import LessStyle.Proofs.Sheet.Origin
import LessStyle.Proofs.Sheet.Params
import LessStyle.Proofs.Sheet.Parens
import LessStyle.Proofs.Sheet.Span
import LessStyle.Proofs.Token.Bytes
import LessStyle.Proofs.Token.Closing
import LessStyle.Proofs.Token.Lexeme
import LessStyle.Proofs.Token.Parens
import LessStyle.Proofs.Token.Shape
import LessStyle.Proofs.Token.Unclosed
import LessStyle.Proofs.Value.Blanked
import LessStyle.Proofs.Value.ItemBytes
import LessStyle.Proofs.Value.Literal
import LessStyle.Proofs.Value.LiteralItems
import LessStyle.Proofs.Value.LongestNumeral
import LessStyle.Proofs.Value.Mask
import LessStyle.Proofs.Value.Nesting
import LessStyle.Proofs.Value.Segmentation
import LessStyle.Proofs.Value.Strings
