import AsnLayout.Bracket
import AsnLayout.Command.Argument
import AsnLayout.Command.Disk
import AsnLayout.Command.Request
import AsnLayout.Command.Run
import AsnLayout.Fault
import AsnLayout.Fence
import AsnLayout.Field
import AsnLayout.Format
import AsnLayout.GroupKind
import AsnLayout.Layout.Document
import AsnLayout.Layout.Item
import AsnLayout.Layout.Piece
import AsnLayout.Line
import AsnLayout.Main
import AsnLayout.Node
import AsnLayout.Notice
import AsnLayout.Options
import AsnLayout.Page
import AsnLayout.Quoting
import AsnLayout.Realign
import AsnLayout.Remark
import AsnLayout.Reserved
import AsnLayout.Source
import AsnLayout.Text.Alphanumeric
import AsnLayout.Text.Basic
import AsnLayout.Text.Blank
import AsnLayout.Text.Case
import AsnLayout.Text.Digit
import AsnLayout.Text.Letter
import AsnLayout.Text.Number
import AsnLayout.Text.Printable
import AsnLayout.Text.Quoted
import AsnLayout.Text.Span
import AsnLayout.Text.Utf8
import AsnLayout.Token
import AsnLayout.Tree.Body
import AsnLayout.Tree.OpenGroup
import AsnLayout.Tree.Reader
import AsnLayout.Value
import AsnLayout.Proofs.Scan
import AsnLayout.Proofs.Tally
import AsnLayout.Proofs.Written
import AsnLayout.Proofs.Reading
import AsnLayout.Proofs.Bare
import AsnLayout.Proofs.Canonical
import AsnLayout.Proofs.Characters
import AsnLayout.Proofs.Idempotence
import AsnLayout.Proofs.Order
import AsnLayout.Proofs.Trail
import AsnLayout.Proofs.CommentReading
import AsnLayout.Proofs.CommentLayout
import AsnLayout.Proofs.Comments
import AsnLayout.Proofs.Core
import AsnLayout.Proofs.Lockstep
import AsnLayout.Proofs.Outline
import AsnLayout.Proofs.Indentation
import AsnLayout.Proofs.Hidden
import AsnLayout.Proofs.Cuts
import AsnLayout.Proofs.QuotedTree
import AsnLayout.Proofs.QuotedBody
import AsnLayout.Proofs.QuotedReading
import AsnLayout.Proofs.QuotedLayout
import AsnLayout.Proofs.Tabs
import AsnLayout.Proofs.Literals
import AsnLayout.Proofs.Realignment
import AsnLayout.Proofs.Insertion
import AsnLayout.Proofs.CheckedReading
import AsnLayout.Proofs.CheckedLayout
import AsnLayout.Proofs.Rereading
import AsnLayout.Proofs.Highlighting
import AsnLayout.Proofs.NeatLines
import AsnLayout.Proofs.Shape
import AsnLayout.Proofs.SinglePass
import AsnLayout.Proofs.Tokens
import AsnLayout.Proofs.WellFormed
import AsnLayout.Proofs.BraceDepth
import AsnLayout.Proofs.Notes
import AsnLayout.Proofs.Disks
import AsnLayout.Proofs.Comparison
import AsnLayout.Proofs.Stretches
import AsnLayout.Proofs.UnfencedBody
import AsnLayout.Proofs.UnfencedTree
import AsnLayout.Proofs.UnfencedLayout
import AsnLayout.Proofs.NoteStructure
import AsnLayout.Proofs.DepthLimit
import AsnLayout.Proofs.VisibleLayout
import AsnLayout.Proofs.BlankLines
import AsnLayout.Proofs.SteadyLayout
import AsnLayout.Proofs.UndividedTree
import AsnLayout.Proofs.MemberLists
import AsnLayout.Proofs.UsableOptions
import AsnLayout.Proofs.Scaling
import AsnLayout.Proofs.BraceMatching
import AsnLayout.Proofs.NeatCode
import AsnLayout.Proofs.LayoutAlphabet
import AsnLayout.Proofs.LastingItems
import AsnLayout.Proofs.RepeatedLayouts
