import AsnLayout.Fault
import AsnLayout.Layout.Piece
import AsnLayout.Node
import AsnLayout.Options

/-!
# Members in a layout

Each member of a structured group stands on a line of its own, with a comma behind it unless it is
the last.  A group inside of a member is laid out in the same way one level deeper, if it is
structured or if the line would be too long and long lines are wrapped.
-/

set_option autoImplicit false

namespace AsnLayout

inductive Item where
  | member (text : Text) (comment : Option Text)
  | group (node : Node)
  | remark (node : Node)
  | plain (text : Text)
  deriving Repr

namespace Item

def isMember : Item → Bool
  | member _ _ | group _ => true
  | remark _ | plain _ => false

def ofSegments (comment : Option Text) : List Text → List Item
  | [] => []
  | [last] => [member last comment]
  | segment :: later => member segment none :: ofSegments comment later

def ofChild (node : Node) : List Item :=
  if node.spansLines then [group node]
  else if node.isField then
    match Text.members node.content with
    | [] => [member node.content node.openingComment]
    | segments => ofSegments node.openingComment segments
  else if node.kind = .comment then [remark node]
  else [plain node.content]

end Item

/-! ## Lines -/

namespace Layout

/-- A line with a comment behind it; an empty comment is none. -/
def remarked (text : Text) : Option Text → Text
  | none => text
  | some comment => if comment = [] then text else text ++ ' ' :: comment

def withComma (text : Text) (comma : Bool) : Text := if comma then text ++ [','] else text

def opener (header : Text) : Text := if header = [] then ['{'] else header ++ [' ', '{']

def closer (trailer : Text) (comma : Bool) : Text :=
  withComma (if trailer = [] then ['}'] else ['}', ' '] ++ trailer) comma

/-- The piece of a comment: a line of a block comment behind its first is kept as it is. -/
def commentPiece (node : Node) (level : Int) : Piece :=
  if node.blockLine then .verbatim node.content else .line level node.content

def isTooLong (options : Options) (level : Int) (line : Text) : Bool :=
  options.wrapLongLines && options.maxLineLength < level * options.indentWidth + line.length

/-! ## Groups on one line -/

structure InlineGroup where
  header : Text
  members : List Text
  trailer : Text
  deriving Repr

def inlineGroup? (front text : Text) : Option InlineGroup :=
  match Text.findExposed? text (· = '{') with
  | none => none
  | some brace =>
    let inside := text.drop (brace + 1)
    match Text.groupEnd? inside with
    | none => none
    | some close => some
      { header := Text.trim (front ++ ' ' :: Text.trim (text.take brace))
        members := Text.members (inside.take close)
        trailer := Text.trim (inside.drop (close + 1)) }

/-- The group of a member that has to be laid out: it is structured, or the line is too long. -/
def groupToExpand? (options : Options) (level : Int) (text line : Text) : Option InlineGroup :=
  match inlineGroup? [] text with
  | none => none
  | some group =>
    if (GroupKind.ofHeader group.header).isStructured || isTooLong options level line then
      some group
    else none

/-! ## Bodies -/

/-- The lines of a group that is not structured, indented against the group as they were. -/
def keptLines (node : Node) (level : Int) : List Piece :=
  node.children.map fun child =>
    let childLevel := level + max 0 (child.level - (node.level + 1))
    if child.kind = .comment then commentPiece child childLevel
    else .line childLevel child.content

/-- Lays out items one after the other, each with whether it takes a comma: a member does if
another one follows. -/
def layItems (layItem : Bool → Item → Except Fault (List Piece)) :
    List Item → Except Fault (List Piece)
  | [] => .ok []
  | item :: later => do
    let pieces ← layItem (later.any Item.isMember) item
    let rest ← layItems layItem later
    return pieces ++ rest

/-- Lays out an item, where groups may be nested `room` levels deep. -/
def layItem (options : Options) (room : Nat) (level : Int) (comma : Bool) (item : Item) :
    Except Fault (List Piece) :=
  match item, room with
  | .remark node, _ => .ok [commentPiece node level]
  | .plain text, _ => .ok [.line level text]
  | .member _ _, 0 | .group _, 0 => .error ⟨.tooDeep options.maxDepth, none⟩
  | .member text comment, room + 1 => do
    let line := remarked (withComma text comma) comment
    match groupToExpand? options level text line with
    | none => return [.line level line]
    | some group =>
      let items := group.members.map (Item.member · none)
      let body ← layItems (layItem options room (level + 1)) items
      let closing := remarked (closer group.trailer comma) comment
      return .line level (opener group.header) :: body ++ [.line level closing]
  | .group node, room + 1 => do
    let opening := remarked (opener (node.header.getD [])) node.openingComment
    let body ←
      if node.isStructured then
        layItems (layItem options room (level + 1)) (node.children.flatMap Item.ofChild)
      else pure (keptLines node (level + 1))
    let closing := remarked (closer node.trailer comma) node.closingComment
    return .line level opening :: body ++ [.line level closing]

def layBody (options : Options) (level : Int) (items : List Item) : Except Fault (List Piece) :=
  layItems (layItem options options.maxDepth.toNat level) items

end Layout

end AsnLayout
