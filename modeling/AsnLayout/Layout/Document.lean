import AsnLayout.Layout.Item
import AsnLayout.Line

/-!
# The layout of a schema

A definition with a structured group takes several lines and a gap behind them; a gap follows the
beginning of a module and comes before its end.
-/

set_option autoImplicit false

namespace AsnLayout

namespace Layout

def assignment (node : Node) : Text := node.name ++ " ::=".toList

/-- Lays out a definition without a group, or whose group is kept on its line. -/
def layPlainDefinition (options : Options) (node : Node) : Except Fault (List Piece) := do
  let header := node.header.getD []
  let line := remarked (assignment node ++ ' ' :: header) node.openingComment
  let group? :=
    if isTooLong options node.level line then inlineGroup? (assignment node) header else none
  match group? with
  | none => return [.line node.level line]
  | some group =>
    let body ← layBody options (node.level + 1) (group.members.map (Item.member · none))
    let closing := remarked (closer group.trailer false) node.openingComment
    return .line node.level (opener group.header) :: body ++ [.line node.level closing, .gap]

def layGroupDefinition (options : Options) (node : Node) : Except Fault (List Piece) := do
  let front :=
    match node.header with
    | none | some [] => assignment node
    | some header => assignment node ++ ' ' :: header
  let body ←
    if node.oneLine = some true then
      layBody options (node.level + 1) ((node.inlineMembers.getD []).map (Item.member · none))
    else if node.isStructured then
      layBody options (node.level + 1) (node.children.flatMap Item.ofChild)
    else pure (keptLines node (node.level + 1))
  let opening := remarked (opener front) node.openingComment
  let closing := remarked (closer node.trailer false) node.closingComment
  return .line node.level opening :: body ++ [.line node.level closing, .gap]

def layNode (options : Options) (node : Node) : Except Fault (List Piece) :=
  match node.kind with
  | .moduleHeader | .blockBegin =>
    let gap :=
      if Text.endsWith (Text.codeLine node.content).code Text.beginWord then [Piece.gap] else []
    .ok (.line node.level node.content :: gap)
  | .blockEnd => .ok [.gap, .line node.level node.content]
  | .comment => .ok [commentPiece node node.level]
  | .typeDefinition =>
    if node.oneLine = some true && !node.isStructured then layPlainDefinition options node
    else layGroupDefinition options node
  | _ => .ok [if node.content = [] then .gap else .line node.level node.content]

def layNodes (options : Options) : List Node → Except Fault (List Piece)
  | [] => .ok []
  | node :: later => do
    let pieces ← layNode options node
    let rest ← layNodes options later
    return pieces ++ rest

end Layout

namespace Node

def toText (root : Node) (options : Options := {}) : Except Fault Text := do
  let pieces ← Layout.layNodes options root.children
  return Piece.assemble options.indentWidth pieces

end Node

end AsnLayout
