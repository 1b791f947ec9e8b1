import AsnLayout.GroupKind
import AsnLayout.Remark

/-!
# Definition trees

The tree of a schema: its root holds module headers, type definitions, comments and other lines in
their order.  The children of a definition or of a field whose group spans several lines are the
members of the group, or its lines where the group is of no structured kind.
-/

set_option autoImplicit false

namespace AsnLayout

inductive NodeKind where
  | root
  | moduleHeader
  | blockBegin
  | blockEnd
  | typeDefinition
  | field
  | comment
  | other
  deriving DecidableEq, Repr, Inhabited

structure Node where
  kind : NodeKind
  name : Text := []
  content : Text := []
  level : Int := 0
  groupKind : Option GroupKind := none
  oneLine : Option Bool := none
  inlineMembers : Option (List Text) := none
  /-- The text before the opening brace, or the whole type. -/
  header : Option Text := none
  trailer : Text := []
  openingComment : Option Text := none
  closingComment : Option Text := none
  /-- The line the node starts on, counted from one. -/
  line : Nat := 0
  /-- Whether the node is a line of a block comment behind its first. -/
  blockLine : Bool := false
  children : List Node := []
  deriving Repr, Inhabited

namespace Node

def isStructured (node : Node) : Bool := node.groupKind.any (·.isStructured)

def isField (node : Node) : Bool := node.kind = .field

def spansLines (node : Node) : Bool := node.isField && node.oneLine = some false

def addComment (node : Node) (comment : Text) : Node :=
  if node.spansLines then
    { node with closingComment := bothComments node.closingComment (some comment) }
  else { node with openingComment := bothComments node.openingComment (some comment) }

/-- The node of a comment line; a line behind the first of a block comment keeps its indent. -/
def ofComment (line : Text) (blockLine : Bool) (level : Int) (number : Nat) : Node :=
  { kind := .comment
    content := if blockLine then line else Text.trimStart line
    level
    line := number
    blockLine }

def ofMember (text : Text) (level : Int) (number : Nat) : Node :=
  { kind := .field, name := Text.firstWord text, content := text, level, line := number }

def modifyLastField (change : Node → Node) : List Node → List Node
  | [] => []
  | node :: later =>
    if node.isField && !later.any isField then change node :: later
    else node :: modifyLastField change later

end Node

end AsnLayout
