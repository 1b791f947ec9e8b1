import AsnLayout.Fault
import AsnLayout.Node

/-!
# Open groups

While the lines of a definition are read, each group that is still open keeps the text of the member
being read, the brackets open in that text, and the comments that wait for the member to end.
-/

set_option autoImplicit false

namespace AsnLayout

structure OpenGroup where
  node : Node
  /-- The text read since the last member, or since the line began in an unstructured group. -/
  text : Text := []
  brackets : Nat := 0
  /-- How many brackets were open where the current line began. -/
  lineBrackets : Nat := 0
  /-- The last member is a group that has closed, and the text behind it is being read. -/
  pending : Bool := false
  comment : Option Text := none
  waiting : List Node := []
  deriving Repr

namespace OpenGroup

def level (group : OpenGroup) : Int := group.node.level + 1

def structured (group : OpenGroup) : Bool := group.node.isStructured

def append (group : OpenGroup) (nodes : List Node) : OpenGroup :=
  { group with node := { group.node with children := group.node.children ++ nodes } }

def modifyLastField (group : OpenGroup) (change : Node → Node) : OpenGroup :=
  { group with
    node := { group.node with children := Node.modifyLastField change group.node.children } }

/-- Adds a comment to the last member of the group, or behind its children if it has no member. -/
def commentLast (group : OpenGroup) (comment : Text) (number : Nat) : OpenGroup :=
  if group.node.children.any Node.isField then group.modifyLastField (·.addComment comment)
  else group.append [Node.ofComment comment false group.level number]

/-! ## Members -/

def take (group : OpenGroup) (c : Char) : OpenGroup := { group with text := group.text ++ [c] }

def takeCode (group : OpenGroup) (c : Char) : OpenGroup :=
  let brackets :=
    if isOpener c then group.brackets + 1
    else if isCloser c then group.brackets - 1
    else group.brackets
  { group.take c with brackets }

/-- Whether the text read so far belongs to a member: the text behind a closed group, or a new
member. -/
def endsMember (group : OpenGroup) : Bool := group.pending || Text.memberForm group.text ≠ []

def endMember (group : OpenGroup) (number : Nat) : OpenGroup :=
  let text := Text.memberForm group.text
  let ended :=
    if group.pending then group.modifyLastField fun node => { node with trailer := text }
    else if text = [] then group
    else group.append [Node.ofMember text group.level number]
  let commented :=
    match group.comment with
    | none => ended
    | some comment =>
      if group.endsMember then ended.modifyLastField (·.addComment comment)
      else ended.append [Node.ofComment comment false group.level number]
  { commented.append group.waiting with
    text := [], pending := false, comment := none, waiting := [] }

def groupNode (group : OpenGroup) (number : Nat) : Node :=
  let header := Text.neat group.text
  { kind := .field
    name := Text.firstWord header
    content := header
    level := group.level
    groupKind := some (GroupKind.ofHeader header)
    oneLine := some false
    header := some header
    openingComment := group.comment
    line := number
    children := group.waiting.map fun node => { node with level := group.level + 1 } }

def withoutHeader (group : OpenGroup) : OpenGroup :=
  { group with text := [], comment := none, waiting := [] }

def adopt (group : OpenGroup) (inner : Node) : OpenGroup :=
  { group.append [inner] with pending := true }

/-! ## Lines of unstructured groups -/

/-- The line of an unstructured group that has been read.  Its level counts the brackets open where
the line began, less those it starts by closing. -/
def lineNode (group : OpenGroup) (text : Text) (comment : Option Text) (number : Nat) : Node :=
  { kind := .other
    content := beside text comment
    level := group.level + (group.lineBrackets - Text.closersAtStart text : Nat)
    line := number }

def keepLine (group : OpenGroup) (comment : Option Text) (number : Nat) : OpenGroup :=
  let text := Text.neat group.text
  let group := { group with text := [] }
  if text = [] then group else group.append [group.lineNode text comment number]

def close (group : OpenGroup) (number : Nat) : OpenGroup :=
  if group.structured then group.endMember number else group.keepLine none number

end OpenGroup

end AsnLayout
