import AsnLayout.Tree.OpenGroup

/-!
# Bodies of definitions

The body of a definition that spans several lines is read with its open groups on a stack.  Inside a
structured group a member ends only at a comma or at the closing brace, so it may run over lines; a
brace whose partner stands on the same line is part of the member, any other opens an inner group.
Every other group keeps its lines.
-/

set_option autoImplicit false

namespace AsnLayout

/-- What a comment at the end of a line is about, where no member is being read. -/
inductive Anchor where
  | nothing
  | opening
  | member
  deriving DecidableEq, Repr

structure Body where
  top : OpenGroup
  below : List OpenGroup := []
  anchor : Anchor := .nothing
  deriving Repr

inductive Body.Progress where
  | more (body : Body)
  | closed (node : Node)
  deriving Repr

namespace Body

def startLine (body : Body) : Body :=
  let text :=
    if body.top.structured && body.top.text ≠ [] then body.top.text ++ [' '] else body.top.text
  { body with
    top := { body.top with text, lineBrackets := body.top.brackets }
    anchor := .nothing }

def anchorComment (body : Body) (comment : Text) (number : Nat) : Body :=
  let top := body.top
  match body.anchor with
  | .nothing =>
    let level := top.level + top.brackets
    { body with top := top.append [Node.ofComment comment false level number] }
  | .opening =>
    let openingComment := bothComments top.node.openingComment (some comment)
    { body with top := { top with node := { top.node with openingComment } } }
  | .member => { body with top := top.commentLast comment number }

def endLine (body : Body) (comment : Option Text) (number : Nat) : Body :=
  let top := body.top
  if !top.structured && Text.neat top.text ≠ [] then
    { body with top := top.keepLine comment number }
  else
    let body := if top.structured then body else { body with top := { top with text := [] } }
    match comment with
    | none => body
    | some comment =>
      if Text.isBlankText body.top.text then body.anchorComment comment number
      else { body with
        top := { body.top with comment := bothComments body.top.comment (some comment) } }

def endMember (body : Body) (number : Nat) : Body :=
  { body with
    top := body.top.endMember number
    anchor := if body.top.endsMember then .member else body.anchor }

def enterGroup (body : Body) (limit : Int) (number : Nat) : Except Fault Body :=
  if body.top.pending then .error ⟨.secondGroup, some number⟩
  else if limit ≤ body.below.length + 1 then .error ⟨.tooDeep limit, some number⟩
  else .ok
    { top := { node := body.top.groupNode number }
      below := body.top.withoutHeader :: body.below
      anchor := .opening }

def closeDefinition (node : Node) (rest : Text) (comment : Option Text) (number : Nat) :
    Except Fault Node :=
  if Text.braceBalance rest = 0 then
    .ok { node with trailer := Text.neat rest, closingComment := comment }
  else .error ⟨.unbalancedTrailer node.name, some number⟩

def readCode (limit : Int) (comment : Option Text) (number : Nat) (q : Quoting) (body : Body) :
    Text → Except Fault Progress
  | [] => .ok (.more (body.endLine comment number))
  | c :: rest =>
    let top := body.top
    if !q.exposes c then
      readCode limit comment number (q.next c) { body with top := top.take c } rest
    else if c = '}' ∧ top.brackets = 0 then
      match body.below with
      | [] =>
        (closeDefinition (top.close number).node rest comment number).map .closed
      | outer :: below =>
        let body := { top := outer.adopt (top.close number).node, below, anchor := .member }
        readCode limit comment number (q.next c) body rest
    else if c = '{' ∧ top.brackets = 0 ∧ top.structured ∧ Text.groupEnd? rest = none then
      match body.enterGroup limit number with
      | .error fault => .error fault
      | .ok body => readCode limit comment number (q.next c) body rest
    else if c = ',' ∧ top.brackets = 0 ∧ top.structured then
      readCode limit comment number (q.next c) (body.endMember number) rest
    else readCode limit comment number (q.next c) { body with top := top.takeCode c } rest

def readLine (body : Body) (limit : Int) (line : CodeLine) (number : Nat) :
    Except Fault Progress :=
  readCode limit line.comment number {} body.startLine line.code

/-- Reads a comment line, which waits if a member is being read. -/
def readComment (body : Body) (line : Text) (blockLine : Bool) (number : Nat) : Body :=
  let top := body.top
  let level := if top.structured then top.level else top.level + top.brackets
  let node := Node.ofComment line blockLine level number
  if top.structured && !Text.isBlankText top.text then
    { body with top := { top with waiting := top.waiting ++ [node] } }
  else { body with top := top.append [node] }

/-- Starts the body of a definition with the code behind its opening brace.  The comment of the
line, if there is such code, is about what the line ends with, else about the opening. -/
def start (node : Node) (limit : Int) (first : Text) : Except Fault Progress :=
  if limit ≤ 0 then .error ⟨.tooDeep limit, some node.line⟩
  else if Text.isBlankText first then .ok (.more { top := { node } })
  else
    let top : OpenGroup := { node := { node with openingComment := none } }
    Body.readCode limit node.openingComment node.line {} { top, anchor := .opening } first

end Body

end AsnLayout
