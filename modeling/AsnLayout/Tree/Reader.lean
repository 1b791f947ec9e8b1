import AsnLayout.Line
import AsnLayout.Options
import AsnLayout.Tree.Body

/-!
# Reading a schema

A schema is read item by item: a comment, a blank line, the header, the beginning or the end of a
module, a type definition with all of its lines, or any other line.  The reader counts the lines it
has read, so that it stops at a fixed limit, and its state stays as it is when an item has a fault.
-/

set_option autoImplicit false

namespace AsnLayout

structure Limits where
  lines : Int
  depth : Int
  deriving DecidableEq, Repr

namespace Limits

def ofOptions (options : Options) (lineCount : Nat) : Limits where
  lines := options.iterationFactor * (lineCount + 1)
  depth := options.maxDepth

end Limits

structure Reader where
  level : Nat := 0
  linesRead : Nat := 0
  inBlock : Bool := false
  /-- Comments read between an assignment sign and its type, to be placed before the definition. -/
  setAside : List Node := []
  deriving Repr

/-- A step of a reader.  The state is kept also where a fault ends the step. -/
abbrev Reading := ExceptT Fault (StateM Reader)

namespace Reader

/-! ## Single lines -/

def countLine (limits : Limits) (number : Nat) : Reading Unit := do
  modify fun reader => { reader with linesRead := reader.linesRead + 1 }
  if limits.lines < (← get).linesRead then throw ⟨.tooManyLines limits.lines, some number⟩

def pass (reader : Reader) (line : Text) : Reader :=
  { reader with inBlock := LineKind.blockAfter reader.inBlock line }

def putAside (reader : Reader) (line : Text) (number : Nat) : Reader :=
  let comment := Node.ofComment line reader.inBlock reader.level number
  { reader with setAside := reader.setAside ++ [comment] }

def itemNode (reader : Reader) (kind : NodeKind) (line : Text) (number : Nat) : Node :=
  { kind, content := Text.neatLine (Text.trim line), level := reader.level, line := number }

/-! ## Type definitions -/

/-- Reads the next line of code behind an assignment sign, and tells how many lines were read.
Blank lines are skipped and comments put aside. -/
def readNextCode (limits : Limits) (definition : Nat) (number : Nat) :
    List Text → Reading (CodeLine × Nat)
  | [] => throw ⟨.missingRightSide, some definition⟩
  | line :: rest => do
    let inBlock := (← get).inBlock
    if inBlock || Text.isLineComment line || Text.startsBlock line then
      countLine limits number
      modify fun reader => (reader.putAside line number).pass line
      let (code, count) ← readNextCode limits definition (number + 1) rest
      return (code, count + 1)
    else if Text.isBlankText line then
      countLine limits number
      let (code, count) ← readNextCode limits definition (number + 1) rest
      return (code, count + 1)
    else if Text.contains line Text.assignmentSign then
      throw ⟨.missingRightSide, some definition⟩
    else
      countLine limits number
      return (Text.codeLine (Text.trim line), 1)

def bracesNext : List Text → Bool
  | [] => false
  | line :: rest =>
    if Text.isBlankText line then bracesNext rest else Text.startsWith (Text.trim line) ['{']

/-- The type of a definition, as far as it stands on the lines up to its opening brace. -/
structure TypeText where
  code : Text
  comment : Option Text
  /-- How many lines beyond the first the type took. -/
  count : Nat := 0
  deriving Repr

def continueType (limits : Limits) (definition : Nat) (type : TypeText) (rest : List Text) :
    Reading TypeText := do
  let (line, count) ←
    readNextCode limits definition (definition + 1 + type.count) (rest.drop type.count)
  return {
    code := if type.code = [] then line.code else type.code ++ ' ' :: line.code
    comment := bothComments type.comment line.comment
    count := type.count + count }

def hasBrace (text : Text) : Bool := (Text.findExposed? text (· = '{')).isSome

/-- Reads the type of a definition.  It stands behind the assignment sign or on the next line of
code, and its opening brace may stand on the line behind that. -/
def readType (limits : Limits) (definition : Nat) (type : TypeText) (rest : List Text) :
    Reading TypeText := do
  let type ← if type.code = [] then continueType limits definition type rest else pure type
  if !hasBrace type.code && bracesNext (rest.drop type.count) then
    continueType limits definition type rest
  else return type

inductive TypeShape where
  | plain
  | opened (header first : Text)
  /-- The group is structured and closed: its header, its inside, and the code behind it. -/
  | inline (header inside trailer : Text)
  /-- A second group is left open. -/
  | unbalanced
  deriving Repr

def shapeOf (code : Text) : TypeShape :=
  match Text.findExposed? code (· = '{') with
  | none => .plain
  | some brace =>
    let header := Text.neat (code.take brace)
    let inside := code.drop (brace + 1)
    match Text.groupEnd? inside with
    | none => .opened header inside
    | some close =>
      if 0 < Text.braceBalance code then .unbalanced
      else if Text.braceBalance code < 0 || !(GroupKind.ofHeader header).isStructured then .plain
      else .inline header (inside.take close) (inside.drop (close + 1))

def readBody (limits : Limits) (definition : Node) (body : Body) (number : Nat) :
    List Text → Reading (Node × Nat)
  | [] => throw ⟨.unmatchedBrace definition.name, some definition.line⟩
  | line :: rest => do
    countLine limits number
    let inBlock := (← get).inBlock
    modify (·.pass line)
    match LineKind.ofLine inBlock line with
    | .comment =>
      let body := body.readComment line inBlock number
      let (node, count) ← readBody limits definition body (number + 1) rest
      return (node, count + 1)
    | .moduleHeader | .blockEnd | .typeDefinition =>
      throw ⟨.unterminated definition.name definition.line, some number⟩
    | _ =>
      if Text.isBlankText line then
        let (node, count) ← readBody limits definition body (number + 1) rest
        return (node, count + 1)
      else
        match ← body.readLine limits.depth (Text.codeLine (Text.trim line)) number with
        | .closed node => return (node, 1)
        | .more body =>
          let (node, count) ← readBody limits definition body (number + 1) rest
          return (node, count + 1)

def definitionSides (line : Text) : Text × Text :=
  let code := (Text.codeLine (Text.trim line)).code
  (Text.cutAt? Text.assignmentSign code).getD (code, [])

def definitionName (line : Text) : Text := Text.memberForm (definitionSides line).1

/-- The type of a definition as far as it stands on the line of its name. -/
def firstType (line : Text) : TypeText where
  code := Text.trim (definitionSides line).2
  comment := (Text.codeLine (Text.trim line)).comment

def definitionNode (reader : Reader) (number : Nat) (line : Text) (type : TypeText) : Node :=
  let name := definitionName line
  { kind := .typeDefinition
    name
    content := beside (name ++ " ::= ".toList ++ Text.neat type.code) type.comment
    level := reader.level
    line := number }

def plainNode (node : Node) (type : TypeText) : Node :=
  { node with
    groupKind := some .primitive
    oneLine := some true
    header := some (Text.neat type.code)
    openingComment := type.comment }

def openedNode (node : Node) (type : TypeText) (header : Text) : Node :=
  { node with
    groupKind := some (GroupKind.ofHeader header)
    oneLine := some false
    header := some header
    openingComment := type.comment }

def inlineNode (node : Node) (type : TypeText) (header inside trailer : Text) : Node :=
  { node with
    groupKind := some (GroupKind.ofHeader header)
    oneLine := some true
    inlineMembers := some (Text.members inside)
    header := some header
    trailer := Text.neat trailer
    closingComment := type.comment }

def readGroup (limits : Limits) (number : Nat) (rest : List Text) (node : Node)
    (type : TypeText) : Reading (Node × Nat) :=
  match shapeOf type.code with
  | .plain => return (plainNode node type, type.count)
  | .opened header first => do
    match ← Body.start (openedNode node type header) limits.depth first with
    | .closed node => return (node, type.count)
    | .more body =>
      let (node, count) ← readBody limits (openedNode node type header) body
        (number + 1 + type.count) (rest.drop type.count)
      return (node, type.count + count)
  | .inline header inside trailer =>
    return (inlineNode node type header inside trailer, type.count)
  | .unbalanced => throw ⟨.unbalancedType node.name, some number⟩

def readDefinition (limits : Limits) (number : Nat) (line : Text) (rest : List Text) :
    Reading (Node × Nat) :=
  if definitionName line = [] then throw ⟨.unnamedDefinition, some number⟩
  else do
    let type ← readType limits number (firstType line) rest
    let node := definitionNode (← get) number line type
    readGroup limits number rest node type

/-! ## Items -/

def lineItem (reader : Reader) (number : Nat) (line : Text) : Node × Reader :=
  let later := reader.pass line
  match LineKind.ofLine reader.inBlock line with
  | .comment => (Node.ofComment line reader.inBlock reader.level number, later)
  | .moduleHeader =>
    let node := { reader.itemNode .moduleHeader line number with name := Text.firstWord line }
    if Text.endsWith (Text.codeLine (Text.trim line)).code Text.beginWord then
      (node, { later with level := later.level + 1 })
    else (node, later)
  | .blockBegin =>
    (reader.itemNode .blockBegin line number, { later with level := later.level + 1 })
  | .blockEnd =>
    let later := { later with level := later.level - 1 }
    (later.itemNode .blockEnd line number, later)
  | _ => (reader.itemNode .other line number, later)

/-- Reads the item that starts on a line, and tells how many lines beyond it were read. -/
def readItem (limits : Limits) (number : Nat) (line : Text) (rest : List Text) :
    Reading (Node × Nat) := do
  countLine limits number
  let reader ← get
  if LineKind.ofLine reader.inBlock line = .typeDefinition then
    set (reader.pass line)
    readDefinition limits number line rest
  else
    let (node, later) := reader.lineItem number line
    set later
    return (node, 0)

/-- Reads the item that starts at a position among the lines, and tells the position behind it.
There is none where the position is behind the last line, though the step still counts. -/
def readAt (limits : Limits) (lines : List Text) (index : Nat) : Reading (Option (Node × Nat)) :=
  match lines.drop index with
  | [] => do
    countLine limits (index + 1)
    return none
  | line :: rest => do
    let (node, count) ← readItem limits (index + 1) line rest
    return some (node, index + 1 + count)

def takeSetAside : Reading (List Node) := do
  let setAside := (← get).setAside
  modify fun reader => { reader with setAside := [] }
  return setAside

/-- Reads all items.  The first `skip` lines belong to the item before. -/
def readItems (limits : Limits) (number skip : Nat) : List Text → Reading (List Node)
  | [] => return []
  | line :: rest =>
    match skip with
    | skip + 1 => readItems limits (number + 1) skip rest
    | 0 => do
      let (node, count) ← readItem limits number line rest
      let setAside ← takeSetAside
      let later ← readItems limits (number + 1) count rest
      return setAside ++ node :: later

def readAll (limits : Limits) (lines : List Text) : Reading Node := do
  let children ← readItems limits 1 0 lines
  return { kind := .root, name := "root".toList, children }

end Reader

namespace Node

def ofText (text : Text) (options : Options := {}) : Except Fault Node :=
  let lines := Text.lines text
  ((Reader.readAll (Limits.ofOptions options lines.length) lines).run.run {}).1

end Node

end AsnLayout
