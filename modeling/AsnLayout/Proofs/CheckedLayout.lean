import AsnLayout.Proofs.Characters
import AsnLayout.Proofs.CheckedReading
import AsnLayout.Proofs.Indentation

/-!
# Layouts with checked look-ups

The tree of a schema is laid out by looking up the brace at a position, the last of the members that
a text lists and the header of a definition.  None of these look-ups fails on a tree that was read
from a schema.  So formatting ends with the layout of the tree or, where the schema is at fault,
with its lines re-indented.
-/

set_option autoImplicit false

namespace AsnLayout

namespace Checked

open Layout

/-! ## Members -/

/-- The items of a member; its comment goes to the last of the members that its text lists. -/
def ofMember (node : Node) : Checked (List Item) :=
  let listed := Text.members node.content
  let segments := if listed = [] then [node.content] else listed
  match segments.getLast? with
  | none => .error (.lapse .member)
  | some last =>
    .ok (segments.dropLast.map (Item.member · none) ++ [Item.member last node.openingComment])

def itemsOf : List Node → Checked (List Item)
  | [] => .ok []
  | node :: later => do
    let items ← if node.isField && !node.spansLines then ofMember node else .ok (Item.ofChild node)
    return items ++ (← itemsOf later)

def inlineGroup? (front text : Text) : Checked (Option InlineGroup) :=
  match Text.findExposed? text (· = '{') with
  | none => .ok none
  | some brace => do
    match ← closerOf text brace with
    | none => return none
    | some close => return some {
        header := Text.trim (front ++ ' ' :: Text.trim (text.take brace))
        members := Text.members ((text.take close).drop (brace + 1))
        trailer := Text.trim (text.drop (close + 1)) }

/-- The group of a member that has to be laid out; it is looked for from its brace on. -/
def groupToExpand? (options : Options) (level : Int) (text line : Text) :
    Checked (Option InlineGroup) :=
  match Text.findExposed? text (· = '{') with
  | none => .ok none
  | some brace =>
    let front := Text.trimEnd (text.take brace)
    if (GroupKind.ofHeader front).isStructured || isTooLong options level line then
      inlineGroup? front (text.drop brace)
    else .ok none

/-! ## Bodies -/

def layItems (layItem : Bool → Item → Checked (List Piece)) : List Item → Checked (List Piece)
  | [] => .ok []
  | item :: later => do
    let pieces ← layItem (later.any Item.isMember) item
    let rest ← layItems layItem later
    return pieces ++ rest

def layItem (options : Options) (room : Nat) (level : Int) (comma : Bool) (item : Item) :
    Checked (List Piece) :=
  match item, room with
  | .remark node, _ => .ok [commentPiece node level]
  | .plain text, _ => .ok [.line level text]
  | .member _ _, 0 | .group _, 0 => .error (.fault ⟨.tooDeep options.maxDepth, none⟩)
  | .member text comment, room + 1 => do
    let line := remarked (withComma text comma) comment
    match ← groupToExpand? options level text line with
    | none => return [.line level line]
    | some group =>
      let items := group.members.map (Item.member · none)
      let body ← layItems (layItem options room (level + 1)) items
      let closing := remarked (closer group.trailer comma) comment
      return .line level (opener group.header) :: body ++ [.line level closing]
  | .group node, room + 1 => do
    let opening := remarked (opener (node.header.getD [])) node.openingComment
    let body ←
      if node.isStructured then
        itemsOf node.children >>= layItems (layItem options room (level + 1))
      else pure (keptLines node (level + 1))
    let closing := remarked (closer node.trailer comma) node.closingComment
    return .line level opening :: body ++ [.line level closing]

def layBody (options : Options) (level : Int) (items : List Item) : Checked (List Piece) :=
  layItems (layItem options options.maxDepth.toNat level) items

/-! ## Definitions -/

def headerOf (node : Node) : Checked Text :=
  match node.header with
  | none => .error (.lapse .header)
  | some header => .ok header

def layPlainDefinition (options : Options) (node : Node) : Checked (List Piece) := do
  let header ← headerOf node
  let line := remarked (assignment node ++ ' ' :: header) node.openingComment
  let group? ←
    if isTooLong options node.level line then inlineGroup? (assignment node) header else pure none
  match group? with
  | none => return [.line node.level line]
  | some group =>
    let body ← layBody options (node.level + 1) (group.members.map (Item.member · none))
    let closing := remarked (closer group.trailer false) node.openingComment
    return .line node.level (opener group.header) :: body ++ [.line node.level closing, .gap]

def layGroupDefinition (options : Options) (node : Node) : Checked (List Piece) := do
  let front :=
    match node.header with
    | none | some [] => assignment node
    | some header => assignment node ++ ' ' :: header
  let body ←
    if node.oneLine = some true then
      layBody options (node.level + 1) ((node.inlineMembers.getD []).map (Item.member · none))
    else if node.isStructured then
      itemsOf node.children >>= layBody options (node.level + 1)
    else pure (keptLines node (node.level + 1))
  let opening := remarked (opener front) node.openingComment
  let closing := remarked (closer node.trailer false) node.closingComment
  return .line node.level opening :: body ++ [.line node.level closing, .gap]

def layNode (options : Options) (node : Node) : Checked (List Piece) :=
  if node.kind = .typeDefinition then
    if node.oneLine = some true && !node.isStructured then layPlainDefinition options node
    else layGroupDefinition options node
  else ofResult (Layout.layNode options node)

def layNodes (options : Options) : List Node → Checked (List Piece)
  | [] => .ok []
  | node :: later => do
    let pieces ← layNode options node
    let rest ← layNodes options later
    return pieces ++ rest

def toText (root : Node) (options : Options) : Checked Text := do
  let pieces ← layNodes options root.children
  return Piece.assemble options.indentWidth pieces

/-! ## Look-ups that succeed -/

theorem ofSegments_eq (comment : Option Text) {segments : List Text} (filled : segments ≠ []) :
    Item.ofSegments comment segments =
      segments.dropLast.map (Item.member · none) ++
        [Item.member (segments.getLast filled) comment] := by
  induction segments with
  | nil => exact absurd rfl filled
  | cons segment later ih =>
    cases later with
    | nil => rfl
    | cons second others =>
      rw [Item.ofSegments, ih (by simp)]
      · rfl
      · simp

theorem ofMember_eq {node : Node} (isField : node.isField = true)
    (single : node.spansLines = false) : ofMember node = .ok (Item.ofChild node) := by
  simp only [ofMember, Item.ofChild, single, isField, Bool.false_eq_true, if_false, if_true]
  cases listed : Text.members node.content with
  | nil => rfl
  | cons segment later =>
    have filled : segment :: later ≠ [] := by simp
    simp only [if_neg filled, List.getLast?_eq_some_getLast filled]
    rw [ofSegments_eq node.openingComment filled]

theorem itemsOf_eq (nodes : List Node) : itemsOf nodes = .ok (nodes.flatMap Item.ofChild) := by
  induction nodes with
  | nil => rfl
  | cons node later ih =>
    rw [itemsOf, ih]
    split
    · rename_i member
      simp only [Bool.and_eq_true, Bool.not_eq_true'] at member
      rw [ofMember_eq member.1 member.2]
      rfl
    · rfl

theorem inlineGroup?_eq (front text : Text) :
    inlineGroup? front text = .ok (Layout.inlineGroup? front text) := by
  unfold inlineGroup? Layout.inlineGroup?
  cases found : Text.findExposed? text (· = '{') with
  | none => rfl
  | some brace =>
    simp only [closerOf_found found, ok_bind]
    cases Text.groupEnd? (text.drop (brace + 1)) with
    | none => rfl
    | some close =>
      simp only [Option.map_some, Text.drop_take_close, Text.drop_behind_close]
      rfl

theorem groupToExpand?_eq (options : Options) (level : Int) (text line : Text) :
    groupToExpand? options level text line =
      .ok (Layout.groupToExpand? options level text line) := by
  unfold groupToExpand? Layout.groupToExpand? Layout.inlineGroup?
  cases found : Text.findExposed? text (· = '{') with
  | none => rfl
  | some brace =>
    obtain ⟨front, c, back, rfl, rfl, isBrace⟩ := Text.findExposed?_eq_some text _ brace found
    rw [decide_eq_true_eq] at isBrace
    subst isBrace
    have behind : (front ++ '{' :: back).drop front.length = '{' :: back := List.drop_left
    have inside : (front ++ '{' :: back).drop (front.length + 1) = back := by simp
    have before : (front ++ '{' :: back).take front.length = front := List.take_left
    have header : Text.trim ([] ++ ' ' :: Text.trim front) = Text.trim front := by
      rw [List.nil_append, Text.trim_space_cons, Text.trim_trim]
    have header' : Text.trim (Text.trimEnd front ++ ' ' :: Text.trim []) = Text.trim front := by
      have blank : Text.isBlankText (' ' :: Text.trim []) = true := by decide
      rw [Text.trim_append_blank blank, Text.trim_trimEnd]
    have kind : GroupKind.ofHeader (Text.trimEnd front) = GroupKind.ofHeader (Text.trim front) := by
      have last : Text.lastWord (Text.trimEnd front) = Text.lastWord (Text.trim front) := by
        rw [Text.lastWord, ← Text.words_trim, Text.trim_trimEnd, Text.lastWord]
      rw [GroupKind.ofHeader, last, GroupKind.ofHeader]
    have first : Text.findExposed? ('{' :: back) (· = '{') = some 0 := rfl
    simp only [before, behind, inside, kind, inlineGroup?_eq, Layout.inlineGroup?, first,
      List.take_zero, header', List.drop_succ_cons, List.drop_zero]
    cases Text.groupEnd? back with
    | none => simp
    | some close =>
      simp only [header]
      split <;> rfl

/-! ## Layouts that agree -/

theorem layItems_eq {layItem : Bool → Item → Checked (List Piece)}
    {lays : Bool → Item → Except Fault (List Piece)}
    (same : ∀ comma item, layItem comma item = ofResult (lays comma item)) (items : List Item) :
    layItems layItem items = ofResult (Layout.layItems lays items) := by
  induction items with
  | nil => rfl
  | cons item later ih =>
    rw [layItems, Layout.layItems, same, ih]
    simp only [ofResult_bind]
    rfl

theorem layItem_eq (options : Options) (room : Nat) (level : Int) (comma : Bool) (item : Item) :
    layItem options room level comma item =
      ofResult (Layout.layItem options room level comma item) := by
  induction room generalizing level comma item with
  | zero => cases item <;> rfl
  | succ room ih =>
    have bodies := fun items => layItems_eq (fun comma item => ih (level + 1) comma item) items
    cases item with
    | remark node => rfl
    | plain text => rfl
    | member text comment =>
      rw [layItem, Layout.layItem]
      simp only [groupToExpand?_eq, ok_bind]
      cases Layout.groupToExpand? options level text (remarked (withComma text comma) comment) with
      | none => rfl
      | some group =>
        simp only [bodies, ofResult_bind]
        rfl
    | group node =>
      rw [layItem, Layout.layItem]
      simp only [itemsOf_eq, ok_bind, bodies]
      split
      · rw [ofResult_bind]
        rfl
      · rfl

theorem layBody_eq (options : Options) (level : Int) (items : List Item) :
    layBody options level items = ofResult (Layout.layBody options level items) :=
  layItems_eq (layItem_eq options options.maxDepth.toNat level) items

theorem layPlainDefinition_eq (options : Options) {node : Node} (headed : node.header.isSome) :
    layPlainDefinition options node = ofResult (Layout.layPlainDefinition options node) := by
  obtain ⟨header, found⟩ := Option.isSome_iff_exists.mp headed
  simp only [layPlainDefinition, Layout.layPlainDefinition, headerOf, found, ok_bind,
    inlineGroup?_eq, Option.getD_some]
  cases isTooLong options node.level
      (remarked (assignment node ++ ' ' :: header) node.openingComment) with
  | false => rfl
  | true =>
    simp only [if_true]
    cases Layout.inlineGroup? (assignment node) header with
    | none => rfl
    | some group =>
      simp only [layBody_eq, ofResult_bind]
      rfl

theorem layGroupDefinition_eq (options : Options) (node : Node) :
    layGroupDefinition options node = ofResult (Layout.layGroupDefinition options node) := by
  simp only [layGroupDefinition, Layout.layGroupDefinition, itemsOf_eq, ok_bind, layBody_eq]
  split
  · rw [ofResult_bind]
    rfl
  · split
    · rw [ofResult_bind]
      rfl
    · rfl

theorem layNode_eq (options : Options) {node : Node}
    (headed : node.kind = .typeDefinition → node.oneLine = some true →
      node.header.isSome = true) :
    layNode options node = ofResult (Layout.layNode options node) := by
  unfold layNode
  split
  · rename_i kind
    rw [Layout.layNode, kind]
    simp only
    split
    · rename_i plain
      simp only [Bool.and_eq_true, decide_eq_true_eq] at plain
      exact layPlainDefinition_eq options (headed kind plain.1)
    · exact layGroupDefinition_eq options node
  · rfl

theorem layNodes_eq (options : Options) {nodes : List Node}
    (headed : ∀ node ∈ nodes, node.kind = .typeDefinition → node.oneLine = some true →
      node.header.isSome = true) :
    layNodes options nodes = ofResult (Layout.layNodes options nodes) := by
  induction nodes with
  | nil => rfl
  | cons node later ih =>
    rw [layNodes, Layout.layNodes, layNode_eq options (headed node List.mem_cons_self),
      ih fun other member => headed other (List.mem_cons_of_mem _ member)]
    simp only [ofResult_bind]
    rfl

end Checked

/-! ## Headers -/

namespace Reader

def Headed (node : Node) : Prop :=
  node.kind = .typeDefinition → node.oneLine = some true → node.header.isSome = true

theorem headed_of_remarks {nodes : List Node} (remarks : inkTally.Remarks nodes) :
    ∀ node ∈ nodes, Headed node := by
  intro node member kind
  rw [(remarks node member).1] at kind
  cases kind

theorem headed_groupRun {limits : Limits} {number count : Nat} {rest : List Text}
    {node result : Node} {type : TypeText} {before after : Reader} (bare : node.children = [] ∧
      node.trailer = [] ∧ node.closingComment = none)
    (run : GroupRun limits number rest node type before result count after) : Headed result := by
  have moves : ∀ t, inkTally.Moves t := fun t m => mul_comm _ _
  -- A body that takes several lines keeps the head of its definition.
  have opened : ∀ header, result.head = (openedNode node type header).head → Headed result := by
    intro header same _ oneLine
    simp only [Node.head, Prod.mk.injEq] at same
    rw [same.2.2] at oneLine
    cases oneLine
  unfold GroupRun at run
  split at run
  · obtain ⟨rfl, -⟩ := run
    exact fun _ _ => rfl
  · rename_i header first shape
    obtain ⟨progress, started, later⟩ := run
    obtain ⟨-, sound⟩ := Tally.progress_start (openedNode node type header) _ _ progress bare
      (moves _) started
    cases progress with
    | closed closed =>
      obtain ⟨rfl, -⟩ := later
      exact opened header sound
    | more body =>
      obtain ⟨more, run, -⟩ := later
      exact opened header (Tally.text_bodyRun run (.inl moves) sound).2.1
  · obtain ⟨rfl, -⟩ := run
    exact fun _ _ => rfl
  · exact run.elim

theorem headed_itemsRun {limits : Limits} {before after : Reader} {number skip : Nat}
    {lines : List Text} {nodes : List Node}
    (run : ItemsRun limits before number skip lines nodes after)
    (noneAside : before.setAside = []) :
    ∀ node ∈ nodes, Headed node := by
  have moves : ∀ t, inkTally.Moves t := fun t m => mul_comm _ _
  induction run with
  | done => simp
  | skip later ih => exact ih noneAside
  | @item before between after number count line rest node nodes read later ih =>
    have none : inkTally.Remarks (before.counted.pass line).setAside := by
      have none : (before.counted.pass line).setAside = [] := noneAside
      rw [none]
      intro node member
      cases member
    obtain ⟨aside, headed⟩ : inkTally.Remarks between.setAside ∧ Headed node := by
      obtain ⟨-, read⟩ := (yields_readItem ..).mp read
      split at read
      · rename_i kind
        obtain ⟨-, aside, -⟩ := Tally.text_readDefinition read
          (Tally.contains_of_typeDefinition _ line kind) inkTally_cuttable
          (fun _ _ _ _ _ _ _ => trivial) (.inl moves) none (moves _)
        obtain ⟨-, type, reader, -, run⟩ := (yields_readDefinition ..).mp read
        exact ⟨aside, headed_groupRun ⟨rfl, rfl, rfl⟩ run⟩
      · obtain ⟨same, -⟩ := read
        obtain ⟨noDefinition, -, aside, -⟩ :=
          Tally.lineItem_kept inkTally before.counted number line
        rw [same] at noDefinition aside
        have aside : between.setAside = before.setAside := aside
        rw [aside]
        exact ⟨none, fun kind => absurd kind noDefinition⟩
    intro other member
    rcases List.mem_append.mp member with inAside | member
    · exact headed_of_remarks aside other inAside
    · rcases List.mem_cons.mp member with rfl | behind
      · exact headed
      · exact ih rfl other behind

end Reader

/-! ## Formatting -/

namespace Checked

/-- No look-up fails in the layout of a tree that was read from a schema. -/
theorem toText_eq {text : Text} {options options' : Options} {root : Node}
    (read : Node.ofText text options = .ok root) :
    toText root options' = ofResult (root.toText options') := by
  obtain ⟨nodes, after, run, rfl⟩ := (Reader.ofText_eq_ok ..).mp read
  rw [toText, Node.toText, layNodes_eq options' (Reader.headed_itemsRun run rfl), ofResult_bind]
  rfl

-- A tree of another origin may lack the header of a definition.
example : toText { kind := .root, children := [{ kind := .typeDefinition, oneLine := some true }] }
    {} = .error (.lapse .header) := rfl

end Checked

/-- No look-up fails: reading a schema and laying out its tree end with a result or with a fault of
the schema.  Formatting ends with the layout of the tree, or with the lines re-indented if there is
such a fault. -/
theorem layout_without_lapse (text : Text) (options : Options) :
    Checked.ofText text options = Checked.ofResult (Node.ofText text options) ∧
    (∀ root options', Checked.ofText text options = .ok root →
      Checked.toText root options' = Checked.ofResult (root.toText options')) ∧
    match Checked.ofText text options >>= (Checked.toText · options) with
    | .ok out => (Format.layout text options).result = out
    | .error (.fault fault) =>
      (Format.layout text options).result = Text.realign text options.indentWidth ∧
        Notice.realigned fault ∈ (Format.layout text options).notices
    | .error (.lapse _) => False := by
  have read := Checked.ofText_eq text options
  have lays : ∀ root options', Checked.ofText text options = .ok root →
      Checked.toText root options' = Checked.ofResult (root.toText options') := by
    intro root options' found
    rw [read] at found
    cases tree : Node.ofText text options with
    | error fault =>
      rw [tree] at found
      cases found
    | ok root' =>
      rw [tree] at found
      cases found
      exact Checked.toText_eq tree
  have both : (Checked.ofText text options >>= (Checked.toText · options)) =
      Checked.ofResult (Format.treeLayout text options) := by
    rw [Format.treeLayout, Checked.ofResult_bind, ← read]
    cases found : Checked.ofText text options with
    | error failure => rfl
    | ok root => exact lays root options found
  refine ⟨read, lays, ?_⟩
  rw [both]
  cases laid : Format.treeLayout text options with
  | ok out => exact (Format.layout_of_ok laid).1
  | error fault => exact Format.layout_of_error laid

end AsnLayout
