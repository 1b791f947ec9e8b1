import AsnLayout.Proofs.Pieces
import AsnLayout.Proofs.VisibleTree

/-!
# Layouts of visible lines

Every piece that is laid out from a tree that has been read takes one row.  Where no line of the
source leaves a block comment open, each row but the gaps is a line that is not blank.
-/

set_option autoImplicit false

namespace AsnLayout

open Layout

namespace Text

/-! ## Rows of code -/

theorem TakesLine.of_mark {t : Text} (single : '\n' ∉ t) {c : Char} (member : c ∈ t)
    (solid : isBlank c = false) : TakesLine t :=
  ⟨single, isBlankText_of_mem member solid⟩

theorem TakesLine.remarked {code : Text} (line : TakesLine code) {comment : Option Text}
    (noted : IsNoted comment) : TakesLine (remarked code comment) := by
  unfold Layout.remarked
  split
  · exact line
  · rename_i text
    split
    · exact line
    · refine ⟨?_, isBlankText_append_of_seen line.seen _⟩
      simp [line.single, (noted text rfl).single]

theorem TakesLine.withComma {code : Text} (line : TakesLine code) (comma : Bool) :
    TakesLine (withComma code comma) := by
  unfold Layout.withComma
  split
  · exact .of_mark (by simp [line.single]) (c := ',') (by simp) (by decide)
  · exact line

theorem takesLine_opener {header : Text} (single : '\n' ∉ header) : TakesLine (opener header) := by
  unfold opener
  split
  · exact .of_mark (by decide) (c := '{') (by simp) (by decide)
  · exact .of_mark (by simp [single]) (c := '{') (by simp) (by decide)

theorem takesLine_closer {trailer : Text} (single : '\n' ∉ trailer) (comma : Bool) :
    TakesLine (closer trailer comma) := by
  refine TakesLine.withComma ?_ comma
  split
  · exact .of_mark (by decide) (c := '}') (by simp) (by decide)
  · exact .of_mark (by simp [single]) (c := '}') (by simp) (by decide)

theorem takesLine_inlineGroup? {front t : Text} {group : InlineGroup} (single : '\n' ∉ front)
    (single' : '\n' ∉ t) (found : inlineGroup? front t = some group) :
    '\n' ∉ group.header ∧ (∀ part ∈ group.members, part.TakesLine) ∧ '\n' ∉ group.trailer := by
  obtain ⟨before, inside, after, rfl, -, -, header, members, trailer⟩ :=
    inlineGroup?_eq_some _ _ _ found
  simp only [List.mem_append, List.mem_cons, not_or] at single'
  obtain ⟨early, -, between, -, behind⟩ := single'
  rw [header, members, trailer]
  refine ⟨newline_not_mem_trim ?_, takesLine_members between, newline_not_mem_trim behind⟩
  simp [single, newline_not_mem_trim early]

end Text

/-! ## Pieces and items -/

/-- A piece that takes one row.  The row is indented and not blank, or it is a gap or a line of a
block comment, where these may stand in the layout. -/
def Piece.Visible (blocks : Bool) : Piece → Prop
  | line _ text => text.TakesLine
  | verbatim text => '\n' ∉ text ∧ blocks = true
  | gap => True

namespace Node

variable {blocks : Bool} {node : Node}

theorem Visible.blockLine (visible : node.Visible blocks) (code : node.kind ≠ .comment) :
    node.blockLine = false := by
  by_contra inBlock
  exact code (visible.outside (by simpa using inBlock)).1

theorem Visible.takesLine (visible : node.Visible blocks) (code : node.kind ≠ .comment)
    (single : node.spansLines = false) : node.content.TakesLine :=
  ⟨visible.content, visible.seen (visible.blockLine code) single⟩

theorem spansLines_of_kind (other : node.kind ≠ .field) : node.spansLines = false := by
  simp [spansLines, isField, other]

theorem Shaped.spansLines_child (shaped : node.Shaped) (below : node.kind ≠ .root)
    (plain : node.isStructured = false) : ∀ child ∈ node.children, child.spansLines = false := by
  intro child member
  obtain ⟨-, spans⟩ := (shaped.parent (List.ne_nil_of_mem member)).resolve_left below
  refine spansLines_of_kind fun field => ?_
  rcases (shaped.lines spans plain child member).kind with kind | kind <;>
    simp [field] at kind

theorem Visible.commentPiece (visible : node.Visible blocks) (single : node.spansLines = false)
    (level : Int) : (commentPiece node level).Visible blocks := by
  unfold Layout.commentPiece
  split
  · rename_i inBlock
    exact ⟨visible.content, (visible.outside inBlock).2⟩
  · rename_i noLine
    exact ⟨visible.content, visible.seen (by simpa using noLine) single⟩

end Node

namespace Item

inductive Visible (blocks : Bool) : Item → Prop where
  | member {text : Text} {comment : Option Text} (line : text.TakesLine)
      (noted : IsNoted comment) : Visible blocks (.member text comment)
  | group {node : Node} (all : node.Everywhere (Node.Visible blocks))
      (shaped : node.Everywhere Node.Shaped) (below : node.kind ≠ .root) : Visible blocks (.group node)
  | remark {node : Node} (visible : node.Visible blocks) (single : node.spansLines = false) :
      Visible blocks (.remark node)
  | plain {text : Text} (line : text.TakesLine) : Visible blocks (.plain text)

variable {blocks : Bool}

theorem visible_ofSegments {texts : List Text} {comment : Option Text}
    (all : ∀ text ∈ texts, text.TakesLine) (noted : IsNoted comment) :
    ∀ item ∈ ofSegments comment texts, item.Visible blocks := by
  intro item there
  obtain ⟨text, inside, rfl | rfl⟩ := exists_of_mem_ofSegments there
  · exact .member (all text inside) noted
  · exact .member (all text inside) isNoted_none

theorem visible_ofChild {node : Node} (all : node.Everywhere (Node.Visible blocks))
    (shaped : node.Everywhere Node.Shaped) : ∀ item ∈ ofChild node, item.Visible blocks := by
  have here := all.here
  unfold ofChild
  split
  · rename_i spans
    refine List.forall_mem_singleton.mpr (.group all shaped fun root => ?_)
    simp [Node.spansLines, Node.isField, root] at spans
  rename_i single
  have line := fun code => here.takesLine code (by simpa using single)
  split
  · rename_i isField
    have code : node.kind ≠ .comment := by
      intro comment
      simp [Node.isField, comment] at isField
    split
    · exact List.forall_mem_singleton.mpr (.member (line code) here.opening)
    · exact visible_ofSegments (Text.takesLine_members here.content) here.opening
  split
  · exact List.forall_mem_singleton.mpr (.remark here (by simpa using single))
  · rename_i code
    exact List.forall_mem_singleton.mpr (.plain (line code))

theorem visible_ofChildren {node : Node} (all : node.Everywhere (Node.Visible blocks))
    (shaped : node.Everywhere Node.Shaped) :
    ∀ item ∈ node.children.flatMap ofChild, item.Visible blocks := by
  intro item member
  obtain ⟨child, isChild, here⟩ := List.mem_flatMap.mp member
  exact visible_ofChild (all.child child isChild) (shaped.child child isChild) item here

end Item

namespace Layout

variable {options : Options} {blocks : Bool} {node : Node} {pieces : List Piece}

theorem visible_keptLines (all : node.Everywhere (Node.Visible blocks)) (shaped : node.Shaped)
    (below : node.kind ≠ .root) (plain : node.isStructured = false) (level : Int) :
    ∀ piece ∈ keptLines node level, piece.Visible blocks := by
  intro piece member
  obtain ⟨child, isChild, rfl⟩ := List.mem_map.mp member
  have here := (all.child child isChild).here
  have single := shaped.spansLines_child below plain child isChild
  simp only
  split
  · exact here.commentPiece single _
  · rename_i code
    exact here.takesLine code single

theorem makes_visible : Makes (Item.Visible blocks) (Piece.Visible blocks) where
  remark level good := by
    cases good with
    | remark visible single => exact visible.commentPiece single level
  plain level good := by
    cases good with
    | plain line => exact line
  member level comma good := by
    cases good with
    | member line noted => exact (line.withComma comma).remarked noted
  expanded level comma good found := by
    cases good with
    | member line noted =>
      obtain ⟨header, members, trailer⟩ :=
        Text.takesLine_inlineGroup? (by simp) line.single found
      exact ⟨Text.takesLine_opener header, fun part member => .member (members part member) isNoted_none,
        (Text.takesLine_closer trailer comma).remarked noted⟩
  group level comma good := by
    cases good with
    | group all =>
      have here := all.here
      exact ⟨(Text.takesLine_opener here.header).remarked here.opening,
        (Text.takesLine_closer here.trailer comma).remarked here.closing⟩
  children good structured := by
    cases good with
    | group all shaped => exact Item.visible_ofChildren all shaped
  kept good plain level := by
    cases good with
    | group all shaped below => exact visible_keptLines all shaped.here below plain level

/-! ## Definitions -/

theorem visible_layPlainDefinition (visible : node.Visible blocks) (name : '\n' ∉ node.name)
    (laid : layPlainDefinition options node = .ok pieces) : ∀ piece ∈ pieces, piece.Visible blocks := by
  have front : Text.TakesLine (assignment node ++ ' ' :: node.header.getD []) :=
    .of_mark (by simp [assignment, name, visible.header]) (c := ':') (by simp [assignment]) (by decide)
  refine makes_visible.layPlainDefinition (show Piece.Visible blocks .gap from trivial)
    (front.remarked visible.opening) (fun group found => ?_) laid
  obtain ⟨header, members, trailer⟩ :=
    Text.takesLine_inlineGroup? (by simp [assignment, name]) visible.header found
  exact ⟨Text.takesLine_opener header, fun part member => .member (members part member) isNoted_none,
    (Text.takesLine_closer trailer false).remarked visible.opening⟩

theorem visible_layGroupDefinition (all : node.Everywhere (Node.Visible blocks))
    (shaped : node.Everywhere Node.Shaped) (kind : node.kind = .typeDefinition)
    (laid : layGroupDefinition options node = .ok pieces) : ∀ piece ∈ pieces, piece.Visible blocks := by
  have here := all.here
  have front : '\n' ∉ definitionFront node := by
    unfold definitionFront
    split <;> simp [assignment, here.name kind, here.header]
  exact makes_visible.layGroupDefinition (show Piece.Visible blocks .gap from trivial)
    ((Text.takesLine_opener front).remarked here.opening)
    (fun part member => .member (here.members part member) isNoted_none)
    (fun _ => Item.visible_ofChildren all shaped)
    (fun plain => visible_keptLines all shaped.here (by simp [kind]) plain _)
    ((Text.takesLine_closer here.trailer false).remarked here.closing) laid

/-! ## Nodes -/

structure IsShown (blocks : Bool) (node : Node) : Prop where
  item : node.isItem = true
  visible : Reader.IsVisibleItem blocks node
  shaped : node.Everywhere Node.Shaped

theorem visible_layNode (shown : IsShown blocks node) (laid : layNode options node = .ok pieces) :
    ∀ piece ∈ pieces, piece.Visible blocks := by
  obtain ⟨item, visible, shaped⟩ := shown
  rcases visible with all | ⟨kind, empty⟩
  · have here := all.here
    have single : node.spansLines = false := by
      refine Node.spansLines_of_kind fun field => ?_
      simp [Node.isItem, field] at item
    have line := fun code => here.takesLine code single
    have opening : node.kind ≠ .comment → ∀ (ends : Bool) (piece : Piece),
        piece ∈ Piece.line node.level node.content :: (if ends then [.gap] else []) →
          piece.Visible blocks := by
      intro code ends
      cases ends <;> simp [Piece.Visible, line code]
    unfold layNode at laid
    split at laid
    · rename_i kind
      cases laid
      exact opening (by simp [kind]) _
    · rename_i kind
      cases laid
      exact opening (by simp [kind]) _
    · rename_i kind
      cases laid
      exact List.forall_mem_cons.mpr
        ⟨trivial, List.forall_mem_singleton.mpr (line (by simp [kind]))⟩
    · cases laid
      exact List.forall_mem_singleton.mpr (here.commentPiece single _)
    · rename_i defines
      split at laid
      · exact visible_layPlainDefinition here (here.name defines) laid
      · exact visible_layGroupDefinition all shaped defines laid
    · cases laid
      split
      · exact List.forall_mem_singleton.mpr trivial
      · exact List.forall_mem_singleton.mpr (line ‹_›)
  · -- A blank line between two items is a gap.
    simp only [layNode, kind, empty, if_true] at laid
    cases laid
    exact List.forall_mem_singleton.mpr trivial

theorem visible_layNodes {nodes : List Node} (shown : ∀ node ∈ nodes, IsShown blocks node)
    (laid : layNodes options nodes = .ok pieces) : ∀ piece ∈ pieces, piece.Visible blocks :=
  forall_layNodes (fun _ _ => visible_layNode) shown laid

end Layout

/-- Every item of a tree that is read may be laid out on visible pieces. -/
theorem isShown_ofText {text : Text} {options : Options} {root : Node} (blocks : Bool)
    (read : Node.ofText text options = .ok root)
    (outside : blocks = false → ∀ line ∈ Text.lines text, Text.leavesBlockOpen line = false) :
    ∀ node ∈ root.children, Layout.IsShown blocks node := by
  obtain ⟨nodes, after, run, rfl⟩ := (Reader.ofText_eq_ok text options root).mp read
  obtain ⟨-, all⟩ := Reader.levelled_itemsRun run rfl
  have visible := visible_ofText read outside
  exact fun node member => ⟨(all node member).1, visible node member, (all node member).2⟩

/-- The layout of every tree that is read has visible pieces, block comments apart. -/
theorem visible_layNodes_ofText {text : Text} {options settings : Options} {root : Node}
    {pieces : List Piece} (read : Node.ofText text options = .ok root)
    (laid : Layout.layNodes settings root.children = .ok pieces) :
    ∀ piece ∈ pieces, piece.Visible true :=
  Layout.visible_layNodes (isShown_ofText true read fun blocks => Bool.noConfusion blocks) laid

end AsnLayout
