import AsnLayout.Proofs.Pieces
import AsnLayout.Proofs.Realignment
import AsnLayout.Proofs.UnfencedTree

/-!
# Layouts without fences

No row that is laid out from a tree without fences closes a fence, nor does a line that is
re-indented.
-/

set_option autoImplicit false

namespace AsnLayout

open Layout

namespace Text

/-! ## Rows of code -/

theorem Inner.remarked {code : Text} (inner : Inner code) {comment : Option Text}
    (noted : IsNoted comment) : Inner (remarked code comment) := by
  unfold Layout.remarked
  split
  · exact inner
  · rename_i text
    split
    · exact inner
    · rw [← List.singleton_append, ← List.append_assoc]
      exact (noted text rfl).behind (by simp [inner.single])

theorem Inner.withComma {code : Text} (inner : Inner code) (comma : Bool) :
    Inner (withComma code comma) := by
  unfold Layout.withComma
  split
  · exact inner_of_mem (by simp [inner.single]) (c := ',') (by simp) (by decide) (by decide)
  · exact inner

theorem inner_opener {header : Text} (single : '\n' ∉ header) : Inner (opener header) := by
  unfold opener
  split
  · exact ⟨by decide, by decide⟩
  · exact inner_of_mem (by simp [single]) (c := '{') (by simp) (by decide) (by decide)

theorem inner_closer {trailer : Text} (single : '\n' ∉ trailer) (comma : Bool) :
    Inner (closer trailer comma) := by
  refine Inner.withComma ?_ comma
  split
  · exact ⟨by decide, by decide⟩
  · exact inner_of_mem (by simp [single]) (c := '}') (by simp) (by decide) (by decide)

theorem unfenced_inlineGroup? {front t : Text} {group : InlineGroup} (single : '\n' ∉ front)
    (unfenced : UnfencedBehind t) (found : inlineGroup? front t = some group) :
    '\n' ∉ group.header ∧ (∀ part ∈ group.members, Unfenced part) ∧ '\n' ∉ group.trailer := by
  obtain ⟨before, inside, after, rfl, -, -, header, members, trailer⟩ :=
    inlineGroup?_eq_some _ _ _ found
  obtain ⟨early, late⟩ := unfenced.cut (by decide)
  obtain ⟨between, behind⟩ := (unfenced_cut (by decide)).mp late
  rw [header, members, trailer]
  refine ⟨newline_not_mem_trim ?_, between.members, newline_not_mem_trim behind.single⟩
  simp [single, newline_not_mem_trim early.single]

end Text

/-! ## Items -/

namespace Piece

def Inner : Piece → Prop
  | line _ text => Text.Inner text
  | verbatim text => Text.Inner text
  | gap => True

theorem Inner.row {piece : Piece} (inner : piece.Inner) (width : Int) :
    Text.Inner (piece.row width) := by
  cases piece with
  | line level text =>
    exact Text.Inner.of_trim inner (newline_not_mem_row_line inner.single width level)
      (trim_row_line width level text)
  | verbatim text => exact inner
  | gap => exact ⟨List.not_mem_nil, rfl⟩

theorem inner_commentPiece {node : Node} (inner : Text.Inner node.content) (level : Int) :
    (commentPiece node level).Inner := by
  unfold commentPiece
  split <;> exact inner

end Piece

namespace Item

inductive Unfenced : Item → Prop where
  | member {text : Text} {comment : Option Text} (unfenced : Text.Unfenced text)
      (noted : IsNoted comment) : Unfenced (.member text comment)
  | group {node : Node} (all : node.Everywhere Node.Unfenced) : Unfenced (.group node)
  | remark {node : Node} (inner : Text.Inner node.content) : Unfenced (.remark node)
  | plain {text : Text} (inner : Text.Inner text) : Unfenced (.plain text)

theorem unfenced_ofSegments {texts : List Text} {comment : Option Text}
    (all : ∀ text ∈ texts, Text.Unfenced text) (noted : IsNoted comment) :
    ∀ item ∈ ofSegments comment texts, item.Unfenced := by
  intro item there
  obtain ⟨text, inside, rfl | rfl⟩ := exists_of_mem_ofSegments there
  · exact .member (all text inside) noted
  · exact .member (all text inside) isNoted_none

theorem unfenced_ofChild {node : Node} (all : node.Everywhere Node.Unfenced) :
    ∀ item ∈ ofChild node, item.Unfenced := by
  unfold ofChild
  split
  · exact List.forall_mem_singleton.mpr (.group all)
  split
  · rename_i isField
    have text := all.here.member isField
    split
    · exact List.forall_mem_singleton.mpr (.member text all.here.opening)
    · exact unfenced_ofSegments text.members all.here.opening
  split
  · exact List.forall_mem_singleton.mpr (.remark all.here.content)
  · exact List.forall_mem_singleton.mpr (.plain all.here.content)

theorem unfenced_ofChildren {node : Node} (all : node.Everywhere Node.Unfenced) :
    ∀ item ∈ node.children.flatMap ofChild, item.Unfenced := by
  intro item member
  obtain ⟨child, isChild, here⟩ := List.mem_flatMap.mp member
  exact unfenced_ofChild (all.child child isChild) item here

end Item

namespace Layout

variable {options : Options}

theorem inner_keptLines {node : Node} (all : node.Everywhere Node.Unfenced) (level : Int) :
    ∀ piece ∈ keptLines node level, piece.Inner := by
  intro piece member
  obtain ⟨child, isChild, rfl⟩ := List.mem_map.mp member
  have content := (all.child child isChild).here.content
  simp only
  split
  · exact Piece.inner_commentPiece content _
  · exact content

/-- Items of a tree without fences are laid out on rows that stay between fences. -/
theorem makes_inner : Makes Item.Unfenced Piece.Inner where
  remark level good := by
    cases good with
    | remark inner => exact Piece.inner_commentPiece inner level
  plain level good := by
    cases good with
    | plain inner => exact inner
  member level comma good := by
    cases good with
    | member unfenced noted => exact (unfenced.inner.withComma comma).remarked noted
  expanded level comma good found := by
    cases good with
    | member unfenced noted =>
      obtain ⟨header, members, trailer⟩ :=
        Text.unfenced_inlineGroup? (by simp) unfenced.behind found
      exact ⟨Text.inner_opener header, fun part member => .member (members part member) isNoted_none,
        (Text.inner_closer trailer comma).remarked noted⟩
  group level comma good := by
    cases good with
    | group all =>
      have here := all.here
      exact ⟨(Text.inner_opener here.header.single).remarked here.opening,
        (Text.inner_closer here.trailer comma).remarked here.closing⟩
  children good structured := by
    cases good with
    | group all => exact Item.unfenced_ofChildren all
  kept good plain level := by
    cases good with
    | group all => exact inner_keptLines all level

/-! ## Definitions -/

/-- What follows an assignment sign is no fence. -/
theorem inner_assignment {node : Node} {header : Text} (name : '\n' ∉ node.name)
    (single : '\n' ∉ header) : Text.Inner (assignment node ++ header) := by
  refine Text.inner_of_mem ?_ (c := ':') (by simp [assignment]) (by decide) (by decide)
  simp [assignment, name, single]

theorem inner_layPlainDefinition {node : Node} {pieces : List Piece} (unfenced : node.Unfenced)
    (name : '\n' ∉ node.name) (laid : layPlainDefinition options node = .ok pieces) :
    ∀ piece ∈ pieces, piece.Inner := by
  have header := unfenced.header
  have line := @inner_assignment node (' ' :: node.header.getD []) name (by simp [header.single])
  refine makes_inner.layPlainDefinition (show Piece.Inner .gap from trivial)
    (line.remarked unfenced.opening) (fun group found => ?_) laid
  obtain ⟨front, members, trailer⟩ :=
    Text.unfenced_inlineGroup? (by simp [assignment, name]) header found
  exact ⟨Text.inner_opener front, fun part member => .member (members part member) isNoted_none,
    (Text.inner_closer trailer false).remarked unfenced.opening⟩

theorem newline_not_mem_definitionFront {node : Node} (unfenced : node.Unfenced)
    (name : '\n' ∉ node.name) : '\n' ∉ definitionFront node := by
  have header := unfenced.header.single
  unfold definitionFront
  split <;> simp [assignment, name, header]

theorem inner_layGroupDefinition {node : Node} {pieces : List Piece}
    (all : node.Everywhere Node.Unfenced) (name : '\n' ∉ node.name)
    (laid : layGroupDefinition options node = .ok pieces) : ∀ piece ∈ pieces, piece.Inner := by
  have here := all.here
  exact makes_inner.layGroupDefinition (show Piece.Inner .gap from trivial)
    ((Text.inner_opener (newline_not_mem_definitionFront here name)).remarked here.opening)
    (fun part member => .member (here.members part member) isNoted_none)
    (fun _ => Item.unfenced_ofChildren all) (fun _ => inner_keptLines all _)
    ((Text.inner_closer here.trailer false).remarked here.closing) laid

/-! ## Nodes -/

theorem inner_layNode {node : Node} {pieces : List Piece} (all : node.Everywhere Node.Unfenced)
    (laid : layNode options node = .ok pieces) : ∀ piece ∈ pieces, piece.Inner := by
  have content := all.here.content
  have opening : ∀ (ends : Bool) (piece : Piece),
      piece ∈ Piece.line node.level node.content :: (if ends then [.gap] else []) →
        piece.Inner := by
    intro ends
    cases ends <;> simp [Piece.Inner, content]
  unfold layNode at laid
  split at laid
  · cases laid
    exact opening _
  · cases laid
    exact opening _
  · cases laid
    exact List.forall_mem_cons.mpr ⟨trivial, List.forall_mem_singleton.mpr content⟩
  · cases laid
    exact List.forall_mem_singleton.mpr (Piece.inner_commentPiece content _)
  · rename_i defines
    have name := all.here.name defines
    split at laid
    · exact inner_layPlainDefinition all.here name laid
    · exact inner_layGroupDefinition all name laid
  · cases laid
    split
    · exact List.forall_mem_singleton.mpr trivial
    · exact List.forall_mem_singleton.mpr content

theorem inner_layNodes {nodes : List Node} {pieces : List Piece}
    (all : ∀ node ∈ nodes, node.Everywhere Node.Unfenced)
    (laid : layNodes options nodes = .ok pieces) : ∀ piece ∈ pieces, piece.Inner :=
  forall_layNodes (fun _ _ => inner_layNode) all laid

end Layout

/-! ## Formatted texts -/

/-- The lines of a layout are its rows; the others are blank. -/
theorem Piece.goesOn_assemble {width : Int} {pieces : List Piece}
    (all : ∀ piece ∈ pieces, piece.Inner) :
    ∀ line ∈ Text.lines (assemble width pieces), Fence.closes line = false := by
  intro line member
  rw [Bool.eq_false_iff]
  intro closes
  have seen : Text.isBlankText line = false := by
    rw [← Text.isBlankText_trim, show Text.trim line = Fence.mark from of_decide_eq_true closes]
    decide
  have isSeen : line ∈ Text.seenLines (assemble width pieces) :=
    List.mem_filter.mpr ⟨member, by simp [seen]⟩
  rw [seenLines_assemble] at isSeen
  obtain ⟨piece, isPiece, inRow⟩ := List.mem_flatMap.mp isSeen
  have inner := (all piece isPiece).row width
  have same := List.mem_of_mem_filter inRow
  rw [Text.lines_of_not_mem inner.single, List.mem_singleton] at same
  rw [same, inner.goesOn] at closes
  cases closes

theorem Text.goesOn_realign {t : Text} {width : Int} (all : ∀ line ∈ lines t, Inner line) :
    ∀ line ∈ lines (realign t width), Fence.closes line = false := by
  intro line member
  rw [lines_realign] at member
  obtain ⟨depth, given, isGiven, rfl⟩ := Realign.exists_of_mem_lines member
  rw [Fence.closes, Realign.trim_line]
  exact (all given isGiven).goesOn

namespace Format

theorem goesOn_layout {source : Text} {options : Options}
    (free : Text.UnfencedLines false (Text.lines source)) :
    ∀ line ∈ Text.lines (layout source options).result, Fence.closes line = false := by
  cases laid : treeLayout source options with
  | ok out =>
    rw [(layout_of_ok laid).1]
    obtain ⟨root, read, laidTree⟩ := (bind_eq_ok ..).mp laid
    obtain ⟨pieces, laidNodes, done⟩ := (bind_eq_ok ..).mp laidTree
    cases done
    exact Piece.goesOn_assemble (Layout.inner_layNodes (unfenced_ofText read free) laidNodes)
  | error fault =>
    rw [(layout_of_error laid).1]
    exact Text.goesOn_realign free.inner

theorem goesOn_text {source : Text} (configuration : Configuration)
    (free : Text.UnfencedLines false (Text.lines (Text.unifyNewlines source))) :
    ∀ line ∈ Text.lines (text source configuration).result, Fence.closes line = false := by
  unfold text
  split
  · exact List.forall_mem_singleton.mpr rfl
  · have positive : 0 < (options configuration).result.indentWidth.toNat := by
      have := (options_positive configuration).1
      omega
    have lines := free.tabsToSpaces positive
    rw [← Text.lines_plainSource] at lines
    exact goesOn_layout lines

end Format

end AsnLayout
