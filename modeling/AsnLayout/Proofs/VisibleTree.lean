import AsnLayout.Proofs.Forming
import AsnLayout.Proofs.VisibleBody
import AsnLayout.Proofs.WellFormed

/-!
# Trees of visible lines

The texts of every tree that is read take one line each.  Where no line of the source leaves a block
comment open, a node lays out a blank line only if it stands for a blank line between two items.
-/

set_option autoImplicit false

namespace AsnLayout

/-! ## Lines of a source -/

namespace Text

/-- Lines of a source.  Unless block comments may stand in it, none is open before or behind any of
the lines. -/
structure SourceRows (blocks inBlock : Bool) (lines : List Text) : Prop where
  single : ∀ line ∈ lines, '\n' ∉ line
  outside : blocks = false → inBlock = false ∧ ∀ line ∈ lines, leavesBlockOpen line = false

namespace SourceRows

variable {blocks inBlock : Bool} {line : Text} {lines : List Text}

theorem tail (source : SourceRows blocks inBlock (line :: lines)) :
    SourceRows blocks (LineKind.blockAfter inBlock line) lines := by
  refine ⟨(List.forall_mem_cons.mp source.single).2, fun noBlocks => ?_⟩
  obtain ⟨rfl, calm⟩ := source.outside noBlocks
  exact List.forall_mem_cons.mp calm

theorem head (source : SourceRows blocks inBlock (line :: lines)) : '\n' ∉ line :=
  source.single line (List.mem_cons_self ..)

theorem single_code (source : SourceRows blocks inBlock (line :: lines)) :
    '\n' ∉ (codeLine (trim line)).code :=
  fun newline => source.head (((code_isInfix _).trans (trim_isInfix line)).subset newline)

theorem seen_of_isRemark (source : SourceRows blocks inBlock (line :: lines))
    (remark : Reader.isRemark inBlock line = true) :
    inBlock = true ∧ blocks = true ∨ inBlock = false ∧ isBlankText line = false := by
  cases inBlock with
  | true =>
    cases blocks with
    | true => exact .inl ⟨rfl, rfl⟩
    | false => exact absurd (source.outside rfl).1 (by decide)
  | false => exact .inr ⟨rfl, (Text.seen_of_isRemark remark).resolve_left (by decide)⟩

end SourceRows

theorem sourceRows_of_text {blocks : Bool} {text : Text}
    (outside : blocks = false → ∀ line ∈ lines text, leavesBlockOpen line = false) :
    SourceRows blocks false (lines text) :=
  ⟨newline_not_mem_of_mem_lines text, fun noBlocks => ⟨rfl, outside noBlocks⟩⟩

end Text

theorem Node.Visible.seen_definition {blocks : Bool} {node : Node} (here : node.Visible blocks)
    (kind : node.kind = .typeDefinition) : Text.isBlankText node.content = false := by
  refine here.seen ?_ (by simp [Node.spansLines, Node.isField, kind])
  by_contra inBlock
  have comment := (here.outside (by simpa using inBlock)).1
  rw [kind] at comment
  cases comment

namespace Reader

variable {blocks inBlock : Bool} {line : Text} {lines : List Text} {type : TypeText} {node : Node}

/-! ## Definitions -/

structure TypeText.TakesLine (type : TypeText) : Prop where
  code : '\n' ∉ type.code
  noted : IsNoted type.comment

theorem TypeText.TakesLine.extend (single : type.TakesLine) {code : CodeLine}
    (single' : '\n' ∉ code.code) (noted : IsNoted code.comment) (count : Nat) :
    (type.extend code count).TakesLine := by
  refine ⟨?_, single.noted.both noted⟩
  change '\n' ∉ if type.code = [] then code.code else type.code ++ ' ' :: code.code
  split
  · exact single'
  · simp [single.code, single']

theorem single_definitionSides
    (single : '\n' ∉ (Text.codeLine (Text.trim line)).code) :
    '\n' ∉ (definitionSides line).1 ∧ '\n' ∉ (definitionSides line).2 := by
  unfold definitionSides
  simp only
  cases found : Text.cutAt? Text.assignmentSign (Text.codeLine (Text.trim line)).code with
  | none => exact ⟨single, List.not_mem_nil⟩
  | some sides =>
    rw [Text.eq_of_cutAt? found] at single
    simp only [List.mem_append, not_or] at single
    exact ⟨single.1.1, single.2⟩

theorem takesLine_firstType (source : Text.SourceRows blocks inBlock (line :: lines)) :
    (firstType line).TakesLine :=
  ⟨Text.newline_not_mem_trim (single_definitionSides source.single_code).2,
    Text.isNoted_codeLine source.head⟩

theorem visible_definitionNode (source : Text.SourceRows blocks inBlock (line :: lines))
    (single : type.TakesLine) (reader : Reader) (number : Nat) :
    (definitionNode reader number line type).Visible blocks := by
  have name : '\n' ∉ definitionName line :=
    Text.newline_not_mem_memberForm (single_definitionSides source.single_code).1
  have front : '\n' ∉ definitionName line ++ " ::= ".toList ++ Text.neat type.code := by
    simp [name, Text.newline_not_mem_neat single.code]
  have sign : Text.isBlankText (definitionName line ++ " ::= ".toList ++ Text.neat type.code) =
      false := Text.isBlankText_of_mem (c := ':') (by simp) (by decide)
  refine ⟨fun _ => ?_, ?_, List.not_mem_nil, by simp [definitionNode], List.not_mem_nil,
    isNoted_none, isNoted_none, nofun, fun _ _ => ?_⟩
  · simp only [definitionNode]
    exact name
  · simp only [definitionNode]
    exact Text.single_beside front single.noted
  · simp only [definitionNode]
    exact Text.seen_beside sign _

/-- A group on one line, or none, leaves what a definition lays out visible. -/
theorem visible_single (here : node.Visible blocks) (kind : node.kind = .typeDefinition)
    (bare : node.children = []) (single : type.TakesLine) :
    (shapeOf type.code = .plain → (plainNode node type).Everywhere (Node.Visible blocks)) ∧
      ∀ header inside trailer, shapeOf type.code = .inline header inside trailer →
        (inlineNode node type header inside trailer).Everywhere (Node.Visible blocks) := by
  obtain ⟨code, noted⟩ := single
  have seen := here.seen_definition kind
  obtain ⟨name, content, -, members, trailer, opening, closing, outside, -⟩ := here
  refine ⟨fun _ => ?_, fun header inside trailer' shape => ?_⟩
  · exact .intro ⟨name, content, Text.newline_not_mem_neat code, members, trailer, noted, closing,
      outside, fun _ _ => seen⟩ (by simp [plainNode, bare])
  · obtain ⟨front, whole, -, rfl, -, -⟩ := shapeOf_eq_inline _ _ _ _ shape
    simp only [whole, List.mem_append, List.mem_cons, not_or] at code
    obtain ⟨early, -, between, -, behind⟩ := code
    exact .intro ⟨name, content, Text.newline_not_mem_neat early, Text.takesLine_members between,
      Text.newline_not_mem_neat behind, opening, noted, outside, fun _ _ => seen⟩
      (by simp [inlineNode, bare])

theorem visible_startBody {limit : Int} {header first : Text} {progress : Body.Progress}
    (here : node.Visible blocks) (kind : node.kind = .typeDefinition) (bare : node.children = [])
    (single : type.TakesLine) (shape : shapeOf type.code = .opened header first)
    (started : Body.start (openedNode node type header) limit first = .ok progress) :
    progress.Visible blocks := by
  obtain ⟨code, noted⟩ := single
  have seen := here.seen_definition kind
  obtain ⟨name, content, -, members, trailer, opening, closing, outside, -⟩ := here
  obtain ⟨front, whole, -, rfl, -⟩ := shapeOf_eq_opened _ _ _ shape
  simp only [whole, List.mem_append, List.mem_cons, not_or] at code
  have opened : (openedNode node type (Text.neat front)).Visible blocks :=
    ⟨name, content, Text.newline_not_mem_neat code.1, members, trailer, noted, closing, outside,
      fun _ _ => seen⟩
  exact Body.visible_start started opened bare code.2.2

/-! ## Items -/

theorem kind_code {inBlock : Bool} {line : Text} {kind : LineKind}
    (same : LineKind.ofLine inBlock line = kind) (code : kind ≠ .comment) :
    Text.codeKind (Text.codeLine (Text.trim line)).code = kind := by
  unfold LineKind.ofLine at same
  split at same
  · exact absurd same.symm code
  · exact same

theorem single_neatLine {line : Text} (single : '\n' ∉ line) :
    '\n' ∉ Text.neatLine (Text.trim line) := by
  refine Text.single_beside (Text.newline_not_mem_neat fun newline => single ?_)
    (Text.isNoted_codeLine single)
  exact ((Text.code_isInfix _).trans (Text.trim_isInfix line)).subset newline

theorem seen_neatLine_of_kind {line : Text} {kind : LineKind}
    (same : Text.codeKind (Text.codeLine (Text.trim line)).code = kind) (framed : kind ≠ .other) :
    Text.isBlankText (Text.neatLine (Text.trim line)) = false := by
  refine Text.seen_beside ?_ _
  rw [Text.isBlankText_neat, Bool.eq_false_iff]
  intro blank
  have empty : (Text.codeLine (Text.trim line)).code = [] := by
    rw [← Text.trimEnd_codeLine, Text.trimEnd_of_blank blank]
  rw [empty] at same
  exact framed (same.symm.trans (by decide))

/-- A line without code is laid out as its comment, if it has one. -/
theorem neatLine_cases {line : Text} (single : '\n' ∉ line) :
    Text.neatLine (Text.trim line) = [] ∨ Text.isBlankText (Text.neatLine (Text.trim line)) = false := by
  by_cases none : Text.neat (Text.codeLine (Text.trim line)).code = []
  · rw [Text.neatLine, none]
    cases found : (Text.codeLine (Text.trim line)).comment with
    | none => exact .inl rfl
    | some comment =>
      have note := Text.isNoted_codeLine single comment found
      obtain ⟨⟨rest, rfl⟩, -⟩ := note
      exact .inr rfl
  · exact .inr (Text.seen_beside (Text.isBlankText_trim_of_ne_nil none) _)

/-- What an item of a schema lays out is visible, or the item stands for a blank line. -/
def IsVisibleItem (blocks : Bool) (node : Node) : Prop :=
  node.Everywhere (Node.Visible blocks) ∨ node.kind = .other ∧ node.content = []

theorem visible_itemNode {reader : Reader} {kind : NodeKind} {line : Text} (number : Nat)
    (other : kind ≠ .typeDefinition) (single : '\n' ∉ line)
    (seen : Text.isBlankText (Text.neatLine (Text.trim line)) = false) (name : Text) :
    Node.Everywhere (Node.Visible blocks) { reader.itemNode kind line number with name } :=
  Node.visible_of_content other (single_neatLine single) (fun _ => seen) nofun rfl rfl rfl rfl rfl rfl

theorem visible_lineItem {reader after : Reader} {number : Nat} {line : Text} {rest : List Text}
    {node : Node} (item : reader.lineItem number line = (node, after))
    (source : Text.SourceRows blocks reader.inBlock (line :: rest)) : IsVisibleItem blocks node := by
  have single := source.head
  have framed : ∀ {kind : LineKind}, LineKind.ofLine reader.inBlock line = kind → kind ≠ .comment →
      kind ≠ .other → Text.isBlankText (Text.neatLine (Text.trim line)) = false :=
    fun same code => seen_neatLine_of_kind (kind_code same code)
  unfold lineItem at item
  simp only at item
  split at item
  · rename_i isComment
    cases item
    have remark := (LineKind.ofLine_eq_comment ..).mp isComment
    exact .inl (Node.visible_ofComment single (source.seen_of_isRemark remark) ..)
  · rename_i header
    have seen := framed header (by decide) (by decide)
    split at item <;>
    · cases item
      exact .inl (visible_itemNode number (by decide) single seen _)
  · rename_i begins
    cases item
    exact .inl (visible_itemNode number (by decide) single (framed begins (by decide) (by decide)) _)
  · rename_i ends
    cases item
    exact .inl (visible_itemNode number (by decide) single (framed ends (by decide) (by decide)) _)
  · cases item
    rcases neatLine_cases single with empty | seen
    · exact .inr ⟨rfl, empty⟩
    · exact .inl (visible_itemNode number (by decide) single seen _)

/-! ## Trees -/

theorem of_visible {progress : Body.Progress} (visible : progress.Visible blocks) :
    progress.Of (Body.Visible blocks) (·.Everywhere (Node.Visible blocks)) := by
  cases visible with
  | more visible => exact visible
  | closed all => exact all

theorem forms_visible (limit : Int) (blocks : Bool) : Forms limit (Text.SourceRows blocks)
    TypeText.TakesLine (Body.Visible blocks) (·.Everywhere (Node.Visible blocks))
    (IsVisibleItem blocks) where
  tail source := source.tail
  remark source isRemark _ _ :=
    Node.visible_ofComment source.head (source.seen_of_isRemark isRemark) ..
  begins source _ := takesLine_firstType source
  extend source _ _ single count :=
    single.extend source.single_code (Text.isNoted_codeLine source.head) count
  single source _ _ single reader number :=
    visible_single (visible_definitionNode source single reader number) rfl rfl single
  start source _ _ single reader number _ _ _ shape started :=
    of_visible (visible_startBody (visible_definitionNode source single reader number) rfl rfl
      single shape started)
  readComment source isRemark _ visible number :=
    visible.readComment source.head (source.seen_of_isRemark isRemark) number
  readLine source _ _ visible _ _ read :=
    of_visible (Body.visible_readLine read source.single_code (Text.isNoted_codeLine source.head)
      visible)
  lineItem source item := visible_lineItem item source
  ofNode all := .inl all

end Reader

/-- The items of every tree that is read are visible or stand for blank lines. -/
theorem visible_ofText {text : Text} {options : Options} {root : Node} {blocks : Bool}
    (read : Node.ofText text options = .ok root)
    (outside : blocks = false → ∀ line ∈ Text.lines text, Text.leavesBlockOpen line = false) :
    ∀ node ∈ root.children, Reader.IsVisibleItem blocks node :=
  (Reader.forms_visible options.maxDepth blocks).ofText read (Text.sourceRows_of_text outside)

end AsnLayout
