import AsnLayout.Proofs.Alphabets
import AsnLayout.Proofs.Pieces
import AsnLayout.Proofs.Realignment
import AsnLayout.Proofs.SchemaRows

/-!
# Characters of a formatted text

A layout has the characters of its schema, and spaces, newlines, braces, commas and assignment signs
of its own.  So a formatted text holds neither tabs nor carriage returns, and formatting it again
begins with the text as it is.
-/

set_option autoImplicit false

namespace AsnLayout

/-! ## Trees -/

namespace Reader

variable {ok : Char → Prop} {line : Text} {type : TypeText}

theorem within_definitionSides (within : line.Within ok) :
    (definitionSides line).1.Within ok ∧ (definitionSides line).2.Within ok := by
  have code := (Text.within_codeLine within).1
  unfold definitionSides
  simp only
  cases found : Text.cutAt? Text.assignmentSign (Text.codeLine (Text.trim line)).code with
  | none => exact ⟨code, Text.within_nil⟩
  | some sides =>
    rw [Text.eq_of_cutAt? found, Text.within_append, Text.within_append] at code
    exact ⟨code.1.1, code.2⟩

structure TypeText.Within (ok : Char → Prop) (type : TypeText) : Prop where
  code : type.code.Within ok
  comment : (type.comment.getD []).Within ok

variable (own : ∀ c ∈ Layout.ownSigns, ok c)

include own

theorem TypeText.Within.extend (within : type.Within ok) (given : line.Within ok) (count : Nat) :
    (type.extend (Text.codeLine (Text.trim line)) count).Within ok := by
  obtain ⟨code, comment⟩ := Text.within_codeLine given
  refine ⟨?_, Text.within_both own within.comment comment⟩
  simp only [TypeText.extend]
  split
  · exact code
  · exact Text.within_append.mpr ⟨within.code, Text.within_cons.mpr ⟨own ' ' (by decide), code⟩⟩

theorem within_definitionNode (given : line.Within ok) (within : type.Within ok) (reader : Reader)
    (number : Nat) : (definitionNode reader number line type).Within ok := by
  have name : (definitionName line).Within ok := (within_definitionSides given).1.memberForm own
  have sign : Text.Within ok " ::= ".toList := fun c member =>
    own c ((by decide : " ::= ".toList ⊆ Layout.ownSigns) member)
  have front : (definitionName line ++ " ::= ".toList ++ Text.neat type.code).Within ok :=
    Text.within_append.mpr ⟨Text.within_append.mpr ⟨name, sign⟩, within.code.neat own⟩
  refine ⟨fun _ => ?_, ?_, Text.within_nil, by simp [definitionNode], Text.within_nil,
    Text.within_nil, Text.within_nil⟩
  · simp only [definitionNode]
    exact name
  · simp only [definitionNode]
    exact front.beside own within.comment

theorem within_single {node : Node} (here : node.Within ok) (bare : node.children = [])
    (within : type.Within ok) :
    (shapeOf type.code = .plain → (plainNode node type).Everywhere (Node.Within ok)) ∧
      ∀ header inside trailer, shapeOf type.code = .inline header inside trailer →
        (inlineNode node type header inside trailer).Everywhere (Node.Within ok) := by
  obtain ⟨code, comment⟩ := within
  obtain ⟨name, content, -, members, trailer, opening, closing⟩ := here
  refine ⟨fun _ => ?_, fun header inside trailer' shape => ?_⟩
  · exact .intro ⟨name, content, code.neat own, members, trailer, comment, closing⟩
      (by simp [plainNode, bare])
  · obtain ⟨front, whole, -, rfl, -, -⟩ := shapeOf_eq_inline _ _ _ _ shape
    rw [whole, Text.within_append, Text.within_cons, Text.within_append, Text.within_cons] at code
    obtain ⟨early, -, between, -, behind⟩ := code
    exact .intro ⟨name, content, early.neat own, between.members own, behind.neat own, opening,
      comment⟩ (by simp [inlineNode, bare])

theorem within_startBody {node : Node} {limit : Int} {header first : Text}
    {progress : Body.Progress} (here : node.Within ok) (bare : node.children = [])
    (within : type.Within ok) (shape : shapeOf type.code = .opened header first)
    (started : Body.start (openedNode node type header) limit first = .ok progress) :
    progress.Of (Body.Within ok) (·.Everywhere (Node.Within ok)) := by
  obtain ⟨code, comment⟩ := within
  obtain ⟨name, content, -, members, trailer, opening, closing⟩ := here
  obtain ⟨front, whole, -, rfl, -⟩ := shapeOf_eq_opened _ _ _ shape
  rw [whole, Text.within_append, Text.within_cons] at code
  have opened : (openedNode node type (Text.neat front)).Within ok :=
    ⟨name, content, code.1.neat own, members, trailer, comment, closing⟩
  exact Body.within_start own started opened bare code.2.2

theorem within_lineItem {reader after : Reader} {number : Nat} {node : Node}
    (item : reader.lineItem number line = (node, after)) (within : line.Within ok) :
    node.Everywhere (Node.Within ok) := by
  obtain ⟨code, comment⟩ := Text.within_codeLine within
  have single : ∀ (reader : Reader) (kind : NodeKind) (name : Text), kind ≠ .typeDefinition →
      Node.Everywhere (Node.Within ok) { reader.itemNode kind line number with name } :=
    fun reader kind name other => .intro (Node.within_of_content other ((code.neat own).beside own comment)
      rfl rfl rfl rfl rfl) (by simp [itemNode])
  unfold lineItem at item
  simp only at item
  split at item
  · cases item
    exact .intro (Node.within_ofComment within ..) (by simp [Node.ofComment])
  · split at item <;>
    · cases item
      exact single _ .moduleHeader _ (by decide)
  · cases item
    exact single _ .blockBegin _ (by decide)
  · cases item
    exact single _ .blockEnd _ (by decide)
  · cases item
    exact single _ .other _ (by decide)

/-- The lines of a source form nodes of the alphabet of the source. -/
theorem forms_within (limit : Int) : Forms limit (fun _ lines => ∀ line ∈ lines, line.Within ok)
    (TypeText.Within ok) (Body.Within ok) (·.Everywhere (Node.Within ok))
    (·.Everywhere (Node.Within ok)) where
  tail lines := (List.forall_mem_cons.mp lines).2
  remark lines _ level number := .intro
    (Node.within_ofComment (List.forall_mem_cons.mp lines).1 _ level number) (by simp [Node.ofComment])
  begins lines _ :=
    have line := (List.forall_mem_cons.mp lines).1
    ⟨(within_definitionSides line).2.trim, (Text.within_codeLine line).2⟩
  extend lines _ _ within count := within.extend own (List.forall_mem_cons.mp lines).1 count
  single lines _ _ within reader number := within_single own
    (within_definitionNode own (List.forall_mem_cons.mp lines).1 within reader number) rfl within
  start lines _ _ within reader number _ _ _ shape started := within_startBody own
    (within_definitionNode own (List.forall_mem_cons.mp lines).1 within reader number) rfl within shape
    started
  readComment lines _ _ within number :=
    within.readComment own (List.forall_mem_cons.mp lines).1 _ number
  readLine lines _ _ within _ _ read :=
    have line := Text.within_codeLine (List.forall_mem_cons.mp lines).1
    Body.within_readLine own read line.1 line.2 within
  lineItem lines item := within_lineItem own item (List.forall_mem_cons.mp lines).1
  ofNode all := all

end Reader

/-! ## Layouts -/

namespace Text

open Layout

variable {ok : Char → Prop} {t : Text} {comment : Option Text} (own : ∀ c ∈ ownSigns, ok c)

include own

theorem Within.remarked (within : Within ok t) (within' : Within ok (comment.getD [])) :
    Within ok (remarked t comment) := by
  unfold Layout.remarked
  split
  · exact within
  · split
    · exact within
    · exact within_append.mpr ⟨within, within_cons.mpr ⟨own ' ' (by decide), within'⟩⟩

theorem Within.withComma (within : Within ok t) (comma : Bool) : Within ok (withComma t comma) := by
  unfold Layout.withComma
  split
  · exact within_append.mpr ⟨within, within_cons.mpr ⟨own ',' (by decide), within_nil⟩⟩
  · exact within

theorem Within.opener (within : Within ok t) : Within ok (opener t) := by
  have brace : Within ok ['{'] := within_cons.mpr ⟨own '{' (by decide), within_nil⟩
  unfold Layout.opener
  split
  · exact brace
  · exact within_append.mpr ⟨within, within_cons.mpr ⟨own ' ' (by decide), brace⟩⟩

theorem Within.closer (within : Within ok t) (comma : Bool) : Within ok (closer t comma) := by
  refine Within.withComma own ?_ comma
  split
  · exact within_cons.mpr ⟨own '}' (by decide), within_nil⟩
  · exact within_append.mpr ⟨within_cons.mpr ⟨own '}' (by decide),
      within_cons.mpr ⟨own ' ' (by decide), within_nil⟩⟩, within⟩

theorem Within.inlineGroup? {front : Text} {group : InlineGroup} (before : Within ok front)
    (within : Within ok t) (found : inlineGroup? front t = some group) :
    Within ok group.header ∧ (∀ part ∈ group.members, Within ok part) ∧ Within ok group.trailer := by
  obtain ⟨early, inside, after, rfl, -, -, header, members, trailer⟩ :=
    inlineGroup?_eq_some _ _ _ found
  rw [within_append, within_cons, within_append, within_cons] at within
  obtain ⟨start, -, between, -, behind⟩ := within
  rw [header, members, trailer]
  refine ⟨Within.trim ?_, between.members own, behind.trim⟩
  exact within_append.mpr ⟨before, within_cons.mpr ⟨own ' ' (by decide), start.trim⟩⟩

end Text

def Piece.Within (ok : Char → Prop) : Piece → Prop
  | line _ text | verbatim text => text.Within ok
  | gap => True

inductive Item.Within (ok : Char → Prop) : Item → Prop where
  | member {text : Text} {comment : Option Text} (line : text.Within ok)
      (noted : (comment.getD []).Within ok) : Within ok (.member text comment)
  | group {node : Node} (all : node.Everywhere (Node.Within ok)) : Within ok (.group node)
  | remark {node : Node} (content : node.content.Within ok) : Within ok (.remark node)
  | plain {text : Text} (line : text.Within ok) : Within ok (.plain text)

namespace Layout

variable {ok : Char → Prop} {options : Options} {node : Node} {pieces : List Piece}

theorem within_commentPiece (content : node.content.Within ok) (level : Int) :
    (commentPiece node level).Within ok := by
  unfold commentPiece
  split <;> exact content

theorem within_keptLines (all : node.Everywhere (Node.Within ok)) (level : Int) :
    ∀ piece ∈ keptLines node level, piece.Within ok := by
  intro piece member
  obtain ⟨child, isChild, rfl⟩ := List.mem_map.mp member
  have content := (all.child child isChild).here.content
  simp only
  split
  · exact within_commentPiece content _
  · exact content

theorem within_ofSegments {texts : List Text} {comment : Option Text}
    (all : ∀ text ∈ texts, text.Within ok) (noted : (comment.getD []).Within ok) :
    ∀ item ∈ Item.ofSegments comment texts, item.Within ok := by
  intro item there
  obtain ⟨text, inside, rfl | rfl⟩ := Item.exists_of_mem_ofSegments there
  · exact .member (all text inside) noted
  · exact .member (all text inside) Text.within_nil

variable (own : ∀ c ∈ ownSigns, ok c)

include own

theorem within_ofChildren (all : node.Everywhere (Node.Within ok)) :
    ∀ item ∈ node.children.flatMap Item.ofChild, item.Within ok := by
  intro item member
  obtain ⟨child, isChild, here⟩ := List.mem_flatMap.mp member
  have inner := all.child child isChild
  unfold Item.ofChild at here
  split at here
  · rw [List.mem_singleton.mp here]
    exact .group inner
  split at here
  · split at here
    · rw [List.mem_singleton.mp here]
      exact .member inner.here.content inner.here.opening
    · exact within_ofSegments (inner.here.content.members own) inner.here.opening item here
  split at here
  · rw [List.mem_singleton.mp here]
    exact .remark inner.here.content
  · rw [List.mem_singleton.mp here]
    exact .plain inner.here.content

theorem makes_within : Makes (Item.Within ok) (Piece.Within ok) where
  remark level good := by
    cases good with
    | remark content => exact within_commentPiece content level
  plain level good := by
    cases good with
    | plain line => exact line
  member level comma good := by
    cases good with
    | member line noted => exact (line.withComma own comma).remarked own noted
  expanded level comma good found := by
    cases good with
    | member line noted =>
      obtain ⟨header, members, trailer⟩ := Text.within_nil.inlineGroup? own line found
      exact ⟨header.opener own, fun part member => .member (members part member) Text.within_nil,
        (trailer.closer own comma).remarked own noted⟩
  group level comma good := by
    cases good with
    | group all =>
      have here := all.here
      exact ⟨(here.header.opener own).remarked own here.opening,
        (here.trailer.closer own comma).remarked own here.closing⟩
  children good structured := by
    cases good with
    | group all => exact within_ofChildren own all
  kept good plain level := by
    cases good with
    | group all => exact within_keptLines all level

theorem within_layNode (all : node.Everywhere (Node.Within ok))
    (laid : layNode options node = .ok pieces) :
    ∀ piece ∈ pieces, piece.Within ok := by
  have here := all.here
  by_cases defines : node.kind = .typeDefinition
  · have name : (assignment node).Within ok := by
      have sign : Text.Within ok " ::=".toList := fun c member =>
        own c ((by decide : " ::=".toList ⊆ ownSigns) member)
      exact Text.within_append.mpr ⟨here.name defines, sign⟩
    have front : (assignment node ++ ' ' :: node.header.getD []).Within ok :=
      Text.within_append.mpr ⟨name, Text.within_cons.mpr ⟨own ' ' (by decide), here.header⟩⟩
    rw [layNode_of_defines defines] at laid
    split at laid
    · refine (makes_within own).layPlainDefinition (show Piece.Within ok .gap from trivial)
        (front.remarked own here.opening) (fun group found => ?_) laid
      obtain ⟨header, members, trailer⟩ := name.inlineGroup? own here.header found
      exact ⟨header.opener own, fun part member => .member (members part member) Text.within_nil,
        (trailer.closer own false).remarked own here.opening⟩
    · have opening : (definitionFront node).Within ok := by
        unfold definitionFront
        split
        · exact name
        · rename_i some
          simpa [some] using front
      exact (makes_within own).layGroupDefinition (show Piece.Within ok .gap from trivial)
        ((opening.opener own).remarked own here.opening)
        (fun part member => .member (here.members part member) Text.within_nil)
        (fun _ => within_ofChildren own all) (fun _ => within_keptLines all _)
        ((here.trailer.closer own false).remarked own here.closing) laid
  · by_cases comment : node.kind = .comment
    · rw [layNode, comment] at laid
      cases laid
      exact List.forall_mem_singleton.mpr (within_commentPiece here.content _)
    · have line : Piece.Within ok (.line node.level node.content) := here.content
      rcases layNode_line_cases defines comment laid with rfl | rfl | rfl | ⟨-, rfl⟩
      · exact List.forall_mem_singleton.mpr line
      · exact List.forall_mem_cons.mpr ⟨line, List.forall_mem_singleton.mpr trivial⟩
      · exact List.forall_mem_cons.mpr ⟨trivial, List.forall_mem_singleton.mpr line⟩
      · exact List.forall_mem_singleton.mpr trivial

end Layout

namespace Piece

variable {ok : Char → Prop} {width : Int} {pieces : List Piece}

theorem mem_limitNewlines {c : Char} {run : Nat} {t : Text} (member : c ∈ limitNewlines run t) :
    c ∈ t := by
  induction t generalizing run with
  | nil => cases member
  | cons d rest ih =>
    rw [limitNewlines] at member
    split at member
    · split at member
      · rcases List.mem_cons.mp member with rfl | behind
        · exact List.mem_cons_self
        · exact List.mem_cons_of_mem _ (ih behind)
      · exact List.mem_cons_of_mem _ (ih member)
    · rcases List.mem_cons.mp member with rfl | behind
      · exact List.mem_cons_self
      · exact List.mem_cons_of_mem _ (ih behind)

theorem within_rows (space : ok ' ') (all : ∀ piece ∈ pieces, piece.Within ok) (last : Option Text) :
    ∀ row ∈ rows width last pieces, row.Within ok := by
  induction pieces generalizing last with
  | nil => simp [rows]
  | cons piece later ih =>
    obtain ⟨here, there⟩ := List.forall_mem_cons.mp all
    have onward := ih there
    cases piece with
    | line level text =>
      refine List.forall_mem_cons.mpr ⟨Text.within_append.mpr ⟨fun c member => ?_, here⟩, onward _⟩
      rw [List.eq_of_mem_replicate member]
      exact space
    | verbatim text => exact List.forall_mem_cons.mpr ⟨here, onward _⟩
    | gap =>
      cases last with
      | none => exact onward none
      | some row =>
        rw [rows]
        split
        · exact onward _
        · exact List.forall_mem_cons.mpr ⟨Text.within_nil, onward _⟩

theorem within_assemble (newline : ok '\n') (space : ok ' ')
    (all : ∀ piece ∈ pieces, piece.Within ok) : (assemble width pieces).Within ok := by
  have kept : trimRows (rows width none pieces) ⊆ rows width none pieces := by
    have front : trimRows (rows width none pieces) <+:
        (rows width none pieces).dropWhile Text.isBlankText := List.rdropWhile_prefix _ _
    exact fun row member => (List.dropWhile_suffix _).subset (front.subset member)
  unfold assemble
  split
  · exact Text.within_nil
  · refine Text.within_append.mpr ⟨fun c member => ?_, Text.within_cons.mpr ⟨newline, Text.within_nil⟩⟩
    rcases Text.mem_ofLines (mem_limitNewlines member) with rfl | ⟨row, isRow, inRow⟩
    · exact newline
    · exact within_rows space all none row (kept isRow) c inRow

end Piece

/-! ## Formatted texts -/

/-- The characters of a layout are those of its schema, newlines, and signs of its own. -/
theorem mem_toText {text out : Text} {options settings : Options} {root : Node}
    (read : Node.ofText text options = .ok root) (laid : root.toText settings = .ok out) {c : Char}
    (member : c ∈ out) : c = '\n' ∨ c ∈ Layout.ownSigns ∨ c ∈ text := by
  obtain ⟨pieces, lays, rfl⟩ := Layout.text_eq_ok.mp laid
  let ok (c : Char) : Prop := c = '\n' ∨ c ∈ Layout.ownSigns ∨ c ∈ text
  have own : ∀ c ∈ Layout.ownSigns, ok c := fun c sign => .inr (.inl sign)
  have lines : ∀ line ∈ Text.lines text, line.Within ok := fun line isLine c inLine =>
    .inr (.inr ((Text.infix_of_mem_lines text line isLine).subset inLine))
  have nodes := (Reader.forms_within own options.maxDepth).ofText read lines
  exact Piece.within_assemble (.inl rfl) (own ' ' (by decide))
    (Layout.forall_layNodes (fun _ _ => Layout.within_layNode own) nodes lays) c member

/-- Whatever a text is formatted to, its characters are those of the text, newlines, and the signs of a
layout.  It holds neither a tab nor a carriage return. -/
theorem mem_format {source : Text} {configuration : Configuration} {c : Char}
    (member : c ∈ (Format.text source configuration).result) :
    c = '\n' ∨ c ∈ Layout.ownSigns ∨ c ∈ source ∧ c ≠ '\r' ∧ c ≠ '\t' := by
  have plain : ∀ width, c ∈ Text.plainSource source width →
      c = '\n' ∨ c ∈ Layout.ownSigns ∨ c ∈ source ∧ c ≠ '\r' ∧ c ≠ '\t' := by
    intro width inPlain
    rcases Text.mem_plainSource inPlain with rfl | newline | inSource
    · exact .inr (.inl (by decide))
    · exact .inl newline
    · exact .inr (.inr inSource)
  unfold Format.text at member
  split at member
  · cases member
  · generalize Format.options configuration = options at member
    cases laid : Format.treeLayout (Text.plainSource source options.result.indentWidth)
        options.result with
    | ok out =>
      rw [(Format.layout_of_ok laid).1] at member
      obtain ⟨root, read, laidTree⟩ := (bind_eq_ok ..).mp laid
      rcases mem_toText read laidTree member with newline | sign | inPlain
      · exact .inl newline
      · exact .inr (.inl sign)
      · exact plain _ inPlain
    | error fault =>
      rw [(Format.layout_of_error laid).1] at member
      rcases Text.mem_realign member with rfl | newline | inPlain
      · exact .inr (.inl (by decide))
      · exact .inl newline
      · exact plain _ inPlain

/-- A formatted text is taken as it is when it is formatted again. -/
theorem plainSource_format (source : Text) (configuration : Configuration) (width : Int) :
    Text.plainSource (Format.text source configuration).result width =
      (Format.text source configuration).result := by
  have absent : ∀ c : Char, c = '\r' ∨ c = '\t' → c ∉ (Format.text source configuration).result := by
    intro c isControl member
    rcases mem_format member with rfl | sign | ⟨-, noReturn, noTab⟩
    · rcases isControl with same | same <;> cases same
    · rcases isControl with rfl | rfl <;> exact absurd sign (by decide)
    · exact isControl.elim noReturn noTab
  exact Text.plainSource_of_not_mem (absent _ (.inl rfl)) (absent _ (.inr rfl)) width

end AsnLayout
