import AsnLayout.Proofs.BlankLines
import AsnLayout.Proofs.Indentation

/-!
# Wrapping of long lines

A line is wrapped if it would be too long on its own.  Where no line of the unwrapped layout is too
long, every line that is tested for it is one of these lines, so that the layout with wrapping is
the same; where the unwrapped layout fails, so does the other, for the same reason.
-/

set_option autoImplicit false

namespace AsnLayout

open Layout

/-- A piece that does not have to be wrapped.  Only lines that are not blank are ever wrapped. -/
def Piece.Fits (options : Options) : Piece → Prop
  | line level text => Text.isBlankText text = false → isTooLong options level text = false
  | verbatim _ | gap => True

namespace Layout

/-! ## Steps of a layout -/

/-- What is laid out with long lines wrapped, next to what is laid out with none wrapped: the same
pieces if all of them fit, and the same fault.  No other fault but the depth limit is possible. -/
structure Inert (options : Options) (plain wrapped : Except Fault (List Piece)) : Prop where
  kept : ∀ pieces, plain = .ok pieces → (∀ piece ∈ pieces, piece.Fits options) →
    wrapped = .ok pieces
  failed : ∀ fault, plain = .error fault → wrapped = .error fault
  cause : ∀ fault, wrapped = .error fault → fault = ⟨.tooDeep options.maxDepth, none⟩

namespace Inert

variable {options : Options} {plain wrapped plain' wrapped' : Except Fault (List Piece)}

theorem ok (pieces : List Piece) : Inert options (.ok pieces) (.ok pieces) :=
  ⟨fun _ same _ => same, nofun, nofun⟩

theorem append (first : Inert options plain wrapped) (second : Inert options plain' wrapped') :
    Inert options (do return (← plain) ++ (← plain')) (do return (← wrapped) ++ (← wrapped')) := by
  refine ⟨fun pieces laid fits => ?_, fun fault failed => ?_, fun fault failed => ?_⟩
  · simp only [bind_eq_ok] at laid ⊢
    obtain ⟨early, here, late, there, done⟩ := laid
    cases done
    obtain ⟨fitsHere, fitsThere⟩ := List.forall_mem_append.mp fits
    exact ⟨early, first.kept early here fitsHere, late, second.kept late there fitsThere, rfl⟩
  · cases here : plain with
    | error found =>
      rw [here] at failed
      rw [first.failed found here]
      exact failed
    | ok early =>
      cases there : plain' with
      | ok late =>
        rw [here, there] at failed
        cases failed
      | error found =>
        rw [here, there] at failed
        cases failed
        have found' := second.failed fault there
        cases wrapped with
        | ok _ => rw [found']; rfl
        | error other =>
          -- Where the first layout wraps and fails, it fails for the only reason there is.
          rw [first.cause other rfl, second.cause fault found']
          rfl
  · cases wrapped with
    | error found => cases failed; exact first.cause _ rfl
    | ok early =>
      cases wrapped' with
      | error found => cases failed; exact second.cause _ rfl
      | ok late => cases failed

/-- What is laid out between lines before it and lines behind it. -/
theorem around (body : Inert options plain wrapped) (opening : Piece) (closing : List Piece) :
    Inert options (do return opening :: (← plain) ++ closing)
      (do return opening :: (← wrapped) ++ closing) := by
  refine ⟨fun pieces laid fits => ?_, fun fault failed => ?_, fun fault failed => ?_⟩
  · simp only [bind_eq_ok] at laid ⊢
    obtain ⟨inner, here, done⟩ := laid
    cases done
    refine ⟨inner, body.kept inner here fun piece member => fits piece ?_, rfl⟩
    simp [member]
  · cases here : plain with
    | ok inner => rw [here] at failed; cases failed
    | error found =>
      rw [here] at failed
      rw [body.failed found here]
      exact failed
  · cases wrapped with
    | ok inner => cases failed
    | error found => cases failed; exact body.cause _ rfl

/-- A line that is laid out in another way if it is too long. -/
theorem line (level : Int) {text : Text} (seen : Text.isBlankText text = false)
    (expanded : Inert options plain wrapped) :
    Inert options (.ok [.line level text])
      (if isTooLong options level text then wrapped else .ok [.line level text]) := by
  refine ⟨fun pieces laid fits => ?_, nofun, fun fault failed => ?_⟩
  · cases laid
    have short : isTooLong options level text = false := fits (.line level text) (by simp) seen
    simp [short]
  · split at failed
    · exact expanded.cause fault failed
    · cases failed

end Inert

theorem inert_layItems {options : Options} {lay lay' : Bool → Item → Except Fault (List Piece)}
    (each : ∀ comma item, Inert options (lay comma item) (lay' comma item)) (items : List Item) :
    Inert options (layItems lay items) (layItems lay' items) := by
  induction items with
  | nil => exact .ok []
  | cons item later ih => exact (each _ item).append ih

/-! ## Items -/

variable {plain options : Options}

theorem isTooLong_of_plain (off : plain.wrapLongLines = false) (level : Int) (line : Text) :
    isTooLong plain level line = false := by
  rw [isTooLong, off, Bool.false_and]

section Expand

variable {text : Text} {group : InlineGroup} (found : inlineGroup? [] text = some group)

include found

theorem groupToExpand?_of_structured (level : Int) (line : Text)
    (structured : (GroupKind.ofHeader group.header).isStructured = true) :
    groupToExpand? options level text line = some group := by
  simp [groupToExpand?, found, structured]

theorem groupToExpand?_of_unstructured (level : Int) (line : Text)
    (unstructured : (GroupKind.ofHeader group.header).isStructured = false) :
    groupToExpand? options level text line =
      if isTooLong options level line then some group else none := by
  simp [groupToExpand?, found, unstructured]

end Expand

theorem mem_of_inlineGroup? {front text : Text} {group : InlineGroup}
    (found : inlineGroup? front text = some group) : '{' ∈ text := by
  obtain ⟨before, inside, after, rfl, -⟩ := inlineGroup?_eq_some _ _ _ found
  simp

theorem mem_remarked {c : Char} {text : Text} (member : c ∈ text) (comment : Option Text) :
    c ∈ remarked text comment := by
  unfold remarked
  split
  · exact member
  · split
    · exact member
    · exact List.mem_append_left _ member

theorem mem_withComma {c : Char} {text : Text} (member : c ∈ text) (comma : Bool) :
    c ∈ withComma text comma := by
  unfold withComma
  split
  · exact List.mem_append_left _ member
  · exact member

theorem inert_layItem (off : plain.wrapLongLines = false)
    (same : options.maxDepth = plain.maxDepth) (room : Nat) : ∀ level comma item,
    Inert options (layItem plain room level comma item)
      (layItem options room level comma item) := by
  have deep : Inert options (.error ⟨.tooDeep plain.maxDepth, none⟩)
      (.error ⟨.tooDeep options.maxDepth, none⟩) := by
    rw [← same]
    exact ⟨nofun, fun _ failed => failed, fun _ failed => (Except.error.inj failed).symm⟩
  induction room with
  | zero =>
    intro level comma item
    cases item with
    | member text comment => exact deep
    | group node => exact deep
    | remark node => exact .ok _
    | plain text => exact .ok _
  | succ room ih =>
    intro level comma item
    cases item with
    | remark node => exact .ok _
    | plain text => exact .ok _
    | group node =>
      simp only [layItem]
      cases node.isStructured with
      | true => exact (inert_layItems (ih (level + 1)) _).around _ _
      | false => exact .ok _
    | member text comment =>
      cases found : inlineGroup? [] text with
      | none =>
        simp only [layItem, groupToExpand?, found]
        exact .ok _
      | some group =>
        have expanded := (inert_layItems (ih (level + 1))
          (group.members.map (Item.member · none))).around (.line level (opener group.header))
          [.line level (remarked (closer group.trailer comma) comment)]
        cases structured : (GroupKind.ofHeader group.header).isStructured with
        | true =>
          simp only [layItem, groupToExpand?_of_structured found _ _ structured]
          exact expanded
        | false =>
          have seen : Text.isBlankText (remarked (withComma text comma) comment) = false :=
            Text.isBlankText_of_mem
              (mem_remarked (mem_withComma (mem_of_inlineGroup? found) comma) comment) (by decide)
          have tested := expanded.line level seen
          simp only [layItem, groupToExpand?_of_unstructured found _ _ structured,
            isTooLong_of_plain off]
          cases tooLong : isTooLong options level (remarked (withComma text comma) comment) with
          | true => rw [tooLong] at tested; exact tested
          | false => rw [tooLong] at tested; exact tested

theorem inert_layBody (off : plain.wrapLongLines = false)
    (same : options.maxDepth = plain.maxDepth) (level : Int) (items : List Item) :
    Inert options (layBody plain level items) (layBody options level items) := by
  rw [layBody, layBody, same]
  exact inert_layItems (inert_layItem off same _ level) items

/-! ## Nodes -/

theorem inert_layPlainDefinition (off : plain.wrapLongLines = false)
    (same : options.maxDepth = plain.maxDepth) (node : Node) :
    Inert options (layPlainDefinition plain node) (layPlainDefinition options node) := by
  have seen : Text.isBlankText (remarked (assignment node ++ ' ' :: node.header.getD [])
      node.openingComment) = false :=
    Text.isBlankText_of_mem (c := ':') (mem_remarked (by simp [assignment]) _) (by decide)
  unfold layPlainDefinition
  simp only [isTooLong_of_plain off]
  cases found : inlineGroup? (assignment node) (node.header.getD []) with
  | none =>
    simp only [ite_self]
    exact .ok _
  | some group =>
    have tested := ((inert_layBody off same (node.level + 1)
      (group.members.map (Item.member · none))).around (.line node.level (opener group.header))
      [.line node.level (remarked (closer group.trailer false) node.openingComment), .gap]).line
      node.level seen
    cases tooLong : isTooLong options node.level (remarked (assignment node ++ ' ' ::
        node.header.getD []) node.openingComment) with
    | true => rw [tooLong] at tested; exact tested
    | false => rw [tooLong] at tested; exact tested

theorem inert_layGroupDefinition (off : plain.wrapLongLines = false)
    (same : options.maxDepth = plain.maxDepth) (node : Node) :
    Inert options (layGroupDefinition plain node) (layGroupDefinition options node) := by
  rw [layGroupDefinition_eq, layGroupDefinition_eq]
  refine Inert.around ?_ _ _
  unfold definitionBody
  split
  · exact inert_layBody off same _ _
  · split
    · exact inert_layBody off same _ _
    · exact .ok _

theorem inert_layNode (off : plain.wrapLongLines = false)
    (same : options.maxDepth = plain.maxDepth) (node : Node) :
    Inert options (layNode plain node) (layNode options node) := by
  unfold layNode
  split
  · exact .ok _
  · exact .ok _
  · exact .ok _
  · exact .ok _
  · split
    · exact inert_layPlainDefinition off same node
    · exact inert_layGroupDefinition off same node
  · exact .ok _

theorem inert_layNodes (off : plain.wrapLongLines = false)
    (same : options.maxDepth = plain.maxDepth) (nodes : List Node) :
    Inert options (layNodes plain nodes) (layNodes options nodes) := by
  induction nodes with
  | nil => exact .ok []
  | cons node later ih => exact (inert_layNode off same node).append ih

/-- Options that differ in widths only lay out the same pieces, if no long lines are wrapped. -/
theorem layNodes_of_plain (off : plain.wrapLongLines = false)
    (off' : options.wrapLongLines = false) (same : options.maxDepth = plain.maxDepth)
    (nodes : List Node) : layNodes options nodes = layNodes plain nodes := by
  have inert := inert_layNodes off same nodes
  cases laid : layNodes plain nodes with
  | error fault => exact inert.failed fault laid
  | ok pieces =>
    refine inert.kept pieces laid fun piece _ => ?_
    cases piece with
    | line level text => exact fun _ => isTooLong_of_plain off' level text
    | verbatim text => trivial
    | gap => trivial

theorem isTooLong_of_length {level : Int} {text : Text}
    (short : ((Piece.indented options.indentWidth level text).length : Int) ≤
      options.maxLineLength) : isTooLong options level text = false := by
  have width := Int.self_le_toNat (level * options.indentWidth)
  rw [Piece.indented, Text.spaces, List.length_append, List.length_replicate] at short
  simp only [isTooLong, Bool.and_eq_false_iff, decide_eq_false_iff_not]
  omega

end Layout

/-! ## Formatted texts -/

theorem Piece.fits_of_lines {options : Options} {pieces : List Piece} {blocks : Bool}
    (visible : ∀ piece ∈ pieces, piece.Visible blocks)
    (short : ∀ row ∈ Text.lines (assemble options.indentWidth pieces),
      (row.length : Int) ≤ options.maxLineLength) :
    ∀ piece ∈ pieces, piece.Fits options := by
  intro piece member
  cases piece with
  | verbatim text => trivial
  | gap => trivial
  | line level text =>
    intro seen
    have single : '\n' ∉ indented options.indentWidth level text := by
      simp [indented, Text.spaces, (visible _ member).single]
    have seenRow : Text.isBlankText (indented options.indentWidth level text) = false :=
      seen_indented seen level
    have isRow : indented options.indentWidth level text ∈
        Text.seenLines (assemble options.indentWidth pieces) := by
      rw [seenLines_assemble, List.mem_flatMap]
      refine ⟨_, member, ?_⟩
      rw [row, Text.seenLines, Text.lines_of_not_mem single]
      simp [seenRow]
    exact isTooLong_of_length (short _ (List.mem_of_mem_filter isRow))

namespace Format

theorem treeLayout_wrapped {source : Text} {plain options : Options}
    (off : plain.wrapLongLines = false)
    (wraps : options = { plain with wrapLongLines := true })
    (short : ∀ row ∈ Text.lines (layout source plain).result,
      (row.length : Int) ≤ plain.maxLineLength) :
    treeLayout source options = treeLayout source plain := by
  have read : Node.ofText source options = Node.ofText source plain := by
    rw [wraps]
    rfl
  have depth : options.maxDepth = plain.maxDepth := by rw [wraps]
  have width : options.indentWidth = plain.indentWidth := by rw [wraps]
  have length : options.maxLineLength = plain.maxLineLength := by rw [wraps]
  rw [treeLayout, treeLayout, read]
  cases parsed : Node.ofText source plain with
  | error fault => rfl
  | ok root =>
    have inert := Layout.inert_layNodes off depth root.children
    change root.toText options = root.toText plain
    unfold Node.toText
    cases laid : Layout.layNodes plain root.children with
    | error fault =>
      rw [inert.failed fault laid]
      rfl
    | ok pieces =>
      have whole : treeLayout source plain = .ok (Piece.assemble plain.indentWidth pieces) := by
        exact (bind_eq_ok ..).mpr ⟨root, parsed, (bind_eq_ok ..).mpr ⟨pieces, laid, rfl⟩⟩
      rw [(layout_of_ok whole).1, ← width, ← length] at short
      have visible := visible_layNodes_ofText parsed laid
      rw [inert.kept pieces laid (Piece.fits_of_lines visible short), width]

end Format

/-- Where every line of a formatted text is short enough, the text is the same with long lines
wrapped. -/
theorem format_of_short_lines (source : Text) (off on : Configuration)
    (plain : (Format.options off).result.wrapLongLines = false)
    (wraps : (Format.options on).result =
      { (Format.options off).result with wrapLongLines := true })
    (short : ∀ line ∈ Text.lines (Format.text source off).result,
      (line.length : Int) ≤ (Format.options off).result.maxLineLength) :
    (Format.text source on).result = (Format.text source off).result := by
  unfold Format.text at short ⊢
  split
  · rfl
  · rename_i seen
    have width : (Format.options on).result.indentWidth =
        (Format.options off).result.indentWidth := by rw [wraps]
    simp only [seen, Bool.false_eq_true, if_false, width] at short ⊢
    have same := Format.treeLayout_wrapped plain wraps short
    cases laid : Format.treeLayout (Text.plainSource source (Format.options off).result.indentWidth)
        (Format.options off).result with
    | ok out =>
      rw [(Format.layout_of_ok laid).1, (Format.layout_of_ok (same.trans laid)).1]
    | error fault =>
      rw [(Format.layout_of_error laid).1, (Format.layout_of_error (same.trans laid)).1, width]

/-- A member whose line with its comma and comment is as long as a line may be; were it longer, its
group would be wrapped. -/
theorem format_of_short_lines_at_limit :
    let source : Text := ("A ::= INTEGER \x7ba(1), b(2)\x7d\n" ++
      "B ::= SEQUENCE \x7b x BITSTRING \x7b a, b \x7d -- c\n, y NULL\x7d").toList
    let off : Configuration := .typed { maxLineLength := .int 28 }
    let on : Configuration := .typed { maxLineLength := .int 28, wrapLongLines := .bool true }
    let less : Configuration := .typed { maxLineLength := .int 27, wrapLongLines := .bool true }
    "  x BITSTRING \x7b a, b \x7d, -- c".toList ∈ Text.lines (Format.text source off).result ∧
      (Format.text source on).result = (Format.text source off).result ∧
      (Format.text source less).result ≠ (Format.text source off).result := by
  intro source off on less
  have short : ∀ line ∈ Text.lines (Format.text source off).result, (line.length : Int) ≤ 28 := by
    decide +kernel
  exact ⟨by decide +kernel, format_of_short_lines source off on rfl rfl short, by decide +kernel⟩

end AsnLayout
