import AsnLayout.Proofs.CommentReading
import AsnLayout.Proofs.Rows

/-!
# Comments that are laid out

The layout of a tree shows its trail: each comment line has a piece of its own, comment lines that
follow each other have pieces that follow each other, and each other cell stands in the text of a
piece.
-/

set_option autoImplicit false

namespace AsnLayout

def Piece.IsNote (content : Text) (blockLine : Bool) (piece : Piece) : Prop :=
  if blockLine then piece = .verbatim content else ∃ level, piece = .line level content

/-- Pieces show cells: one piece for each comment line, some pieces for each other cell. -/
inductive Shown : List Cell → List Piece → Prop where
  | nil : Shown [] []
  | note {content : Text} {blockLine : Bool} {piece : Piece} {cells : List Cell}
      {pieces : List Piece} (isNote : piece.IsNote content blockLine) (later : Shown cells pieces) :
      Shown (.note content blockLine :: cells) (piece :: pieces)
  | slot {text : Text} {piece : Piece} {front : List Piece} {cells : List Cell}
      {pieces : List Piece} (member : piece ∈ front) (inside : text <:+: piece.written)
      (later : Shown cells pieces) : Shown (.slot text :: cells) (front ++ pieces)

namespace Shown

theorem append {cells cells' : List Cell} {pieces pieces' : List Piece} (shown : Shown cells pieces)
    (shown' : Shown cells' pieces') : Shown (cells ++ cells') (pieces ++ pieces') := by
  induction shown with
  | nil => exact shown'
  | note isNote later ih => exact .note isNote ih
  | slot member inside later ih =>
    rw [List.append_assoc]
    exact .slot member inside ih

theorem split {cells cells' : List Cell} {pieces : List Piece}
    (shown : Shown (cells ++ cells') pieces) :
    ∃ front back, pieces = front ++ back ∧ Shown cells front ∧ Shown cells' back := by
  induction cells generalizing pieces with
  | nil => exact ⟨[], pieces, rfl, .nil, shown⟩
  | cons cell rest ih =>
    cases shown with
    | note isNote later =>
      obtain ⟨front, back, rfl, first, second⟩ := ih later
      exact ⟨_ :: front, back, rfl, .note isNote first, second⟩
    | slot member inside later =>
      obtain ⟨front, back, rfl, first, second⟩ := ih later
      exact ⟨_ ++ front, back, (List.append_assoc ..).symm, .slot member inside first, second⟩

theorem single {text : Text} {piece : Piece} {pieces : List Piece} (member : piece ∈ pieces)
    (inside : text <:+: piece.written) : Shown [.slot text] pieces := by
  rw [← List.append_nil pieces]
  exact .slot member inside .nil

/-- The pieces of a cell that is no comment line may begin earlier. -/
theorem widen {text : Text} {cells : List Cell} {pieces : List Piece}
    (shown : Shown (.slot text :: cells) pieces) (front : List Piece) :
    Shown (.slot text :: cells) (front ++ pieces) := by
  cases shown with
  | slot member inside later =>
    rw [← List.append_assoc]
    exact .slot (List.mem_append_right _ member) inside later

theorem of_mem {cells : List Cell} {pieces : List Piece} {kept : Cell} (shown : Shown cells pieces)
    (member : kept ∈ cells) {c : Char} {rest : Text} (solid : Text.isBlank c = false)
    (within : Cell.Within (.slot (c :: rest)) kept) :
    ∃ piece ∈ pieces, c :: rest <:+: piece.written := by
  induction shown with
  | nil => cases member
  | @note content blockLine piece cells pieces isNote later ih =>
    rcases List.mem_cons.mp member with rfl | inLater
    · refine ⟨piece, List.mem_cons_self .., ?_⟩
      cases within with
      | line _ shows =>
        have text : piece.written = content := by
          unfold Piece.IsNote at isNote
          split at isNote
          · rw [isNote, Piece.written]
          · obtain ⟨level, rfl⟩ := isNote
            rfl
        rw [text]
        exact shows c rest solid (List.infix_refl _)
    · obtain ⟨piece, inPieces, inside⟩ := ih inLater
      exact ⟨piece, List.mem_cons_of_mem _ inPieces, inside⟩
  | @slot text piece front cells pieces inFront inside later ih =>
    rcases List.mem_cons.mp member with rfl | inLater
    · cases within with
      | slot shows =>
        exact ⟨piece, List.mem_append_left _ inFront,
          (shows c rest solid (List.infix_refl _)).trans inside⟩
    · obtain ⟨piece, inPieces, inside⟩ := ih inLater
      exact ⟨piece, List.mem_append_right _ inPieces, inside⟩

end Shown

/-! ## Items -/

namespace Item

def trail : Item → List Cell
  | member _ comment => [.slot (comment.getD [])]
  | group node => node.groupTrail
  | remark node => [.note node.content node.blockLine]
  | plain text => [.slot text]

theorem shown_ofSegments {comment : Option Text} {segments : List Text} {pieces : List Piece}
    (filled : segments ≠ []) (shown : Shown ((ofSegments comment segments).flatMap trail) pieces) :
    Shown [.slot (comment.getD [])] pieces := by
  induction segments generalizing pieces with
  | nil => exact absurd rfl filled
  | cons segment later ih =>
    cases later with
    | nil => exact shown
    | cons next others =>
      obtain ⟨front, back, rfl, -, behind⟩ := @Shown.split [.slot []] _ _ shown
      exact (ih (List.cons_ne_nil _ _) behind).widen front

theorem shown_ofChild {node : Node} {pieces : List Piece}
    (shown : Shown ((ofChild node).flatMap trail) pieces) : Shown node.trail pieces := by
  unfold ofChild at shown
  split at shown
  · rename_i spans
    rw [node.trail_of_spansLines spans]
    simpa [trail] using shown
  · rename_i single
    have single : node.spansLines = false := by simpa using single
    split at shown
    · rename_i isField
      rw [node.trail_of_isField isField single]
      split at shown
      · simpa [trail] using shown
      · rename_i segments filled
        exact shown_ofSegments filled shown
    · rename_i noField
      have noField : node.isField = false := by simpa using noField
      rw [node.trail_of_not_isField noField, Node.cell]
      split at shown
      · rename_i comment
        rw [if_pos comment]
        simpa [trail] using shown
      · rename_i other
        rw [if_neg other]
        simpa [trail] using shown

theorem shown_ofChildren {nodes : List Node} {pieces : List Piece}
    (shown : Shown ((nodes.flatMap ofChild).flatMap trail) pieces) :
    Shown (Node.trailAll nodes) pieces := by
  induction nodes generalizing pieces with
  | nil =>
    rw [Node.trailAll_nil]
    exact shown
  | cons node later ih =>
    rw [List.flatMap_cons, List.flatMap_append] at shown
    obtain ⟨front, back, rfl, first, second⟩ := shown.split
    rw [Node.trailAll_cons]
    exact (shown_ofChild first).append (ih second)

end Item

/-! ## Layouts -/

namespace Layout

theorem infix_remarked (text : Text) (comment : Option Text) :
    comment.getD [] <:+: remarked text comment := by
  cases comment with
  | none => exact List.nil_infix
  | some comment =>
    by_cases empty : comment = []
    · rw [empty]
      exact List.nil_infix
    · rw [remarked, if_neg empty]
      exact ((List.suffix_cons _ _).trans (List.suffix_append _ _)).isInfix

theorem isNote_commentPiece (node : Node) (level : Int) :
    (commentPiece node level).IsNote node.content node.blockLine := by
  unfold Piece.IsNote commentPiece
  split
  · rfl
  · exact ⟨level, rfl⟩

theorem shown_line (level : Int) (text : Text) (comment : Option Text) :
    Shown [.slot (comment.getD [])] [.line level (remarked text comment)] :=
  .single (List.mem_singleton_self _) (infix_remarked text comment)

theorem shown_keptLines (node : Node) (level : Int) :
    Shown (node.children.map Node.cell) (keptLines node level) := by
  unfold keptLines
  induction node.children with
  | nil => exact .nil
  | cons child later ih =>
    simp only [List.map_cons, Node.cell]
    split
    · exact .note (isNote_commentPiece child _) ih
    · have here : Shown [.slot child.content]
          [.line (level + max 0 (child.level - (node.level + 1))) child.content] :=
        .single (List.mem_singleton_self _) (List.infix_refl _)
      exact here.append ih

theorem shown_layItems {lay : Bool → Item → Except Fault (List Piece)}
    (shows : ∀ comma item pieces, lay comma item = .ok pieces → Shown item.trail pieces)
    {items : List Item} {pieces : List Piece} (laid : layItems lay items = .ok pieces) :
    Shown (items.flatMap Item.trail) pieces := by
  induction items generalizing pieces with
  | nil =>
    cases laid
    exact .nil
  | cons item later ih =>
    simp only [layItems, bind_eq_ok] at laid
    obtain ⟨first, here, rest, there, done⟩ := laid
    cases done
    exact (shows _ item first here).append (ih there)

theorem shown_layItem (options : Options) (room : Nat) :
    ∀ (level : Int) (comma : Bool) (item : Item) (pieces : List Piece),
      layItem options room level comma item = .ok pieces → Shown item.trail pieces := by
  -- Without room, members and groups are refused, so only lines are shown.
  induction room with
  | zero =>
    intro level comma item pieces laid
    cases item with
    | member text comment => simp [layItem] at laid
    | group node => simp [layItem] at laid
    | remark node =>
      cases laid
      exact .note (isNote_commentPiece node level) .nil
    | plain text =>
      cases laid
      exact .single (List.mem_singleton_self _) (List.infix_refl _)
  | succ room ih =>
    intro level comma item pieces laid
    cases item with
    | remark node =>
      cases laid
      exact .note (isNote_commentPiece node level) .nil
    | plain text =>
      cases laid
      exact .single (List.mem_singleton_self _) (List.infix_refl _)
    | member text comment =>
      simp only [layItem] at laid
      split at laid
      · cases laid
        exact .single (List.mem_singleton_self _) (infix_remarked _ comment)
      · rename_i group expands
        rw [bind_eq_ok] at laid
        obtain ⟨body, inner, done⟩ := laid
        cases done
        exact .single (List.mem_append_right _ (List.mem_singleton_self _))
          (infix_remarked _ comment)
    | group node =>
      simp only [layItem] at laid
      obtain ⟨body, shown, rfl⟩ : ∃ body, Shown node.innerTrail body ∧
          pieces = .line level (remarked (opener (node.header.getD [])) node.openingComment) ::
            body ++ [.line level (remarked (closer node.trailer comma) node.closingComment)] := by
        split at laid
        · rename_i structured
          rw [bind_eq_ok] at laid
          obtain ⟨body, inner, done⟩ := laid
          cases done
          refine ⟨body, ?_, rfl⟩
          rw [Node.innerTrail_of_structured structured]
          exact Item.shown_ofChildren (shown_layItems (ih (level + 1)) inner)
        · rename_i unstructured
          cases laid
          refine ⟨_, ?_, rfl⟩
          rw [Node.innerTrail_of_unstructured (by simpa using unstructured)]
          exact shown_keptLines node _
      have opening := shown_line level (opener (node.header.getD [])) node.openingComment
      have closing := shown_line level (closer node.trailer comma) node.closingComment
      exact (opening.append shown).append closing

theorem shown_layPlainDefinition {options : Options} {node : Node} {pieces : List Piece}
    (laid : layPlainDefinition options node = .ok pieces) :
    Shown [.slot (node.openingComment.getD [])] pieces := by
  simp only [layPlainDefinition] at laid
  split at laid
  · cases laid
    exact shown_line node.level _ node.openingComment
  · rw [bind_eq_ok] at laid
    obtain ⟨body, inner, done⟩ := laid
    cases done
    refine .single (List.mem_append_right _ (List.mem_cons_self ..)) ?_
    exact infix_remarked _ node.openingComment

theorem shown_layGroupDefinition {options : Options} {node : Node} {pieces : List Piece}
    (laid : layGroupDefinition options node = .ok pieces) :
    Shown (if node.oneLine = some true then
        [.slot (node.openingComment.getD []), .slot (node.closingComment.getD [])]
      else node.groupTrail) pieces := by
  rw [layGroupDefinition_eq, bind_eq_ok] at laid
  obtain ⟨body, inner, done⟩ := laid
  cases done
  have opening := shown_line node.level (opener (definitionFront node)) node.openingComment
  have closing : Shown [.slot (node.closingComment.getD [])]
      [.line node.level (remarked (closer node.trailer false) node.closingComment), .gap] :=
    .single (List.mem_cons_self ..) (infix_remarked _ node.closingComment)
  unfold definitionBody at inner
  split at inner
  · rename_i oneLine
    rw [if_pos oneLine]
    exact opening.append (closing.widen body)
  · rename_i several
    rw [if_neg several]
    have shown : Shown node.innerTrail body := by
      split at inner
      · rename_i structured
        rw [Node.innerTrail_of_structured structured]
        exact Item.shown_ofChildren (shown_layItems (shown_layItem options _ _) inner)
      · rename_i unstructured
        cases inner
        rw [Node.innerTrail_of_unstructured (by simpa using unstructured)]
        exact shown_keptLines node _
    exact (opening.append shown).append closing

/-- The layout of a node below the root shows its cells. -/
theorem shown_layNode {options : Options} {node : Node} {pieces : List Piece}
    (laid : layNode options node = .ok pieces) : Shown node.itemTrail pieces := by
  have content : ∀ pieces : List Piece, node.kind ≠ .comment → node.kind ≠ .typeDefinition →
      Piece.line node.level node.content ∈ pieces → Shown node.itemTrail pieces := by
    intro pieces noComment single member
    rw [Node.itemTrail_of_line single, Node.cell, if_neg noComment]
    exact .single member (List.infix_refl _)
  unfold layNode at laid
  split at laid
  · rename_i kind
    cases laid
    exact content _ (by simp [kind]) (by simp [kind]) (List.mem_cons_self ..)
  · rename_i kind
    cases laid
    exact content _ (by simp [kind]) (by simp [kind]) (List.mem_cons_self ..)
  · rename_i kind
    cases laid
    exact content _ (by simp [kind]) (by simp [kind])
      (List.mem_cons_of_mem _ (List.mem_singleton_self _))
  · rename_i kind
    cases laid
    rw [Node.itemTrail_of_line (by simp [kind]), Node.cell, if_pos kind]
    exact .note (isNote_commentPiece node _) .nil
  · rename_i kind
    rw [Node.itemTrail, if_pos kind]
    by_cases plain : node.isPlain = true
    · rw [if_pos plain]
      rw [Node.isPlain] at plain
      rw [if_pos plain] at laid
      exact shown_layPlainDefinition laid
    · rw [if_neg plain]
      rw [Node.isPlain] at plain
      rw [if_neg plain] at laid
      exact shown_layGroupDefinition laid
  · rename_i noModule noBegin noEnd noComment noDefinition
    cases laid
    split
    · rename_i empty
      rw [Node.itemTrail_of_line noDefinition, Node.cell, if_neg noComment, empty]
      exact .single (List.mem_singleton_self _) List.nil_infix
    · exact content _ noComment noDefinition (List.mem_singleton_self _)

theorem shown_layNodes {options : Options} {nodes : List Node} {pieces : List Piece}
    (laid : layNodes options nodes = .ok pieces) : Shown (nodes.flatMap Node.itemTrail) pieces := by
  induction nodes generalizing pieces with
  | nil =>
    cases laid
    exact .nil
  | cons node later ih =>
    simp only [layNodes, bind_eq_ok] at laid
    obtain ⟨first, here, rest, there, done⟩ := laid
    cases done
    exact (shown_layNode here).append (ih there)

end Layout

/-! ## Rows of comments -/

namespace Text

theorem exists_line_of_infix {part t : Text} (inside : part <:+: t) (single : '\n' ∉ part) :
    ∃ line ∈ lines t, part <:+: line := by
  obtain ⟨front, back, rfl⟩ := inside
  induction front with
  | nil =>
    obtain ⟨line, later, cut⟩ := exists_lines back
    refine ⟨part ++ line, ?_, (List.prefix_append _ _).isInfix⟩
    rw [List.nil_append, lines_append_of_not_mem single, cut]
    exact List.mem_cons_self ..
  | cons c rest ih =>
    obtain ⟨line, member, inLine⟩ := ih
    rw [List.cons_append, List.cons_append, lines_cons]
    split
    · exact ⟨line, List.mem_cons_of_mem _ member, inLine⟩
    · cases cut : lines (rest ++ part ++ back) with
      | nil => exact absurd cut (lines_ne_nil _)
      | cons first later =>
        rw [cut] at member
        rcases List.mem_cons.mp member with rfl | inLater
        · exact ⟨c :: line, List.mem_cons_self .., inLine.trans (List.suffix_cons _ _).isInfix⟩
        · exact ⟨line, List.mem_cons_of_mem _ inLater, inLine⟩

theorem isBlankText_of_isInfix {part whole : Text} (inside : part <:+: whole)
    (seen : isBlankText part = false) : isBlankText whole = false := by
  rw [isBlankText, List.all_eq_false] at seen ⊢
  obtain ⟨c, member, solid⟩ := seen
  exact ⟨c, inside.subset member, solid⟩

theorem isBlankText_cons {c : Char} (rest : Text) (solid : isBlank c = false) :
    isBlankText (c :: rest) = false := by
  simp [isBlankText, solid]

end Text

theorem Piece.infix_row (width : Int) (piece : Piece) : piece.written <:+: piece.row width := by
  cases piece with
  | line level text => exact (List.suffix_append _ _).isInfix
  | verbatim text => exact List.infix_refl _
  | gap => exact List.infix_refl _

namespace Layout

def text (options : Options) (nodes : List Node) : Except Fault Text := do
  let pieces ← layNodes options nodes
  return Piece.assemble options.indentWidth pieces

theorem text_eq_ok {options : Options} {nodes : List Node} {out : Text} :
    text options nodes = .ok out ↔ ∃ pieces, layNodes options nodes = .ok pieces ∧
      out = Piece.assemble options.indentWidth pieces := by
  rw [text, bind_eq_ok]
  constructor
  · rintro ⟨pieces, laid, done⟩
    exact ⟨pieces, laid, (Except.ok.inj done).symm⟩
  · rintro ⟨pieces, laid, rfl⟩
    exact ⟨pieces, laid, rfl⟩

/-- A comment behind code stands in a line of the text. -/
theorem exists_row_of_slot {options : Options} {nodes : List Node} {out : Text} {c : Char}
    {rest : Text} (laid : text options nodes = .ok out)
    (occur : Cell.Occur [.slot (c :: rest)] (nodes.flatMap Node.itemTrail))
    (solid : Text.isBlank c = false) (single : '\n' ∉ c :: rest) :
    ∃ row ∈ Text.seenLines out, c :: rest <:+: row := by
  obtain ⟨pieces, laidNodes, rfl⟩ := text_eq_ok.mp laid
  obtain ⟨kept, within, inTrail⟩ := occur
  cases within with
  | cons here later =>
    cases later
    have member := inTrail.subset (List.mem_singleton_self _)
    obtain ⟨piece, inPieces, inside⟩ := (shown_layNodes laidNodes).of_mem member solid here
    obtain ⟨row, inRow, found⟩ := Text.exists_line_of_infix
      (inside.trans (piece.infix_row options.indentWidth)) single
    refine ⟨row, ?_, found⟩
    rw [Piece.seenLines_assemble, List.mem_flatMap]
    refine ⟨piece, inPieces, List.mem_filter.mpr ⟨inRow, ?_⟩⟩
    simp [Text.isBlankText_of_isInfix found (Text.isBlankText_cons rest solid)]

theorem shown_notes {first : Text} {later : List Text} {pieces : List Piece}
    (shown : Shown (.note first false :: later.map (.note · true)) pieces) :
    ∃ level, pieces = .line level first :: later.map .verbatim := by
  have verbatim : ∀ (later : List Text) (pieces : List Piece),
      Shown (later.map (.note · true)) pieces → pieces = later.map .verbatim := by
    intro later
    induction later with
    | nil =>
      intro pieces shown
      cases shown
      rfl
    | cons line rest ih =>
      intro pieces shown
      cases shown with
      | note isNote behind => rw [ih _ behind, isNote, List.map_cons]
  cases shown with
  | note isNote behind =>
    obtain ⟨level, rfl⟩ := isNote
    exact ⟨level, by rw [verbatim later _ behind]⟩

theorem forall₂_within_notes {first : Text} {later : List Text} {kept : List Cell}
    (within : List.Forall₂ Cell.Within (.note first false :: later.map (.note · true)) kept) :
    kept = .note first false :: later.map (.note · true) := by
  have same : ∀ (later : List Text) (kept : List Cell),
      List.Forall₂ Cell.Within (later.map (.note · true)) kept →
        kept = later.map (.note · true) := by
    intro later
    induction later with
    | nil =>
      intro kept within
      cases within
      rfl
    | cons line rest ih =>
      intro kept within
      cases within with
      | cons here behind =>
        cases here
        rw [ih _ behind, List.map_cons]
  cases within with
  | cons here behind =>
    cases here
    rw [same later _ behind]

/-- Comment lines that follow each other are lines of the text that follow each other, apart from
empty lines behind two empty ones. -/
theorem infix_lines_of_notes {options : Options} {nodes : List Node} {out first : Text}
    {later : List Text} (laid : text options nodes = .ok out)
    (occur : Cell.Occur (.note first false :: later.map (.note · true))
      (nodes.flatMap Node.itemTrail))
    (single : ∀ line ∈ first :: later, '\n' ∉ line) (seen : Text.isBlankText first = false)
    (ends : ∀ last, later.getLast? = some last → Text.isBlankText last = false) :
    ∃ width, (Text.spaces width ++ first) :: Text.cutGaps 0 later <:+: Text.lines out := by
  obtain ⟨pieces, laidNodes, rfl⟩ := text_eq_ok.mp laid
  obtain ⟨kept, within, front, back, whole⟩ := occur
  rw [forall₂_within_notes within] at whole
  have shown := shown_layNodes laidNodes
  rw [← whole] at shown
  obtain ⟨upper, lower, rfl, shown, -⟩ := shown.split
  obtain ⟨above, inside, rfl, -, shown⟩ := shown.split
  obtain ⟨level, rfl⟩ := shown_notes shown
  have indentation : '\n' ∉ Text.spaces (level * options.indentWidth) := by
    simp [Text.spaces, List.mem_replicate]
  have seen' : Text.isBlankText (Text.spaces (level * options.indentWidth) ++ first) = false :=
    Text.isBlankText_of_isInfix (List.suffix_append _ _).isInfix seen
  refine ⟨level * options.indentWidth, ?_⟩
  have rows : (Piece.line level first :: later.map .verbatim).map (Piece.row options.indentWidth) =
      (Text.spaces (level * options.indentWidth) ++ first) :: later := by
    simp [Piece.row, Piece.indented, Function.comp_def]
  obtain ⟨last, isLast, seenLast⟩ : ∃ last, ((Text.spaces (level * options.indentWidth) ++ first) ::
      later).getLast? = some last ∧ Text.isBlankText last = false := by
    cases found : later.getLast? with
    | none =>
      rw [List.getLast?_eq_none_iff.mp found]
      exact ⟨_, rfl, seen'⟩
    | some last =>
      refine ⟨last, ?_, ends last found⟩
      rw [List.getLast?_cons, found]
      rfl
  refine Piece.infix_lines_assemble options.indentWidth (List.infix_append above _ lower) ?_ ?_ rows
    isLast seen' seenLast
  · intro piece member
    rcases List.mem_cons.mp member with rfl | inLater
    · simp
    · obtain ⟨line, -, rfl⟩ := List.mem_map.mp inLater
      simp
  · intro piece member
    rcases List.mem_cons.mp member with rfl | inLater
    · rw [Piece.row, Piece.indented, List.mem_append, not_or]
      exact ⟨indentation, single first (List.mem_cons_self ..)⟩
    · obtain ⟨line, inLines, rfl⟩ := List.mem_map.mp inLater
      exact single line (List.mem_cons_of_mem _ inLines)

end Layout

end AsnLayout
