import AsnLayout.Layout.Document
import AsnLayout.Proofs.Core
import AsnLayout.Proofs.Rows

/-!
# What a layout shows

The outline of a layout is its pieces without those that are passed over.  Trees that differ in line
numbers and lines that are passed over only have layouts with the same outline, or none of them has
a layout.
-/

set_option autoImplicit false

namespace AsnLayout

/-! ## Pieces that are passed over -/

namespace Sieve

def keptLines (sieve : Sieve) (t : Text) : List Text := (Text.lines t).filter (!sieve.drops ·)

/-- Of the lines that are not passed over none is blank. -/
theorem keptLines_eq_filter_seenLines (sieve : Sieve) (t : Text) :
    sieve.keptLines t = (Text.seenLines t).filter (!sieve.drops ·) := by
  rw [Text.seenLines, List.filter_filter]
  refine List.filter_congr fun line _ => ?_
  cases blank : Text.isBlankText line with
  | true => simp [sieve.blank blank]
  | false => simp

theorem keptLines_of_drops {sieve : Sieve} {t : Text} (dropped : sieve.drops t = true) :
    sieve.keptLines t = [] := by
  rw [keptLines, List.filter_eq_nil_iff]
  intro line member
  simp [sieve.lines dropped member]

end Sieve

namespace Piece

variable {sieve : Sieve}

def isFaint (sieve : Sieve) : Piece → Bool
  | line _ text | verbatim text => sieve.drops text
  | gap => true

theorem drops_row {piece : Piece} (faint : piece.isFaint sieve = true) (width : Int) :
    sieve.drops (piece.row width) = true := by
  cases piece with
  | line level text =>
    have spaces : Text.isBlankText (Text.spaces (level * width)) = true := by
      simp only [Text.isBlankText, Text.spaces, List.all_replicate]
      split
      · rfl
      · decide
    rw [Piece.row, Piece.indented, sieve.drops_of_trim (Text.trim_append_of_blank spaces text)]
    exact faint
  | verbatim text => exact faint
  | gap => exact sieve.blank rfl

def seen (sieve : Sieve) (pieces : List Piece) : List Piece := pieces.filter (!·.isFaint sieve)

theorem seen_append (front back : List Piece) :
    seen sieve (front ++ back) = seen sieve front ++ seen sieve back :=
  List.filter_append ..

theorem keptLines_assemble (width : Int) (pieces : List Piece) :
    sieve.keptLines (assemble width pieces) =
      (seen sieve pieces).flatMap fun piece => sieve.keptLines (piece.row width) := by
  rw [sieve.keptLines_eq_filter_seenLines, seenLines_assemble, List.filter_flatMap]
  induction pieces with
  | nil => rfl
  | cons piece later ih =>
    rw [List.flatMap_cons, ih, ← sieve.keptLines_eq_filter_seenLines, seen, seen, List.filter_cons]
    cases faint : piece.isFaint sieve with
    | true =>
      rw [Sieve.keptLines_of_drops (drops_row faint width)]
      rfl
    | false => rfl

end Piece

namespace Layout

variable {sieve : Sieve}

/-- The pieces of a layout that are not passed over, if there is a layout. -/
def outline (sieve : Sieve) (laid : Except Fault (List Piece)) : Option (List Piece) :=
  laid.toOption.map (Piece.seen sieve)

theorem outline_ok (pieces : List Piece) :
    outline sieve (.ok pieces) = some (Piece.seen sieve pieces) := rfl

theorem outline_append (front back : Except Fault (List Piece)) :
    outline sieve (do
      let pieces ← front
      let rest ← back
      return pieces ++ rest) =
    (do
      let pieces ← outline sieve front
      let rest ← outline sieve back
      return pieces ++ rest) := by
  cases front with
  | error fault => rfl
  | ok pieces =>
    cases back with
    | error fault => rfl
    | ok rest => exact congrArg some (Piece.seen_append pieces rest)

theorem outline_append_congr {front front' back back' : Except Fault (List Piece)}
    (fronts : outline sieve front = outline sieve front')
    (backs : outline sieve back = outline sieve back') :
    outline sieve (do
      let pieces ← front
      let rest ← back
      return pieces ++ rest) =
    outline sieve (do
      let pieces ← front'
      let rest ← back'
      return pieces ++ rest) := by
  rw [outline_append, outline_append, fronts, backs]

theorem outline_around {inner inner' : Except Fault (List Piece)}
    (same : outline sieve inner = outline sieve inner') (opening : Piece) (closing : List Piece) :
    outline sieve (do
      let body ← inner
      return opening :: body ++ closing) =
    outline sieve (do
      let body ← inner'
      return opening :: body ++ closing) := by
  have wrapped : ∀ laid : Except Fault (List Piece), outline sieve (do
      let body ← laid
      return opening :: body ++ closing) =
      (outline sieve laid).map fun body =>
        Piece.seen sieve [opening] ++ body ++ Piece.seen sieve closing := by
    intro laid
    cases laid with
    | error fault => rfl
    | ok body =>
      have cut := @Piece.seen_append sieve ([opening] ++ body) closing
      rw [Piece.seen_append [opening] body] at cut
      exact congrArg some cut
  rw [wrapped, wrapped, same]

end Layout

/-! ## Nodes in step -/

inductive Node.AlikeAll (sieve : Sieve) : List Node → List Node → Prop where
  | done : AlikeAll sieve [] []
  | left {node : Node} {rest nodes : List Node} (faint : node.isFaint sieve = true)
      (later : AlikeAll sieve rest nodes) : AlikeAll sieve (node :: rest) nodes
  | right {node : Node} {nodes rest : List Node} (faint : node.isFaint sieve = true)
      (later : AlikeAll sieve nodes rest) : AlikeAll sieve nodes (node :: rest)
  | both {node node' : Node} {rest rest' : List Node} (alike : node.Alike sieve node')
      (later : AlikeAll sieve rest rest') : AlikeAll sieve (node :: rest) (node' :: rest')

theorem Node.alikeAll_of_coreAll {sieve : Sieve} {nodes nodes' : List Node}
    (same : coreAll sieve nodes = coreAll sieve nodes') :
    AlikeAll sieve nodes nodes' := by
  induction nodes generalizing nodes' with
  | nil =>
    induction nodes' with
    | nil => exact .done
    | cons node' rest' ih =>
      rw [coreAll_cons, coreAll_nil] at same
      split at same
      · rename_i faint
        exact .right faint (ih (coreAll_nil.trans same))
      · cases same
  | cons node rest ih =>
    cases faint : node.isFaint sieve with
    | true =>
      rw [coreAll_cons, if_pos faint] at same
      exact .left faint (ih same)
    | false =>
      rw [coreAll_cons, if_neg (by simp [faint])] at same
      -- The partner of a node stands behind the faint nodes of the other side.
      induction nodes' with
      | nil =>
        rw [coreAll_nil] at same
        cases same
      | cons node' rest' ih' =>
        rw [coreAll_cons] at same
        split at same
        · rename_i faint'
          exact .right faint' (ih' same)
        · obtain ⟨cores, later⟩ := List.cons.inj same
          exact .both (alike_iff.mpr cores) (ih later)

/-! ## Members -/

namespace Layout

variable {sieve : Sieve}

theorem commentPiece_alike {node node' : Node} (alike : node.Alike sieve node') (level : Int) :
    commentPiece node level = commentPiece node' level :=
  alike.same (commentPiece · level) fun _ => rfl

theorem isFaint_commentPiece {node : Node} (dropped : sieve.drops node.content = true)
    (level : Int) : (commentPiece node level).isFaint sieve = true := by
  unfold commentPiece
  split <;> exact dropped

/-- A line of an unstructured group that is passed over is a piece that is passed over. -/
theorem seen_map_alike {nodes nodes' : List Node} {piece : Node → Piece}
    (alike : Node.AlikeAll sieve nodes nodes')
    (faint : ∀ node : Node, node.isFaint sieve = true → (piece node).isFaint sieve = true)
    (same : ∀ node node' : Node, node.Alike sieve node' → piece node = piece node') :
    Piece.seen sieve (nodes.map piece) = Piece.seen sieve (nodes'.map piece) := by
  induction alike with
  | done => rfl
  | left dropped later ih =>
    rw [← ih, List.map_cons, Piece.seen, List.filter_cons, faint _ dropped]
    rfl
  | right dropped later ih =>
    rw [ih, List.map_cons, Piece.seen, Piece.seen, List.filter_cons, faint _ dropped]
    rfl
  | both alike later ih =>
    rw [List.map_cons, List.map_cons, same _ _ alike, ← List.singleton_append, Piece.seen_append,
      ih, ← Piece.seen_append, List.singleton_append]

theorem outline_keptLines {node node' : Node} (alike : node.Alike sieve node') (level : Int) :
    outline sieve (.ok (keptLines node level)) = outline sieve (.ok (keptLines node' level)) := by
  rw [outline_ok, outline_ok, keptLines, keptLines, alike.level]
  refine congrArg some (seen_map_alike (Node.alikeAll_of_coreAll alike.children) ?_ ?_)
  · intro child faint
    have dropped := (Bool.and_eq_true_iff.mp faint).2
    simp only
    split
    · exact isFaint_commentPiece dropped _
    · exact dropped
  · intro child child' same
    simp only [same.kind, same.level, same.content, commentPiece_alike same]

/-! ## Items -/

section

variable {lay : Bool → Item → Except Fault (List Piece)}

theorem outline_layItems_cons {item item' : Item} {items items' : List Item}
    (member : items.any Item.isMember = items'.any Item.isMember)
    (same : ∀ comma, outline sieve (lay comma item) = outline sieve (lay comma item'))
    (later : outline sieve (layItems lay items) = outline sieve (layItems lay items')) :
    outline sieve (layItems lay (item :: items)) =
      outline sieve (layItems lay (item' :: items')) := by
  rw [layItems, layItems, member]
  exact outline_append_congr (same _) later

theorem outline_layItems_prepend (front : List Item) {items items' : List Item}
    (member : items.any Item.isMember = items'.any Item.isMember)
    (later : outline sieve (layItems lay items) = outline sieve (layItems lay items')) :
    outline sieve (layItems lay (front ++ items)) =
      outline sieve (layItems lay (front ++ items')) := by
  induction front with
  | nil => exact later
  | cons item rest ih =>
    have members : (rest ++ items).any Item.isMember = (rest ++ items').any Item.isMember := by
      rw [List.any_append, List.any_append, member]
    exact outline_layItems_cons members (fun _ => rfl) ih

theorem outline_layItems_faint {item : Item} {items : List Item}
    (dropped : ∀ comma, outline sieve (lay comma item) = some []) :
    outline sieve (layItems lay (item :: items)) = outline sieve (layItems lay items) := by
  rw [layItems, outline_append, dropped]
  cases outline sieve (layItems lay items) <;> rfl

end

theorem ofChild_faint {node : Node} (faint : node.isFaint sieve = true) :
    ∃ item, Item.ofChild node = [item] ∧ item.isMember = false ∧
      ∀ options room level comma,
        outline sieve (layItem options room level comma item) = some [] := by
  obtain ⟨kind, dropped⟩ := Bool.and_eq_true_iff.mp faint
  have noField : node.isField = false := by
    unfold Node.isField
    rcases Bool.or_eq_true_iff.mp kind with comment | other
    · simp [of_decide_eq_true comment]
    · simp [of_decide_eq_true other]
  unfold Item.ofChild
  rw [if_neg (by simp [Node.spansLines, noField]), if_neg (by simp [noField])]
  split
  · refine ⟨_, rfl, rfl, fun options room level comma => ?_⟩
    have hidden := isFaint_commentPiece dropped level
    simp [layItem, outline_ok, Piece.seen, hidden]
  · refine ⟨_, rfl, rfl, fun options room level comma => ?_⟩
    have hidden : (Piece.line level node.content).isFaint sieve = true := dropped
    simp [layItem, outline_ok, Piece.seen, hidden]

/-- The items of alike nodes are the same, unless they hold the nodes. -/
theorem ofChild_alike {node node' : Node} (alike : node.Alike sieve node') :
    (Item.ofChild node = [.group node] ∧ Item.ofChild node' = [.group node']) ∨
      (Item.ofChild node = [.remark node] ∧ Item.ofChild node' = [.remark node']) ∨
      Item.ofChild node = Item.ofChild node' := by
  have spans := alike.same Node.spansLines fun _ => rfl
  have field : node.isField = node'.isField := by rw [Node.isField, Node.isField, alike.kind]
  unfold Item.ofChild
  rw [spans, field, alike.kind, alike.content, alike.openingComment]
  split
  · exact .inl ⟨rfl, rfl⟩
  · split
    · exact .inr (.inr rfl)
    · split
      · exact .inr (.inl ⟨rfl, rfl⟩)
      · exact .inr (.inr rfl)

theorem any_isMember_ofChild {nodes nodes' : List Node} (alike : Node.AlikeAll sieve nodes nodes') :
    (nodes.flatMap Item.ofChild).any Item.isMember =
      (nodes'.flatMap Item.ofChild).any Item.isMember := by
  induction alike with
  | done => rfl
  | left faint later ih =>
    obtain ⟨item, single, other, -⟩ := ofChild_faint faint
    rw [List.flatMap_cons, single, List.singleton_append, List.any_cons, other, Bool.false_or, ih]
  | right faint later ih =>
    obtain ⟨item, single, other, -⟩ := ofChild_faint faint
    rw [List.flatMap_cons, single, List.singleton_append, List.any_cons, other, Bool.false_or, ih]
  | both alike later ih =>
    rw [List.flatMap_cons, List.flatMap_cons, List.any_append, List.any_append, ih]
    rcases ofChild_alike alike with ⟨items, items'⟩ | ⟨items, items'⟩ | same
    · rw [items, items']
      rfl
    · rw [items, items']
      rfl
    · rw [same]

/-- The children of alike groups are laid out alike, if inner groups are. -/
theorem outline_layItems_ofChild {options : Options} {room : Nat} {level : Int}
    {nodes nodes' : List Node} (alike : Node.AlikeAll sieve nodes nodes')
    (inner : ∀ (comma : Bool) (node node' : Node), node.Alike sieve node' →
      outline sieve (layItem options room level comma (.group node)) =
        outline sieve (layItem options room level comma (.group node'))) :
    outline sieve (layItems (layItem options room level) (nodes.flatMap Item.ofChild)) =
      outline sieve (layItems (layItem options room level) (nodes'.flatMap Item.ofChild)) := by
  induction alike with
  | done => rfl
  | left faint later ih =>
    obtain ⟨item, single, -, hidden⟩ := ofChild_faint faint
    rw [List.flatMap_cons, single, List.singleton_append,
      outline_layItems_faint (hidden options room level), ih]
  | right faint later ih =>
    obtain ⟨item, single, -, hidden⟩ := ofChild_faint faint
    rw [List.flatMap_cons, single, List.singleton_append,
      outline_layItems_faint (hidden options room level), ih]
  | both alike later ih =>
    have members := any_isMember_ofChild later
    rw [List.flatMap_cons, List.flatMap_cons]
    rcases ofChild_alike alike with ⟨items, items'⟩ | ⟨items, items'⟩ | same
    · rw [items, items']
      exact outline_layItems_cons members (fun comma => inner comma _ _ alike) ih
    · rw [items, items']
      refine outline_layItems_cons members (fun comma => ?_) ih
      simp only [layItem, commentPiece_alike alike]
    · rw [same]
      exact outline_layItems_prepend _ members ih

theorem outline_layItem_group {options : Options} {room : Nat} {level : Int} {comma : Bool}
    {node node' : Node} (alike : node.Alike sieve node') :
    outline sieve (layItem options room level comma (.group node)) =
      outline sieve (layItem options room level comma (.group node')) := by
  induction room generalizing level comma node node' with
  | zero => simp only [layItem]
  | succ room ih =>
    simp only [layItem, alike.header, alike.trailer, alike.openingComment, alike.closingComment,
      alike.isStructured]
    split
    · refine outline_around ?_ _ _
      exact outline_layItems_ofChild (Node.alikeAll_of_coreAll alike.children)
        fun comma _ _ alike => ih alike
    · exact outline_around (outline_keptLines alike (level + 1)) _ _

/-! ## Definitions -/

theorem layPlainDefinition_alike {node node' : Node} (alike : node.Alike sieve node')
    (options : Options) :
    layPlainDefinition options node = layPlainDefinition options node' :=
  alike.same (layPlainDefinition options) fun _ => rfl

theorem outline_layGroupDefinition {options : Options} {node node' : Node}
    (alike : node.Alike sieve node') :
    outline sieve (layGroupDefinition options node) =
      outline sieve (layGroupDefinition options node') := by
  unfold layGroupDefinition layBody assignment
  simp only [alike.name, alike.header, alike.level, alike.oneLine, alike.inlineMembers,
    alike.isStructured, alike.trailer, alike.openingComment, alike.closingComment]
  split
  · rfl
  · split
    · refine outline_around ?_ _ _
      exact outline_layItems_ofChild (Node.alikeAll_of_coreAll alike.children)
        fun comma _ _ alike => outline_layItem_group alike
    · exact outline_around (outline_keptLines alike _) _ _

theorem outline_layNode {options : Options} {node node' : Node} (alike : node.Alike sieve node') :
    outline sieve (layNode options node) = outline sieve (layNode options node') := by
  unfold layNode
  simp only [alike.kind, alike.level, alike.content, alike.oneLine, alike.isStructured,
    commentPiece_alike alike, layPlainDefinition_alike alike]
  split
  · rfl
  · rfl
  · rfl
  · rfl
  · split
    · rfl
    · exact outline_layGroupDefinition alike
  · rfl

theorem outline_layNode_faint {options : Options} {node : Node}
    (faint : node.isFaint sieve = true) :
    outline sieve (layNode options node) = some [] := by
  obtain ⟨kind, dropped⟩ := Bool.and_eq_true_iff.mp faint
  rcases Bool.or_eq_true_iff.mp kind with comment | other
  · have hidden := isFaint_commentPiece dropped node.level
    simp [layNode, of_decide_eq_true comment, outline_ok, Piece.seen, hidden]
  · have hidden : (Piece.line node.level node.content).isFaint sieve = true := dropped
    simp only [layNode, of_decide_eq_true other]
    split
    · rfl
    · simp [outline_ok, Piece.seen, hidden]

theorem outline_layNodes {options : Options} {nodes nodes' : List Node}
    (alike : Node.AlikeAll sieve nodes nodes') :
    outline sieve (layNodes options nodes) = outline sieve (layNodes options nodes') := by
  induction alike with
  | done => rfl
  | left faint later ih =>
    rw [layNodes, outline_append, outline_layNode_faint faint, ← ih]
    cases outline sieve (layNodes options _) <;> rfl
  | right faint later ih =>
    rw [layNodes, outline_append, outline_layNode_faint faint, ih]
    cases outline sieve (layNodes options _) <;> rfl
  | both alike later ih =>
    rw [layNodes, layNodes]
    exact outline_append_congr (outline_layNode alike) ih

end Layout

end AsnLayout
