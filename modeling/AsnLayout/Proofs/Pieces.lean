import AsnLayout.Proofs.QuotedLayout

/-!
# Pieces of a layout

A layout is made from few kinds of lines: comments, plain lines, members with their commas and
comments, and the lines that open and close a group.  What holds of each of these holds of every
piece that is laid out, however deep the groups are nested.
-/

set_option autoImplicit false

namespace AsnLayout

namespace Layout

/-! ## Items -/

/-- Items of a kind are laid out on pieces of a kind: each line that is made of such an item is such a
piece, and what stands in its group are such items again. -/
structure Makes (item : Item → Prop) (piece : Piece → Prop) : Prop where
  remark {node : Node} (level : Int) (good : item (.remark node)) : piece (commentPiece node level)
  plain {text : Text} (level : Int) (good : item (.plain text)) : piece (.line level text)
  member {text : Text} {comment : Option Text} (level : Int) (comma : Bool)
    (good : item (.member text comment)) :
    piece (.line level (remarked (withComma text comma) comment))
  expanded {text : Text} {comment : Option Text} {group : InlineGroup} (level : Int) (comma : Bool)
    (good : item (.member text comment)) (found : inlineGroup? [] text = some group) :
    piece (.line level (opener group.header)) ∧
      (∀ part ∈ group.members, item (.member part none)) ∧
      piece (.line level (remarked (closer group.trailer comma) comment))
  group {node : Node} (level : Int) (comma : Bool) (good : item (.group node)) :
    piece (.line level (remarked (opener (node.header.getD [])) node.openingComment)) ∧
      piece (.line level (remarked (closer node.trailer comma) node.closingComment))
  children {node : Node} (good : item (.group node)) (structured : node.isStructured = true) :
    ∀ child ∈ node.children.flatMap Item.ofChild, item child
  kept {node : Node} (good : item (.group node)) (plain : node.isStructured = false) (level : Int) :
    ∀ made ∈ keptLines node level, piece made

variable {options : Options} {item : Item → Prop} {piece : Piece → Prop}

theorem forall_around {pieces later : List Piece} {opening closing : Piece} (start : piece opening)
    (all : ∀ made ∈ pieces, piece made) (stop : piece closing) (behind : ∀ made ∈ later, piece made) :
    ∀ made ∈ opening :: pieces ++ closing :: later, piece made :=
  List.forall_mem_append.mpr
    ⟨List.forall_mem_cons.mpr ⟨start, all⟩, List.forall_mem_cons.mpr ⟨stop, behind⟩⟩

theorem forall_layItems {lay : Bool → Item → Except Fault (List Piece)} {items : List Item}
    {pieces : List Piece}
    (each : ∀ comma given pieces, item given → lay comma given = .ok pieces →
      ∀ made ∈ pieces, piece made)
    (all : ∀ given ∈ items, item given) (laid : layItems lay items = .ok pieces) :
    ∀ made ∈ pieces, piece made := by
  induction items generalizing pieces with
  | nil =>
    cases laid
    simp
  | cons first later ih =>
    obtain ⟨isHere, isThere⟩ := List.forall_mem_cons.mp all
    simp only [layItems, bind_eq_ok] at laid
    obtain ⟨early, here, late, there, done⟩ := laid
    cases done
    exact List.forall_mem_append.mpr ⟨each _ _ _ isHere here, ih isThere there⟩

theorem forall_inline {texts : List Text} (all : ∀ part ∈ texts, item (.member part none)) :
    ∀ given ∈ texts.map (Item.member · none), item given := by
  intro given member
  obtain ⟨part, there, rfl⟩ := List.mem_map.mp member
  exact all part there

namespace Makes

variable (makes : Makes item piece)

include makes

/-- An item is laid out on pieces of its kind, with room for groups inside of each other. -/
theorem layItem (room : Nat) : ∀ (level : Int) (comma : Bool) (given : Item) (pieces : List Piece),
    item given → Layout.layItem options room level comma given = .ok pieces →
      ∀ made ∈ pieces, piece made := by
  induction room with
  | zero =>
    intro level comma given pieces good laid
    cases given with
    | member text comment => simp [Layout.layItem] at laid
    | group node => simp [Layout.layItem] at laid
    | remark node =>
      cases laid
      exact List.forall_mem_singleton.mpr (makes.remark level good)
    | plain text =>
      cases laid
      exact List.forall_mem_singleton.mpr (makes.plain level good)
  | succ room ih =>
    intro level comma given pieces good laid
    cases given with
    | remark node =>
      cases laid
      exact List.forall_mem_singleton.mpr (makes.remark level good)
    | plain text =>
      cases laid
      exact List.forall_mem_singleton.mpr (makes.plain level good)
    | member text comment =>
      simp only [Layout.layItem] at laid
      split at laid
      · cases laid
        exact List.forall_mem_singleton.mpr (makes.member level comma good)
      · rename_i group expands
        rw [bind_eq_ok] at laid
        obtain ⟨body, laidBody, done⟩ := laid
        cases done
        obtain ⟨opens, members, closes⟩ :=
          makes.expanded level comma good (inlineGroup?_of_groupToExpand? expands)
        exact forall_around opens
          (forall_layItems (ih (level + 1)) (forall_inline members) laidBody) closes (by simp)
    | group node =>
      obtain ⟨opens, closes⟩ := makes.group level comma good
      simp only [Layout.layItem] at laid
      split at laid
      · rename_i structured
        rw [bind_eq_ok] at laid
        obtain ⟨body, laidBody, done⟩ := laid
        cases done
        exact forall_around opens
          (forall_layItems (ih (level + 1)) (makes.children good structured) laidBody) closes (by simp)
      · rename_i plain
        cases laid
        exact forall_around opens (makes.kept good (by simpa using plain) _) closes (by simp)

theorem layBody {level : Int} {items : List Item} {pieces : List Piece}
    (all : ∀ given ∈ items, item given) (laid : Layout.layBody options level items = .ok pieces) :
    ∀ made ∈ pieces, piece made :=
  forall_layItems (makes.layItem _ level) all laid

/-! ## Definitions -/

theorem layPlainDefinition {node : Node} {pieces : List Piece} (gap : piece .gap)
    (single : piece (.line node.level
      (remarked (assignment node ++ ' ' :: node.header.getD []) node.openingComment)))
    (wrapped : ∀ group, inlineGroup? (assignment node) (node.header.getD []) = some group →
      piece (.line node.level (opener group.header)) ∧
        (∀ part ∈ group.members, item (.member part none)) ∧
        piece (.line node.level (remarked (closer group.trailer false) node.openingComment)))
    (laid : Layout.layPlainDefinition options node = .ok pieces) : ∀ made ∈ pieces, piece made := by
  simp only [Layout.layPlainDefinition] at laid
  split at laid
  · cases laid
    exact List.forall_mem_singleton.mpr single
  · rename_i group found
    rw [bind_eq_ok] at laid
    obtain ⟨body, laidBody, done⟩ := laid
    cases done
    have found : inlineGroup? (assignment node) (node.header.getD []) = some group := by
      split at found
      · exact found
      · cases found
    obtain ⟨opens, members, closes⟩ := wrapped group found
    exact forall_around opens (makes.layBody (forall_inline members) laidBody) closes
      (List.forall_mem_singleton.mpr gap)

theorem layGroupDefinition {node : Node} {pieces : List Piece} (gap : piece .gap)
    (opens : piece (.line node.level (remarked (opener (definitionFront node)) node.openingComment)))
    (inline : ∀ part ∈ node.inlineMembers.getD [], item (.member part none))
    (children : node.isStructured = true → ∀ child ∈ node.children.flatMap Item.ofChild, item child)
    (kept : node.isStructured = false → ∀ made ∈ keptLines node (node.level + 1), piece made)
    (closes : piece (.line node.level (remarked (closer node.trailer false) node.closingComment)))
    (laid : Layout.layGroupDefinition options node = .ok pieces) : ∀ made ∈ pieces, piece made := by
  rw [layGroupDefinition_eq, bind_eq_ok] at laid
  obtain ⟨body, laidBody, done⟩ := laid
  cases done
  refine forall_around opens ?_ closes (List.forall_mem_singleton.mpr gap)
  unfold definitionBody at laidBody
  split at laidBody
  · exact makes.layBody (forall_inline inline) laidBody
  · split at laidBody
    · rename_i structured
      exact makes.layBody (children structured) laidBody
    · rename_i plain
      cases laidBody
      exact kept (by simpa using plain)

end Makes

/-! ## Schemas -/

theorem forall_layNodes {nodes : List Node} {pieces : List Piece} {node : Node → Prop}
    (each : ∀ given pieces, node given → layNode options given = .ok pieces →
      ∀ made ∈ pieces, piece made)
    (all : ∀ given ∈ nodes, node given) (laid : layNodes options nodes = .ok pieces) :
    ∀ made ∈ pieces, piece made := by
  induction nodes generalizing pieces with
  | nil =>
    cases laid
    simp
  | cons first later ih =>
    obtain ⟨isHere, isThere⟩ := List.forall_mem_cons.mp all
    simp only [layNodes, bind_eq_ok] at laid
    obtain ⟨early, here, late, there, done⟩ := laid
    cases done
    exact List.forall_mem_append.mpr ⟨each _ _ isHere here, ih isThere there⟩

end Layout

end AsnLayout
