import AsnLayout.Proofs.ShownItems

/-!
# Groups that are laid out upright

A member with a group inside of an open bracket comes apart when the group is laid out: the bracket is
closed on another line than it was opened on.  Where every group that is laid out stands outside of
brackets, the rows of the items build the items again, in a structured group and in one that keeps its
lines.
-/

set_option autoImplicit false

namespace AsnLayout

def Item.Phrased : Item → Prop
  | member text _ => text.IsMemberText
  | group _ | remark _ | plain _ => True

theorem Item.phrased_ofChildren {nodes : List Node} (titled : ∀ node ∈ nodes, node.Titled) :
    ∀ item ∈ nodes.flatMap Item.ofChild, item.Phrased := by
  intro item member
  obtain ⟨node, inNodes, inItems⟩ := List.mem_flatMap.mp member
  cases spans : node.spansLines with
  | true =>
    rw [ofChild, if_pos spans] at inItems
    rw [List.mem_singleton.mp inItems]
    trivial
  | false =>
    cases isField : node.isField with
    | true =>
      have isMember := (titled node inNodes).phrased.member isField spans
      rw [ofChild_member isField spans isMember] at inItems
      rw [List.mem_singleton.mp inItems]
      exact isMember
    | false =>
      rw [ofChild, if_neg (by simp [spans]), if_neg (by simp [isField])] at inItems
      split at inItems
      · rw [List.mem_singleton.mp inItems]
        trivial
      · rw [List.mem_singleton.mp inItems]
        trivial

theorem Item.phrased_members (t : Text) :
    ∀ item ∈ (Text.members t).map (Item.member · none), item.Phrased := by
  intro item inItems
  obtain ⟨text, inTexts, rfl⟩ := List.mem_map.mp inItems
  exact Text.isMemberText_members t text inTexts

structure Item.Ready (levels : Nat) (items : List Item) : Prop where
  series : ∃ held, Item.InSeries false items held false
  fits : ∀ item ∈ items, item.Fits levels
  phrased : ∀ item ∈ items, item.Phrased

theorem Item.ready_ofChildren {levels : Nat} {nodes : List Node} {held : Text}
    (series : Node.InSeries false nodes held false) (fits : ∀ node ∈ nodes, node.Fits levels)
    (titled : ∀ node ∈ nodes, node.Titled) : Item.Ready levels (nodes.flatMap Item.ofChild) :=
  ⟨⟨held, Item.series_ofChildren series⟩, Item.fits_ofChildren fits titled,
    Item.phrased_ofChildren titled⟩

theorem Item.ready_members {levels : Nat} {front t first second : Text}
    {group : Layout.InlineGroup} (hides : Text.Hides front first) (hides' : Text.Hides t second)
    (fit : Text.Fit levels t) (found : Layout.inlineGroup? front t = some group) :
    1 ≤ levels ∧ Item.Ready (levels - 1) (group.members.map (Item.member · none)) := by
  obtain ⟨_, _, positive, -, parts⟩ := fit.inlineGroup? found
  obtain ⟨_, second, _, -, -, members, -⟩ := Text.Hides.inlineGroup? hides hides' found
  obtain ⟨before, inside, after, -, -, -, -, listed, -⟩ :=
    Layout.inlineGroup?_eq_some _ _ _ found
  refine ⟨positive, ⟨second, Item.series_members members⟩, Item.fits_members parts.members, ?_⟩
  rw [listed]
  exact Item.phrased_members inside

theorem Text.isBlankText_withComma {t : Text} (seen : Text.isBlankText t = false) (comma : Bool) :
    Text.isBlankText (Layout.withComma t comma) = false := by
  cases comma with
  | false => exact seen
  | true =>
    rw [Layout.withComma, if_pos rfl, Text.isBlankText_append, seen]
    rfl

namespace Layout

open Piece (Builds)

/-! ## Upright items -/

def isPaired (t : Text) : Bool := Text.nest [] (Text.brackets t) = some []

def areUpright (upright : Bool → Item → Bool) : List Item → Bool
  | [] => true
  | item :: later => upright (later.any Item.isMember) item && areUpright upright later

/-- Whether no bracket is open before any group that is laid out of the text of a member. -/
def isUpright (options : Options) (room : Nat) (level : Int) (comma : Bool) (item : Item) : Bool :=
  match item, room with
  | .member text comment, room + 1 =>
    match groupToExpand? options level text (remarked (withComma text comma) comment) with
    | none => true
    | some group =>
      isPaired group.header && areUpright (isUpright options room (level + 1))
        (group.members.map (Item.member · none))
  | .group node, room + 1 =>
    !node.isStructured ||
      areUpright (isUpright options room (level + 1)) (node.children.flatMap Item.ofChild)
  | _, _ => true

variable {limits : Limits} {width base level : Int} {options : Options} {room : Nat}
  {comma : Bool} {below : List OpenGroup} {frame : Node} {inner left : List Char}
  {comment : Option Text} {t held : Text}

/-! ## Items in order -/

theorem builds_layItems {lay : Bool → Item → Except Fault (List Piece)}
    {upright : Bool → Item → Bool} {good : Item → Prop} {state : Bool → List Piece → Body → Prop}
    (comments : ∀ comma before item after pieces, Item.IsComment before item after →
      lay comma item = .ok pieces →
      Builds limits width before (state comma) pieces after (state comma))
    (codes : ∀ comma item held pieces, Item.Bears item held → good item →
      upright comma item = true → lay comma item = .ok pieces →
      item.isMember = true ∧ Builds limits width false (state true) pieces false (state comma))
    {items : List Item} {pieces : List Piece} {before after : Bool}
    (series : Item.InSeries before items held after) (all : ∀ item ∈ items, good item)
    (stand : areUpright upright items = true) (laid : layItems lay items = .ok pieces) :
    Builds limits width before (state (items.any Item.isMember)) pieces after (state false) := by
  induction series generalizing pieces with
  | done =>
    cases laid
    exact Piece.builds_nil
  | comment isComment later ih =>
    simp only [layItems, bind_eq_ok] at laid
    obtain ⟨first, here, rest, there, done⟩ := laid
    cases done
    rw [areUpright, Bool.and_eq_true] at stand
    have next := (comments _ _ _ _ _ isComment here).append
      (ih (List.forall_mem_cons.mp all).2 stand.2 there)
    cases isComment
    exact next
  | code bearing later ih =>
    simp only [layItems, bind_eq_ok] at laid
    obtain ⟨first, here, rest, there, done⟩ := laid
    cases done
    rw [areUpright, Bool.and_eq_true] at stand
    obtain ⟨one, all⟩ := List.forall_mem_cons.mp all
    obtain ⟨isMember, builds⟩ := codes _ _ _ _ bearing one stand.1 here
    rw [List.any_cons, isMember, Bool.true_or]
    exact builds.append (ih all stand.2 there)

/-! ## Groups that keep their lines -/

theorem remarked_eq_beside (filled : t ≠ []) (comment : Option Text) :
    remarked t comment = beside t comment := by
  cases comment with
  | none => rfl
  | some note => simp [remarked, beside, filled]

/-- A line at the level that the brackets before it ask for is kept there. -/
theorem builds_kept (hides : Text.Hides t held) (neat : Text.IsNeat t) (calm : Text.Calm t)
    (seen : Text.isBlankText t = false) (noted : IsNoted comment)
    (nested : Text.nest inner (Text.brackets t) = some left)
    (place : level = base + (inner.length - Text.closersAtStart t : Nat)) :
    Builds limits width false (Body.Retains below frame base inner)
      [.line level (remarked t comment)] false (Body.Retains below frame base left) := by
  have filled : t ≠ [] := by
    rintro rfl
    cases seen
  refine Piece.builds_line hides noted (Piece.newline_not_mem_remarked hides noted) rfl calm
    neat.trimmed seen level fun shown body number retains => ?_
  rw [remarked_eq_beside filled, place]
  exact retains.readCode neat.neat filled nested

theorem builds_keptAround {header trailer : Text} {comment' : Option Text} {body : List Piece}
    (opening : header.Tidy) (noted : IsNoted comment) (closing : trailer.Tidy)
    (noted' : IsNoted comment') (place : level = base + inner.length)
    (inside : Builds limits width false (Body.Retains below frame base ('}' :: inner)) body false
      (Body.Retains below frame base ('}' :: inner))) :
    Builds limits width false (Body.Retains below frame base inner)
      (.line level (remarked (opener header) comment) :: body ++
        [.line level (remarked (closer trailer comma) comment')]) false
      (Body.Retains below frame base inner) := by
  obtain ⟨_, hides⟩ := opening.hides
  obtain ⟨_, hides'⟩ := closing.hides
  have first : Builds limits width false (Body.Retains below frame base inner)
      [.line level (remarked (opener header) comment)] false
      (Body.Retains below frame base ('}' :: inner)) := by
    refine builds_kept hides.opener (opening.neat.opener opening.closed) opening.calm.opener
      (Text.isBlankText_opener _) noted ?_ ?_
    · rw [opening.brackets_opener, Text.nest_append, opening.nest]
      rfl
    · rw [opening.closersAtStart_opener, place]
      rfl
  have last : Builds limits width false (Body.Retains below frame base ('}' :: inner))
      [.line level (remarked (closer trailer comma) comment')] false
      (Body.Retains below frame base inner) := by
    refine builds_kept (hides'.closer comma) (closing.neat.closer closing.closed comma)
      (closing.calm.closer comma) (Text.isBlankText_closer ..) noted' ?_ ?_
    · rw [closing.brackets_closer]
      exact closing.nest inner
    · rw [closing.closersAtStart_closer, place, List.length_cons, Nat.add_sub_cancel]
  exact (first.append inside).append last

section

variable {levels : Nat} {pieces : List Piece}

theorem builds_keptMember
    (within : ∀ items body, level + 1 = base + ('}' :: inner).length →
      Item.Ready (levels - 1) items → (∀ item ∈ items, ∃ text, item = .member text none) →
      areUpright (isUpright options room (level + 1)) items = true →
      layItems (layItem options room (level + 1)) items = .ok body →
      Builds limits width false (Body.Retains below frame base ('}' :: inner)) body false
        (Body.Retains below frame base ('}' :: inner)))
    (place : level = base + inner.length) (hides : Text.Hides t held) (isMember : t.IsMemberText)
    (fit : Text.Fit levels t)
    (stand : isUpright options (room + 1) level comma (.member t none) = true)
    (laid : layItem options (room + 1) level comma (.member t none) = .ok pieces) :
    Builds limits width false (Body.Retains below frame base inner) pieces false
      (Body.Retains below frame base inner) := by
  have tidy := isMember.tidy hides fit
  simp only [layItem] at laid
  rw [isUpright] at stand
  split at laid
  · cases laid
    refine builds_kept (hides.withComma comma) (tidy.neat.withComma tidy.closed comma)
      (tidy.calm.withComma comma) (Text.isBlankText_withComma isMember.seen comma) isNoted_none ?_ ?_
    · rw [tidy.brackets_withComma]
      exact tidy.nest inner
    · rw [tidy.closersAtStart_withComma]
      exact place
  · rename_i group expands
    rw [bind_eq_ok] at laid
    obtain ⟨body, laidBody, done⟩ := laid
    cases done
    rw [expands, Bool.and_eq_true] at stand
    have found := inlineGroup?_of_groupToExpand? expands
    obtain ⟨header, trailer, -⟩ :=
      tidy.inlineGroup? isMember.form fit found (of_decide_eq_true stand.1)
    obtain ⟨-, ready⟩ := Item.ready_members .nil hides fit found
    have place' : level + 1 = base + ('}' :: inner).length := by
      rw [List.length_cons]
      omega
    exact builds_keptAround header isNoted_none trailer isNoted_none place
      (within _ body place' ready (by simp) stand.2 laidBody)

end

theorem builds_keptMembers (room : Nat) : ∀ (inner : List Char) (level : Int) (levels : Nat)
    (items : List Item) (pieces : List Piece), level = base + inner.length →
    Item.Ready levels items → (∀ item ∈ items, ∃ text, item = .member text none) →
    areUpright (isUpright options room level) items = true →
    layItems (layItem options room level) items = .ok pieces →
    Builds limits width false (Body.Retains below frame base inner) pieces false
      (Body.Retains below frame base inner) := by
  induction room with
  | zero =>
    intro inner level levels items pieces place ready members stand laid
    cases items with
    | nil =>
      cases laid
      exact Piece.builds_nil
    | cons item later =>
      obtain ⟨text, rfl⟩ := members item (List.mem_cons_self ..)
      simp [layItems, layItem, bind, Except.bind] at laid
  | succ room ih =>
    intro inner level levels items pieces place ready members stand laid
    obtain ⟨⟨held, series⟩, fits, phrased⟩ := ready
    let good (item : Item) : Prop :=
      (∃ text, item = .member text none) ∧ item.Phrased ∧ item.Fits levels
    have all : ∀ item ∈ items, good item := fun item member =>
      ⟨members item member, phrased item member, fits item member⟩
    refine @builds_layItems limits width held _ _ good (fun _ => Body.Retains below frame base inner)
      ?_ ?_ _ _ _ _ series all stand laid
    · rintro _ before _ after pieces ⟨isComment⟩ laid
      cases laid
      exact builds_keptRemark place isComment
    · rintro comma item held pieces bears ⟨⟨text, rfl⟩, phrased, fits⟩ stand laid
      cases bears with
      | member hides noted =>
        exact ⟨rfl, builds_keptMember (ih _ _ _) place hides phrased fits stand laid⟩

/-! ## Structured groups -/

/-- What is built in a group of one of the two kinds is built in the group. -/
theorem builds_displays {more : Bool} {body : List Piece}
    (structured : frame.isStructured = true → Builds limits width false
      (Body.Stands (layItem options room (level + 1)) below frame more) body false
      (Body.Stands (layItem options room (level + 1)) below frame false))
    (unstructured : frame.isStructured = false → Builds limits width false
      (Body.Retains below frame (level + 1) []) body false
      (Body.Retains below frame (level + 1) [])) :
    Builds limits width false (Body.Displays options room level below frame more) body false
      (Body.Displays options room level below frame false) := by
  have same : ∀ more, Body.Displays options room level below frame more =
      if frame.isStructured then Body.Stands (layItem options room (level + 1)) below frame more
      else Body.Retains below frame (level + 1) [] := by
    intro more
    funext shown body
    rw [Body.Displays]
    split <;> rfl
  rw [same, same]
  cases kind : frame.isStructured with
  | true => exact structured kind
  | false => exact unstructured kind

section

variable {levels : Nat} {pieces : List Piece}
  (within : ∀ (below : List OpenGroup) (frame : Node) (items : List Item) (body : List Piece),
    (below.length + 1 + (levels - 1 : Nat) : Int) ≤ limits.depth → Item.Ready (levels - 1) items →
    areUpright (isUpright options room (level + 1)) items = true →
    layItems (layItem options room (level + 1)) items = .ok body →
    Builds limits width false
      (Body.Stands (layItem options room (level + 1)) below frame (items.any Item.isMember)) body
      false (Body.Stands (layItem options room (level + 1)) below frame false))
  (deep : (below.length + 1 + levels : Int) ≤ limits.depth)

include within deep

theorem builds_member (hides : Text.Hides t held) (noted : IsNoted comment)
    (isMember : t.IsMemberText) (fit : Text.Fit levels t)
    (stand : isUpright options (room + 1) level comma (.member t comment) = true)
    (laid : layItem options (room + 1) level comma (.member t comment) = .ok pieces) :
    Builds limits width false (Body.Stands (layItem options (room + 1) level) below frame true)
      pieces false (Body.Stands (layItem options (room + 1) level) below frame comma) := by
  have tidy := isMember.tidy hides fit
  have again := laid
  simp only [layItem] at laid
  rw [isUpright] at stand
  split at laid
  · cases laid
    refine Piece.builds_line (hides.withComma comma) noted
      (Piece.newline_not_mem_remarked (hides.withComma comma) noted) rfl (tidy.calm.withComma comma)
      (tidy.neat.withComma tidy.closed comma).trimmed
      (Text.isBlankText_withComma isMember.seen comma) level fun shown body number stands => ?_
    exact stands.readMember isMember tidy.closed tidy.paired again
  · rename_i group expands
    rw [bind_eq_ok] at laid
    obtain ⟨body, laidBody, done⟩ := laid
    cases done
    rw [expands, Bool.and_eq_true] at stand
    have found := inlineGroup?_of_groupToExpand? expands
    obtain ⟨header, trailer, form⟩ :=
      tidy.inlineGroup? isMember.form fit found (of_decide_eq_true stand.1)
    obtain ⟨positive, ready⟩ := Item.ready_members .nil hides fit found
    refine builds_around header isNoted_none trailer form noted (by omega) fun inner =>
      builds_displays
        (fun structured => within _ _ _ body (by rw [List.length_cons]; omega) ready stand.2 laidBody)
        fun unstructured => ?_
    exact builds_keptMembers room [] (level + 1) _ _ body (by simp) ready (by simp) stand.2 laidBody

theorem builds_group {node : Node} (spans : node.spansLines = true) (bears : node.Bears held)
    (fits : Item.Fits levels (.group node))
    (stand : isUpright options (room + 1) level comma (.group node) = true)
    (laid : layItem options (room + 1) level comma (.group node) = .ok pieces) :
    Builds limits width false (Body.Stands (layItem options (room + 1) level) below frame true)
      pieces false (Body.Stands (layItem options (room + 1) level) below frame comma) := by
  obtain ⟨body, laidBody, rfl⟩ := layItem_group.mp laid
  cases bears with
  | member _ single => simp [single] at spans
  | line kind => simp [Node.spansLines, Node.isField, kind] at spans
  | @group _ first second third _ keeps header opening children trailer closing =>
    obtain ⟨fits, titled⟩ := fits
    cases fits with
    | comment kind => simp [Node.spansLines, Node.isField, kind] at spans
    | member _ single => simp [single] at spans
    | @group deeper _ _ fitHeader fitTrailer members lines =>
      obtain ⟨isField, several⟩ : node.isField = true ∧ node.oneLine = some false := by
        simpa [Node.spansLines] using spans
      obtain ⟨kind, uncut, neat, -, ends⟩ := titled.phrased
      obtain ⟨form, uncutTrailer⟩ := ends isField
      have tidyHeader : (node.header.getD []).Tidy := ⟨⟨first, header⟩,
        Text.isNeat_of_neat (neat spans) fitHeader.calm, fitHeader.calm, fitHeader.paired.nest,
        uncut spans⟩
      have tidyTrailer : node.trailer.Tidy := ⟨⟨third, trailer⟩,
        Text.isNeat_of_neat (Text.neat_of_memberForm form).1 fitTrailer.calm, fitTrailer.calm,
        fitTrailer.paired.nest, uncutTrailer⟩
      refine builds_around tidyHeader opening tidyTrailer form closing (by omega) fun inner =>
        @builds_displays limits width level options room _ _
          ((node.children.flatMap Item.ofChild).any Item.isMember) body (fun structured => ?_)
          fun unstructured => ?_
      · have structured : node.isStructured = true := by
          rw [Node.isStructured, kind spans]
          exact structured
        rw [layGroup, if_pos structured] at laidBody
        rw [isUpright, structured] at stand
        exact within _ _ _ body (by rw [List.length_cons]; omega) (Item.ready_ofChildren children
          (members structured) titled.children) stand laidBody
      · have unstructured : node.isStructured = false := by
          rw [Node.isStructured, kind spans]
          exact unstructured
        rw [layGroup, if_neg (by simp [unstructured])] at laidBody
        cases laidBody
        exact builds_keptLines children (keeps unstructured) (lines unstructured)
          (titled.lines several unstructured) (level + 1)

end

theorem builds_remark {node : Node} {more before after : Bool}
    (isComment : node.IsComment before after) :
    Builds limits width before (Body.Stands (layItem options room level) below frame more)
      [commentPiece node level] after (Body.Stands (layItem options room level) below frame more) := by
  refine Piece.builds_comment isComment level fun shown body number stands =>
    stands.readComment fun level' => ?_
  cases room <;> rw [layItem, Piece.commentPiece_ofComment isComment]

theorem builds_items (room : Nat) : ∀ (below : List OpenGroup) (frame : Node) (level : Int)
    (levels : Nat) (items : List Item) (pieces : List Piece),
    (below.length + 1 + levels : Int) ≤ limits.depth → Item.Ready levels items →
    areUpright (isUpright options room level) items = true →
    layItems (layItem options room level) items = .ok pieces →
    Builds limits width false
      (Body.Stands (layItem options room level) below frame (items.any Item.isMember)) pieces false
      (Body.Stands (layItem options room level) below frame false) := by
  induction room with
  | zero =>
    intro below frame level levels items pieces deep ready stand laid
    obtain ⟨⟨held, series⟩, fits, phrased⟩ := ready
    refine @builds_layItems limits width held _ _ (Item.Fits levels)
      (Body.Stands (layItem options 0 level) below frame) ?_ ?_ _ _ _ _ series fits stand laid
    · rintro comma before _ after pieces ⟨isComment⟩ laid
      cases laid
      exact builds_remark isComment
    · intro comma item held pieces bears fits stand laid
      cases bears with
      | member => simp [layItem] at laid
      | group => simp [layItem] at laid
      | plain => exact fits.elim
  | succ room ih =>
    intro below frame level levels items pieces deep ready stand laid
    obtain ⟨⟨held, series⟩, fits, phrased⟩ := ready
    have within := fun below frame => ih below frame (level + 1) (levels - 1)
    refine @builds_layItems limits width held _ _ (fun item => item.Fits levels ∧ item.Phrased)
      (Body.Stands (layItem options (room + 1) level) below frame) ?_ ?_ _ _ _ _ series
      (fun item member => ⟨fits item member, phrased item member⟩) stand laid
    · rintro comma before _ after pieces ⟨isComment⟩ laid
      cases laid
      exact builds_remark isComment
    · rintro comma item held pieces bears ⟨fits, phrased⟩ stand laid
      cases bears with
      | member hides noted => exact ⟨rfl, builds_member within deep hides noted phrased fits stand laid⟩
      | group spans bears => exact ⟨rfl, builds_group within deep spans bears fits stand laid⟩
      | plain => exact fits.elim

end Layout

end AsnLayout
