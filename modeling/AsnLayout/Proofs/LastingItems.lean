import AsnLayout.Proofs.RenewedDefinitions

/-!
# Items that last

An item of a schema is steady if the line that it is or starts with is of its kind, and every group that
is laid out in it stands outside of brackets.  The rows of a steady item are read as an item with the
same layout.
-/

set_option autoImplicit false

namespace AsnLayout

namespace Layout

/-! ## Steady items -/

def groupItems (options : Options) (node : Node) : List Item :=
  if node.isPlain then
    match wrappedGroup? options node with
    | none => []
    | some group => group.members.map (Item.member · none)
  else if node.oneLine = some true then (node.inlineMembers.getD []).map (Item.member · none)
  else if node.isStructured then node.children.flatMap Item.ofChild
  else []

end Layout

namespace Node

/-- The line of an item, with nothing of a group that takes several lines. -/
def itemLine (node : Node) : Text :=
  if node.kind = .typeDefinition then Layout.assignment node ++ ' ' :: node.header.getD []
  else node.content

def keepsKind (node : Node) : Bool :=
  node.kind = .comment || (LineKind.ofLine false node.itemLine).nodeKind = node.kind

/-- Whether an item is of the kind of its line, and no bracket is open before any group that is laid out
of it. -/
def isSteady (options : Options) (node : Node) : Bool :=
  node.keepsKind && (node.kind ≠ .typeDefinition ||
    Layout.areUpright (Layout.isUpright options options.maxDepth.toNat (node.level + 1))
      (Layout.groupItems options node))

end Node

namespace Piece

open Layout

variable {options : Options} {limits : Limits} {width : Int} {level : Nat} {ends : Bool}
  {node : Node} {pieces body : List Piece}

/-! ## Definitions -/

theorem builds_groupItems {items : List Item} {levels : Nat} {frame : Node} {place : Int}
    (ready : Item.Ready levels items) (deep : (1 + levels : Int) ≤ limits.depth)
    (stand : areUpright (isUpright options options.maxDepth.toNat (place + 1)) items = true)
    (laid : layBody options (place + 1) items = .ok body)
    (members : frame.isStructured = false → ∀ item ∈ items, ∃ text, item = .member text none) :
    Builds limits width false
      (Body.Displays options options.maxDepth.toNat place [] frame (items.any Item.isMember)) body
      false (Body.Displays options options.maxDepth.toNat place [] frame false) :=
  builds_displays
    (fun _ => builds_items _ [] frame _ levels items body (by simpa using deep) ready stand laid)
    fun unstructured => builds_keptMembers _ [] _ levels items body (by simp) ready
      (members unstructured) stand laid

theorem framing_of_defined {first second third : Text} (defined : node.Defined)
    (noPlain : node.isPlain = false) (name : Text.Hides node.name first)
    (header : Text.Hides (node.header.getD []) second) (opening : IsNoted node.openingComment)
    (trailer : Text.Hides node.trailer third) (closing : IsNoted node.closingComment)
    (calmName : Text.Calm node.name) (calm : Text.Calm (node.header.getD [])) {levels : Nat}
    (fit : Text.Fit levels node.trailer) :
    Framing node.name (node.header.getD []) node.openingComment node.trailer
      node.closingComment :=
  ⟨⟨first, name⟩, defined.name, calmName, defined.form, ⟨second, header⟩, opening, calm,
    defined.neat, (defined.group noPlain).1, ⟨third, trailer⟩, closing, fit.calm, defined.trailer,
    fit.braceBalance_eq⟩

theorem lasts_groupDefinition (more : Bool) (defines : node.kind = .typeDefinition)
    (noPlain : node.isPlain = false)
    (framing : Framing node.name (node.header.getD []) node.openingComment node.trailer
      node.closingComment)
    (place : node.level = level) (deep : 0 < limits.depth)
    (inside : ∀ body, definitionBody options node = .ok body → ∀ frame : Node,
      frame.isStructured = (GroupKind.ofHeader (node.header.getD [])).isStructured →
      Builds limits width false
        (Body.Displays options options.maxDepth.toNat level [] frame more) body false
        (Body.Displays options options.maxDepth.toNat level [] frame false))
    (laid : layNode options node = .ok pieces) :
    Lasts options limits width ends false level pieces false level := by
  rw [layNode_of_defines defines, if_neg (by simp [noPlain]), layGroupDefinition_eq, bind_eq_ok] at laid
  obtain ⟨body, laidBody, done⟩ := laid
  cases done
  have lasts := @lasts_opened options limits width level _ _ _ _ _ body ends more framing deep
    fun frame _ => inside body laidBody frame
  rw [Layout.opener_definitionFront, place]
  simpa [aroundGroup] using lasts

/-- A definition that stands on one line and is laid out on several. -/
theorem lasts_wrapped {group : InlineGroup} {first second : Text} {levels : Nat}
    (found : inlineGroup? (assignment node) (node.header.getD []) = some group)
    (name : Text.Hides node.name first) (header : Text.Hides (node.header.getD []) second)
    (noted : IsNoted node.openingComment) (defined : node.Defined)
    (calmName : Text.Calm node.name) (fit : Text.Fit levels (node.header.getD []))
    (deep : (levels : Int) ≤ limits.depth) (place : node.level = level)
    (stand : areUpright (isUpright options options.maxDepth.toNat (node.level + 1))
      (group.members.map (Item.member · none)) = true)
    (laid : layBody options (node.level + 1) (group.members.map (Item.member · none)) = .ok body) :
    Lasts options limits width ends false level
      (.line node.level (opener group.header) :: body ++
        [.line node.level (remarked (closer group.trailer false) node.openingComment), .gap]) false
      level := by
  obtain ⟨inner, foundInner, rfl, trimmed⟩ := exists_inlineGroup? found
  obtain ⟨one, two, three, rfl, opening, members, trailer⟩ :=
    Text.Hides.inlineGroup? .nil header foundInner
  obtain ⟨outer, before, positive, same, parts⟩ := fit.inlineGroup? foundInner
  rw [List.nil_append, Text.trim_space_cons, Text.trim_trim] at same
  obtain ⟨neat, neat'⟩ := (Text.isNeat_of_neat defined.neat fit.calm).inlineGroup? foundInner
  have unbraced : '{' ∉ Text.brackets inner.header := by
    rw [same, Text.brackets_trim]
    exact parts.noBrace
  have framing : Framing node.name inner.header none inner.trailer node.openingComment :=
    ⟨⟨first, name⟩, defined.name, calmName, defined.form, ⟨_, opening⟩, isNoted_none,
      same ▸ parts.calm.trim, neat.neat, unbraced, ⟨_, trailer⟩, noted, parts.calmTrailer, neat'.neat,
      parts.braceBalance_trailer⟩
  obtain ⟨-, ready⟩ := Item.ready_members .nil header fit foundInner
  have lasts := @lasts_opened options limits width level _ _ _ _ _ body ends _ framing (by omega)
    fun frame _ _ => builds_groupItems ready (by omega) (place ▸ stand) (place ▸ laid) (by simp)
  simp only [assignment_eq, opener_trim defined.name trimmed]
  simpa [aroundGroup, remarked, place] using lasts

/-- A definition without a group, or whose group is kept on its line if it is short enough. -/
theorem lasts_plainDefinition {first second : Text} (defines : node.kind = .typeDefinition)
    (plain : node.isPlain = true) (name : Text.Hides node.name first)
    (header : Text.Hides (node.header.getD []) second) (noted : IsNoted node.openingComment)
    (defined : node.Defined) (clear : node.isClear options = true)
    (steady : node.isSteady options = true) (deep : (options.maxDepth.toNat : Int) ≤ limits.depth)
    (place : node.level = level) (laid : layNode options node = .ok pieces) :
    Lasts options limits width (!Reader.hasBrace (node.header.getD [])) false level pieces false
      level := by
  rw [Node.isSteady, Bool.and_eq_true] at steady
  obtain ⟨keeps, stand⟩ := steady
  cases wraps : wrappedGroup? options node with
  | none =>
    rw [layNode_of_defines defines, if_pos plain, layPlainDefinition_of_none wraps] at laid
    cases laid
    have kind : LineKind.ofLine false (assignment node ++ ' ' :: node.header.getD []) =
        .typeDefinition := by
      have kept : (LineKind.ofLine false (assignment node ++ ' ' :: node.header.getD [])).nodeKind =
          .typeDefinition := by
        simpa [Node.keepsKind, Node.itemLine, defines] using keeps
      cases found : LineKind.ofLine false (assignment node ++ ' ' :: node.header.getD []) with
      | typeDefinition => rfl
      | _ =>
        rw [found] at kept
        cases kept
    exact lasts_single (renews_plain plain name header noted defined wraps kind place)
      fun _ => ⟨rfl, rfl⟩
  | some group =>
    obtain ⟨calm, fit, -, -⟩ := texts_of_isClear clear defines fun _ => by simp [wraps]
    have stand : areUpright (isUpright options options.maxDepth.toNat (node.level + 1))
        (group.members.map (Item.member · none)) = true := by
      simpa [defines, groupItems, plain, wraps] using stand
    have found := inlineGroup?_of_wrappedGroup? wraps
    rw [layNode_of_defines defines, if_pos plain, layPlainDefinition_of_some wraps, bind_eq_ok] at laid
    obtain ⟨body, laidBody, done⟩ := laid
    cases done
    exact lasts_wrapped found name header noted defined calm fit deep place stand laidBody

theorem lasts_inlineDefinition {first second third fourth : Text}
    (defines : node.kind = .typeDefinition) (noPlain : node.isPlain = false)
    (oneLine : node.oneLine = some true) (name : Text.Hides node.name first)
    (header : Text.Hides (node.header.getD []) second) (opening : IsNoted node.openingComment)
    (members : Text.HidesAll (node.inlineMembers.getD []) third)
    (trailer : Text.Hides node.trailer fourth) (closing : IsNoted node.closingComment)
    (defined : node.Defined) (clear : node.isClear options = true)
    (stand : areUpright (isUpright options options.maxDepth.toNat (node.level + 1))
      (groupItems options node) = true) (positive : 1 ≤ options.maxDepth)
    (depth : limits.depth = options.maxDepth) (place : node.level = level)
    (laid : layNode options node = .ok pieces) :
    Lasts options limits width ends false level pieces false level := by
  obtain ⟨calm, fit, fitTrailer, fits⟩ :=
    texts_of_isClear clear defines fun plain => by simp [noPlain] at plain
  have framing := framing_of_defined defined noPlain name header opening trailer closing calm
    fit.calm fitTrailer
  obtain ⟨inside, listed⟩ := defined.inline noPlain oneLine
  rw [groupItems, if_neg (by simp [noPlain]), if_pos oneLine] at stand
  rw [Node.groupFits, if_pos oneLine, List.all_eq_true] at fits
  have ready : Item.Ready (options.maxDepth.toNat - 1)
      ((node.inlineMembers.getD []).map (Item.member · none)) := by
    refine ⟨⟨_, Item.series_members members⟩,
      Item.fits_members fun text member => of_decide_eq_true (fits text member), ?_⟩
    rw [listed]
    exact Item.phrased_members inside
  refine lasts_groupDefinition
    (((node.inlineMembers.getD []).map (Item.member · none)).any Item.isMember) defines noPlain framing
    place (by omega) (fun body laidBody frame _ => ?_) laid
  rw [definitionBody, if_pos oneLine, place] at laidBody
  rw [place] at stand
  exact builds_groupItems ready (by omega) stand laidBody (by simp)

theorem lasts_spreadDefinition {first second third fourth : Text}
    (defines : node.kind = .typeDefinition) (several : node.oneLine = some false)
    (keeps : node.KeepsLines) (name : Text.Hides node.name first)
    (header : Text.Hides (node.header.getD []) second) (opening : IsNoted node.openingComment)
    (children : Node.InSeries false node.children third false)
    (trailer : Text.Hides node.trailer fourth) (closing : IsNoted node.closingComment)
    (defined : node.Defined) (clear : node.isClear options = true)
    (stand : areUpright (isUpright options options.maxDepth.toNat (node.level + 1))
      (groupItems options node) = true) (positive : 1 ≤ options.maxDepth)
    (depth : limits.depth = options.maxDepth) (place : node.level = level)
    (laid : layNode options node = .ok pieces) :
    Lasts options limits width ends false level pieces false level := by
  have noPlain : node.isPlain = false := by simp [Node.isPlain, several]
  obtain ⟨calm, fit, fitTrailer, fits⟩ :=
    texts_of_isClear clear defines fun plain => by simp [noPlain] at plain
  obtain ⟨-, kind, titled⟩ := defined.group noPlain
  have framing := framing_of_defined defined noPlain name header opening trailer closing calm
    fit.calm fitTrailer
  have isKind : node.isStructured = (GroupKind.ofHeader (node.header.getD [])).isStructured := by
    rw [Node.isStructured, kind]
    rfl
  rw [groupItems, if_neg (by simp [noPlain]), if_neg (by simp [several]), place] at stand
  rw [Node.groupFits, if_neg (by simp [several])] at fits
  refine lasts_groupDefinition ((node.children.flatMap Item.ofChild).any Item.isMember) defines noPlain
    framing place (by omega) (fun body laidBody frame same => ?_) laid
  rw [definitionBody, if_neg (by simp [several]), place] at laidBody
  rw [← isKind] at same
  cases structured : node.isStructured with
  | true =>
    rw [structured] at same stand fits laidBody
    rw [if_pos rfl, Node.fitAll_iff] at fits
    have ready := Item.ready_ofChildren children (fun child member => .of_fits (fits child member))
      titled
    exact builds_groupItems ready (by omega) stand laidBody (by simp [same])
  | false =>
    rw [structured] at same fits laidBody
    cases laidBody
    refine builds_displays (by simp [same]) fun _ => ?_
    exact builds_keptLines children (keeps structured) (of_decide_eq_true fits)
      (defined.lines several structured) _

/-! ## Lines -/

theorem lasts_line {code held : Text} {comment : Option Text}
    (single : node.kind ≠ .typeDefinition ∧ node.kind ≠ .comment)
    (content : node.content = beside code comment) (hides : Text.Hides code held)
    (noted : IsNoted comment) (settled : Text.neat code = code) (keeps : node.keepsKind = true)
    (place : node.level = node.levelAt level) (laid : layNode options node = .ok pieces) :
    Lasts options limits width ends false level pieces false (node.levelBehind level) := by
  have kind : (LineKind.ofLine false node.content).nodeKind = node.kind := by
    simpa [Node.keepsKind, Node.itemLine, single.1, single.2] using keeps
  have renews := @renews_line options limits width level pieces node code held comment single content
    hides noted settled kind place laid
  by_cases empty : node.content = []
  · have other : node.kind = .other := by
      rw [← kind, empty]
      decide
    have gap : pieces = [.gap] := by
      rw [layNode, other, if_pos empty] at laid
      exact (Except.ok.inj laid).symm
    have behind : node.levelBehind level = level := by
      rw [Node.levelBehind, other]
    rw [gap, behind]
    exact lasts_single renews_gap.of_ends fun _ => ⟨rfl, rfl⟩
  · have seen : Text.isBlankText node.content = false := by
      rw [← Bool.not_eq_true]
      intro blank
      rw [content] at empty blank
      rw [← neatLine_beside hides noted settled, Text.trim_of_blank blank] at empty
      exact empty (by decide)
    rcases layNode_line_cases single.1 single.2 laid with rfl | rfl | rfl | ⟨none, -⟩
    · exact lasts_single renews.of_ends fun idle => absurd idle (by simpa [isIdle] using seen)
    · refine @lasts_gap _ _ _ _ _ _ _ [line node.level node.content] renews.of_ends
        (fun _ => ⟨rfl, rfl⟩) fun run => ?_
      exact @left_of_seen _ run [] _ rfl seen
    · exact lasts_behind_gap renews.of_ends seen
    · exact absurd none empty

/-! ## Items -/

theorem lasts_comment {before after : Bool} (isComment : node.IsComment before after) :
    Lasts options limits width ends before level [commentPiece node level] after level := by
  refine lasts_single (renews_comment isComment).of_ends fun idle => ⟨?_, rfl⟩
  have blank : Text.isBlankText node.content = true := by
    rw [commentPiece] at idle
    split at idle <;> exact idle
  have nothing := Text.trim_of_blank blank
  cases before with
  | true =>
    have behind := isComment.behind
    rw [LineKind.blockAfter, Text.endsBlock, nothing] at behind
    exact behind
  | false =>
    have starts := Text.head?_of_isRemark isComment.isRemark
    rw [nothing] at starts
    cases starts

theorem Lasts.of_ends {before after : Bool} {level' : Nat}
    (lasts : Lasts options limits width false before level pieces after level') :
    Lasts options limits width ends before level pieces after level' :=
  ⟨fun run => (lasts.whole run).imp fun _ again => again.imp_left Renews.of_ends,
    fun run => (lasts.last run).imp fun _ again => again.imp_left Renews.of_ends⟩

/-- An item of code.  No brace follows it if it may end with one that is opened behind it. -/
theorem lasts_code {later : List Node} {held : Text} (positive : 1 ≤ options.maxDepth)
    (depth : limits.depth = options.maxDepth) (bears : node.ItemBears held)
    (isItem : node.IsItem later) (clear : node.isClear options = true)
    (steady : node.isSteady options = true) (place : node.level = node.levelAt level)
    (laid : layNode options node = .ok pieces) :
    Lasts options limits width (!Node.bracesNext later) false level pieces false
      (node.levelBehind level) := by
  have deep : (options.maxDepth.toNat : Int) = limits.depth := by omega
  obtain ⟨keepsKind, stands⟩ := Bool.and_eq_true_iff.mp steady
  have noLevels : node.kind = .typeDefinition → node.levelAt level = level ∧
      node.levelBehind level = level := by
    intro defines
    rw [Node.levelAt, Node.levelBehind, defines]
    exact ⟨rfl, rfl⟩
  cases bears with
  | line single content hides noted settled =>
    exact lasts_line single content hides noted settled (Bool.and_eq_true_iff.mp steady).1 place laid
  | plain defines plain name header opening =>
    obtain ⟨defined, ends⟩ := isItem.defined defines
    obtain ⟨here, behind⟩ := noLevels defines
    rw [here] at place
    rw [behind]
    have lasts := @lasts_plainDefinition options limits width level node pieces _ _ defines plain name
      header opening defined clear steady deep.le place laid
    cases braced : Reader.hasBrace (node.header.getD []) with
    | true =>
      rw [braced] at lasts
      exact lasts.of_ends
    | false =>
      have unbraced := (ends plain).resolve_left (by simp [braced])
      rw [unbraced]
      rwa [braced] at lasts
  | inline defines inline name header opening members trailer closing =>
    obtain ⟨here, behind⟩ := noLevels defines
    rw [behind]
    exact lasts_inlineDefinition defines inline.1 inline.2 name header opening members trailer closing
      (isItem.defined defines).1 clear (by simpa [defines] using stands) positive depth
      (place.trans (congrArg _ here)) laid
  | group defines several keeps name header opening children trailer closing =>
    obtain ⟨here, behind⟩ := noLevels defines
    rw [behind]
    exact lasts_spreadDefinition defines several keeps name header opening children trailer closing
      (isItem.defined defines).1 clear (by simpa [defines] using stands) positive depth
      (place.trans (congrArg _ here)) laid

end Piece

end AsnLayout
