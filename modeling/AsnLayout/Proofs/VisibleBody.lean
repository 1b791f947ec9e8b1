import AsnLayout.Proofs.CheckedReading
import AsnLayout.Proofs.UnfencedBody

/-!
# Definitions of visible lines

While a definition is read, every text that a layout may put on a line of its own stays within one
line.  Where no block comment is read, none of these lines is blank.
-/

set_option autoImplicit false

namespace AsnLayout

/-! ## Texts of one line -/

namespace Text

structure TakesLine (t : Text) : Prop where
  single : '\n' ∉ t
  seen : isBlankText t = false

variable {t code : Text} {comment : Option Text}

theorem IsNote.seen {comment : Text} (note : comment.IsNote) : isBlankText comment = false := by
  obtain ⟨⟨rest, rfl⟩, -⟩ := note
  rfl

theorem single_beside (single : '\n' ∉ code) (noted : IsNoted comment) :
    '\n' ∉ beside code comment := by
  unfold AsnLayout.beside
  split
  · exact single
  · rename_i text
    have note := (noted text rfl).single
    split
    · exact single
    · split
      · exact note
      · simp [single, note]

theorem seen_beside (seen : isBlankText code = false) (comment : Option Text) :
    isBlankText (beside code comment) = false := by
  unfold AsnLayout.beside
  split
  · exact seen
  · split
    · exact seen
    · split
      · rename_i empty
        rw [empty] at seen
        cases seen
      · exact isBlankText_append_of_seen seen _

theorem takesLine_members (single : '\n' ∉ t) : ∀ part ∈ members t, part.TakesLine := by
  have cuts : ∀ front back : Text, '\n' ∉ front ++ ',' :: back → '\n' ∉ front ∧ '\n' ∉ back := by
    intro front back single
    simp only [List.mem_append, List.mem_cons, not_or] at single
    exact ⟨single.1, single.2.2⟩
  obtain ⟨first, later, cut, here, others⟩ :=
    @forall_segments (fun text => '\n' ∉ text) cuts {} [] t 0 single
  have cut : segments (· = ',') 0 (marks t) = first :: later := cut
  intro part member
  rw [Text.members, cut, List.mem_filter] at member
  obtain ⟨segment, inside, rfl⟩ := List.mem_map.mp member.1
  have filled : memberForm segment ≠ [] := by
    intro empty
    simp [isMember, empty] at member
  refine ⟨newline_not_mem_memberForm ?_, isBlankText_memberForm filled⟩
  rcases List.mem_cons.mp inside with rfl | inside
  · exact here
  · exact others segment inside

end Text

namespace Node

/-- The texts of a node take one line each.  Its content is not blank unless it is a line of a block
comment behind its first, which may only be where block comments are read, or the header of a
group. -/
structure Visible (blocks : Bool) (node : Node) : Prop where
  name : node.kind = .typeDefinition → '\n' ∉ node.name
  content : '\n' ∉ node.content
  header : '\n' ∉ node.header.getD []
  members : ∀ part ∈ node.inlineMembers.getD [], part.TakesLine
  trailer : '\n' ∉ node.trailer
  opening : IsNoted node.openingComment
  closing : IsNoted node.closingComment
  outside : node.blockLine = true → node.kind = .comment ∧ blocks = true
  seen : node.blockLine = false → node.spansLines = false → Text.isBlankText node.content = false

variable {blocks : Bool} {node : Node}

theorem Visible.dress (visible : node.Visible blocks) {trailer : Text}
    {openingComment closingComment : Option Text} (single : '\n' ∉ trailer)
    (noted : IsNoted openingComment) (noted' : IsNoted closingComment) :
    Visible blocks { node with trailer, openingComment, closingComment } := by
  obtain ⟨name, content, header, members, -, -, -, outside, seen⟩ := visible
  exact ⟨name, content, header, members, single, noted, noted', outside, seen⟩

theorem Visible.withChildren (visible : node.Visible blocks) (children : List Node) :
    Visible blocks { node with children } := by
  obtain ⟨name, content, header, members, trailer, opening, closing, outside, seen⟩ := visible
  exact ⟨name, content, header, members, trailer, opening, closing, outside, seen⟩

theorem visible_of_content (kind : node.kind ≠ .typeDefinition)
    (single : '\n' ∉ node.content)
    (seen : node.blockLine = false → Text.isBlankText node.content = false)
    (outside : node.blockLine = true → node.kind = .comment ∧ blocks = true)
    (header : node.header = none) (members : node.inlineMembers = none) (trailer : node.trailer = [])
    (opening : node.openingComment = none) (closing : node.closingComment = none)
    (bare : node.children = []) : node.Everywhere (Visible blocks) := by
  refine .intro ⟨fun same => absurd same kind, single, ?_, ?_, ?_, ?_, ?_, outside,
    fun noLine _ => seen noLine⟩ (by simp [bare])
  · simp [header]
  · simp [members]
  · simp [trailer]
  · rw [opening]
    exact isNoted_none
  · rw [closing]
    exact isNoted_none

theorem visible_ofComment {line : Text} (single : '\n' ∉ line) {inBlock : Bool}
    (seen : inBlock = true ∧ blocks = true ∨ inBlock = false ∧ Text.isBlankText line = false)
    (level : Int) (number : Nat) :
    (ofComment line inBlock level number).Everywhere (Visible blocks) := by
  rcases seen with ⟨rfl, isBlocks⟩ | ⟨rfl, seen⟩
  · exact visible_of_content (fun same => by cases same) single nofun (fun _ => ⟨rfl, isBlocks⟩) rfl
      rfl rfl rfl rfl rfl
  · refine visible_of_content (fun same => by cases same) ?_ (fun _ => ?_) nofun rfl rfl rfl rfl rfl
      rfl
    · exact fun newline => single ((List.dropWhile_suffix _).subset newline)
    · change Text.isBlankText (Text.trimStart line) = false
      rwa [← Text.isBlankText_trim, Text.trim_trimStart, Text.isBlankText_trim]

theorem visible_note {comment : Text} (note : comment.IsNote) (level : Int) (number : Nat) :
    (ofComment comment false level number).Everywhere (Visible blocks) :=
  visible_ofComment note.single (.inr ⟨rfl, note.seen⟩) level number

theorem visible_ofMember {text : Text} (single : '\n' ∉ text) (filled : Text.memberForm text ≠ [])
    (level : Int) (number : Nat) :
    (ofMember (Text.memberForm text) level number).Everywhere (Visible blocks) :=
  visible_of_content (fun same => by cases same)
    (Text.newline_not_mem_memberForm single) (fun _ => Text.isBlankText_memberForm filled) nofun rfl
    rfl rfl rfl rfl rfl

/-- What groups build from comments and from texts of one line is visible. -/
theorem built_visible (blocks : Bool) : Built (Visible blocks) IsNoted ('\n' ∉ ·) where
  none := isNoted_none
  both noted noted' := noted.both noted'
  children here children := here.withChildren children
  level here _ := by
    obtain ⟨name, content, header, members, trailer, opening, closing, outside, seen⟩ := here
    exact ⟨name, content, header, members, trailer, opening, closing, outside, seen⟩
  opening here _ noted := here.dress here.trailer (here.opening.both noted) here.closing
  closing here _ noted := here.dress here.trailer here.opening (here.closing.both noted)
  trailer here _ single :=
    here.dress (Text.newline_not_mem_memberForm single) here.opening here.closing
  remark noted level number := (visible_note (noted _ rfl) level number).here
  ofMember single filled level number := (visible_ofMember single filled level number).here

end Node

/-! ## Open groups -/

namespace OpenGroup

structure Visible (blocks : Bool) (group : OpenGroup) : Prop where
  node : group.node.Everywhere (Node.Visible blocks)
  waiting : ∀ child ∈ group.waiting, child.Everywhere (Node.Visible blocks)
  comment : IsNoted group.comment

variable {blocks : Bool} {group : OpenGroup}

theorem visible_iff : group.Visible blocks ↔ group.Holds (Node.Visible blocks) IsNoted :=
  ⟨fun ⟨node, waiting, comment⟩ => ⟨node, waiting, comment⟩,
    fun ⟨node, waiting, comment⟩ => ⟨node, waiting, comment⟩⟩

theorem Visible.retext (visible : group.Visible blocks) (text : Text)
    (brackets lineBrackets : Nat) : Visible blocks { group with text, brackets, lineBrackets } :=
  ⟨visible.node, visible.waiting, visible.comment⟩

theorem Visible.endMember (visible : group.Visible blocks) (single : '\n' ∉ group.text)
    (number : Nat) : (group.endMember number).Visible blocks :=
  visible_iff.mpr
    ((visible_iff.mp visible).endMember (Node.built_visible blocks) single number)

theorem visible_lineNode (single : '\n' ∉ group.text) {comment : Option Text}
    (noted : IsNoted comment) (number : Nat) (filled : Text.neat group.text ≠ []) :
    (group.lineNode (Text.neat group.text) comment number).Visible blocks :=
  (Node.visible_of_content (fun same => by cases same)
    (Text.single_beside (Text.newline_not_mem_neat single) noted)
    (fun _ => Text.seen_beside (Text.isBlankText_trim_of_ne_nil filled) comment)
    (fun inBlock => by cases inBlock) rfl rfl rfl rfl rfl rfl).here

theorem Visible.close (visible : group.Visible blocks) (single : '\n' ∉ group.text)
    (number : Nat) : (group.close number).Visible blocks :=
  visible_iff.mpr ((visible_iff.mp visible).close (Node.built_visible blocks) (fun _ => single)
    (visible_lineNode single isNoted_none number))

/-- The text before the brace of an inner group becomes its header, which may be empty. -/
theorem Visible.groupNode (visible : group.Visible blocks) (single : '\n' ∉ group.text)
    (number : Nat) : Visible blocks { node := group.groupNode number } := by
  have header := Text.newline_not_mem_neat single
  refine visible_iff.mpr ((visible_iff.mp visible).groupNode (Node.built_visible blocks)
    ⟨nofun, header, header, by simp [OpenGroup.groupNode], by simp [OpenGroup.groupNode],
      visible.comment, isNoted_none, nofun, fun _ single => by cases single⟩)

theorem Visible.withoutHeader (visible : group.Visible blocks) :
    group.withoutHeader.Visible blocks :=
  visible_iff.mpr ((visible_iff.mp visible).withoutHeader (Node.built_visible blocks))

theorem Visible.adopt (visible : group.Visible blocks) {inner : Node}
    (all : inner.Everywhere (Node.Visible blocks)) : (group.adopt inner).Visible blocks :=
  visible_iff.mpr ((visible_iff.mp visible).adopt (Node.built_visible blocks) all)

end OpenGroup

/-! ## Bodies -/

namespace Body

/-- A body of which all that has been read is visible, and no newline stands in the rest of the
line. -/
structure Visible (blocks : Bool) (body : Body) : Prop where
  top : body.top.Visible blocks
  text : '\n' ∉ body.top.text
  below : ∀ group ∈ body.below, group.Visible blocks ∧ '\n' ∉ group.text

variable {blocks : Bool} {limit : Int} {number : Nat} {q : Quoting} {body next : Body} {rest : Text}

theorem Visible.take (visible : body.Visible blocks) {c : Char} (single : c ≠ '\n')
    (brackets : Nat) :
    Visible blocks { body with top := { body.top.take c with brackets } } := by
  obtain ⟨top, text, below⟩ := visible
  refine ⟨top.retext _ _ _, ?_, below⟩
  simp [OpenGroup.take, text, single.symm]

theorem Visible.step {c : Char} (visible : body.Visible blocks) (single : c ≠ '\n')
    (taken : Step limit number q body c rest next) : next.Visible blocks := by
  cases taken with
  | hidden covered => exact visible.take single body.top.brackets
  | leave code settled =>
    obtain ⟨top, text, around⟩ := visible
    obtain ⟨⟨outer, outerText⟩, below⟩ := List.forall_mem_cons.mp around
    exact ⟨outer.adopt (top.close text number).node, outerText, below⟩
  | enter code settled structured leftOpen entered =>
    obtain ⟨top, text, below⟩ := visible
    obtain ⟨-, -, rfl⟩ := Body.enterGroup_eq_ok.mp entered
    exact ⟨top.groupNode text number, List.not_mem_nil,
      List.forall_mem_cons.mpr ⟨⟨top.withoutHeader, List.not_mem_nil⟩, below⟩⟩
  | comma code settled structured =>
    obtain ⟨top, text, below⟩ := visible
    refine ⟨top.endMember text number, ?_, below⟩
    change '\n' ∉ (body.top.endMember number).text
    rw [OpenGroup.endMember_eq]
    exact List.not_mem_nil
  | keep code noClose noGroup noComma => exact visible.take single _

theorem Visible.endLine (visible : body.Visible blocks) {comment : Option Text}
    (noted : IsNoted comment) (number : Nat) : (body.endLine comment number).Visible blocks := by
  obtain ⟨top, text, below⟩ := visible
  refine ⟨OpenGroup.visible_iff.mpr (holds_endLine (OpenGroup.visible_iff.mp top)
    (Node.built_visible blocks) noted (OpenGroup.visible_lineNode text noted number)), ?_, ?_⟩
  · cases structured : body.top.structured with
    | true => rwa [body.text_endLine structured]
    | false =>
      rw [body.text_endLine_of_unstructured structured]
      exact List.not_mem_nil
  · rwa [body.below_endLine]

inductive Progress.Visible (blocks : Bool) : Progress → Prop where
  | more {body : Body} (visible : body.Visible blocks) : Visible blocks (.more body)
  | closed {node : Node} (all : node.Everywhere (Node.Visible blocks)) : Visible blocks (.closed node)

theorem visible_lineRun {comment : Option Text} {code : Text} {progress : Progress}
    (run : LineRun limit comment number q body code progress) (noted : IsNoted comment)
    (single : '\n' ∉ code) (visible : body.Visible blocks) : progress.Visible blocks := by
  induction run with
  | finish => exact .more (visible.endLine noted number)
  | close code settled closed =>
    obtain ⟨top, text, -⟩ := visible
    obtain ⟨here, below⟩ := (top.close text number).node
    obtain ⟨-, rfl⟩ := Body.closeDefinition_eq_ok.mp closed
    have trailer := Text.newline_not_mem_neat (List.not_mem_of_not_mem_cons single)
    exact .closed (.intro (here.dress trailer here.opening noted) below)
  | step taken later ih =>
    rw [List.mem_cons, not_or] at single
    exact ih single.2 (visible.step (Ne.symm single.1) taken)

theorem visible_readLine {line : CodeLine} {progress : Progress}
    (read : body.readLine limit line number = .ok progress) (single : '\n' ∉ line.code)
    (noted : IsNoted line.comment) (visible : body.Visible blocks) : progress.Visible blocks := by
  refine visible_lineRun (lineRun_of_readCode _ _ _ _ _ _ _ read) noted single ?_
  obtain ⟨top, text, below⟩ := visible
  refine ⟨top.retext _ _ _, ?_, below⟩
  unfold Body.startLine
  simp only
  split
  · simp [text]
  · exact text

theorem Visible.readComment (visible : body.Visible blocks) {line : Text} (single : '\n' ∉ line)
    {inBlock : Bool}
    (seen : inBlock = true ∧ blocks = true ∨ inBlock = false ∧ Text.isBlankText line = false)
    (number : Nat) : (body.readComment line inBlock number).Visible blocks := by
  obtain ⟨top, text, below⟩ := visible
  refine ⟨OpenGroup.visible_iff.mpr (holds_readComment (OpenGroup.visible_iff.mp top)
    (Node.built_visible blocks) fun level =>
      (Node.visible_ofComment single seen level number).here), ?_, ?_⟩
  · rwa [body.text_readComment]
  · rwa [body.below_readComment]

theorem visible_start {node : Node} {first : Text} {progress : Progress}
    (started : Body.start node limit first = .ok progress) (visible : node.Visible blocks)
    (bare : node.children = []) (single : '\n' ∉ first) : progress.Visible blocks := by
  have opened : ∀ {other : Node}, other.Visible blocks → other.children = [] →
      OpenGroup.Visible blocks { node := other } :=
    fun here bare => ⟨.intro here (by simp [bare]), by simp, isNoted_none⟩
  rcases Body.lineRun_of_start started with ⟨-, rfl⟩ | run
  · exact .more ⟨opened visible bare, List.not_mem_nil, by simp⟩
  · refine visible_lineRun run visible.opening single
      ⟨opened ?_ bare, List.not_mem_nil, by simp⟩
    exact visible.dress visible.trailer isNoted_none visible.closing

end Body

end AsnLayout
