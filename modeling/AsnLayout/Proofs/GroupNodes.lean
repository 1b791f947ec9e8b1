import AsnLayout.Proofs.Shape
import AsnLayout.Proofs.Waiting

/-!
# Nodes of open groups

While a definition is read, its open groups build nodes from comments and from their texts, and
change the nodes they have.  A test that each single way to do so keeps to, is passed by every node
of a group, whatever the group goes through.
-/

set_option autoImplicit false

namespace AsnLayout

namespace Node

/-- A test that is passed by what groups build from noted comments and from the texts of members,
and still passed by the nodes that they change. -/
structure Built (test : Node → Prop) (noted : Option Text → Prop) (member : Text → Prop) :
    Prop where
  none : noted none
  both {earlier later : Option Text} (good : noted earlier) (good' : noted later) :
    noted (bothComments earlier later)
  children {node : Node} (here : test node) (children : List Node) : test { node with children }
  level {node : Node} (here : test node) (level : Int) : test { node with level }
  opening {node : Node} (here : test node) {comment : Option Text} (good : noted comment) :
    test { node with openingComment := bothComments node.openingComment comment }
  closing {node : Node} (here : test node) {comment : Option Text} (good : noted comment) :
    test { node with closingComment := bothComments node.closingComment comment }
  trailer {node : Node} (here : test node) {text : Text} (good : member text) :
    test { node with trailer := Text.memberForm text }
  remark {comment : Text} (good : noted (some comment)) (level : Int) (number : Nat) :
    test (ofComment comment false level number)
  ofMember {text : Text} (good : member text) (filled : Text.memberForm text ≠ []) (level : Int)
    (number : Nat) : test (ofMember (Text.memberForm text) level number)

theorem everywhere_modifyLastField {test : Node → Prop} {change : Node → Node} {nodes : List Node}
    (keeps : ∀ node : Node, node.Everywhere test → (change node).Everywhere test)
    (all : ∀ node ∈ nodes, node.Everywhere test) :
    ∀ node ∈ modifyLastField change nodes, node.Everywhere test := by
  intro node member
  rcases mem_modifyLastField member with same | ⟨field, there, -, rfl⟩
  · exact all node same
  · exact keeps field (all field there)

namespace Built

variable {test : Node → Prop} {noted : Option Text → Prop} {member : Text → Prop} {node : Node}
  {comment : Text}

theorem everywhere_addComment (built : Built test noted member) (all : node.Everywhere test)
    (good : noted (some comment)) : (node.addComment comment).Everywhere test := by
  obtain ⟨here, below⟩ := all
  unfold Node.addComment
  split
  · exact .intro (built.closing here good) below
  · exact .intro (built.opening here good) below

theorem everywhere_remark (built : Built test noted member) (good : noted (some comment))
    (level : Int) (number : Nat) : (ofComment comment false level number).Everywhere test :=
  .intro (built.remark good level number) (by simp [Node.ofComment])

end Built

end Node

/-! ## Open groups -/

namespace OpenGroup

structure Holds (test : Node → Prop) (noted : Option Text → Prop) (group : OpenGroup) : Prop where
  node : group.node.Everywhere test
  waiting : ∀ child ∈ group.waiting, child.Everywhere test
  comment : noted group.comment

namespace Holds

variable {test : Node → Prop} {noted : Option Text → Prop} {member : Text → Prop}
  {group : OpenGroup} {nodes : List Node}

theorem withChildren (holds : group.Holds test noted) (built : Node.Built test noted member)
    (all : ∀ child ∈ nodes, child.Everywhere test) :
    Holds test noted { group with node := { group.node with children := nodes } } :=
  ⟨.intro (built.children holds.node.here nodes) all, holds.waiting, holds.comment⟩

theorem append (holds : group.Holds test noted) (built : Node.Built test noted member)
    (all : ∀ child ∈ nodes, child.Everywhere test) : (group.append nodes).Holds test noted :=
  holds.withChildren built (forall_mem_append holds.node.child all)

theorem adopt (holds : group.Holds test noted) (built : Node.Built test noted member) {inner : Node}
    (all : inner.Everywhere test) : (group.adopt inner).Holds test noted := by
  obtain ⟨node, waiting, comment⟩ := holds.append built (List.forall_mem_singleton.mpr all)
  exact ⟨node, waiting, comment⟩

theorem commentLast (holds : group.Holds test noted) (built : Node.Built test noted member)
    {comment : Text} (good : noted (some comment)) (number : Nat) :
    (group.commentLast comment number).Holds test noted := by
  unfold OpenGroup.commentLast
  split
  · exact holds.withChildren built (Node.everywhere_modifyLastField
      (fun _ all => built.everywhere_addComment all good) holds.node.child)
  · exact holds.append built (List.forall_mem_singleton.mpr (built.everywhere_remark good ..))

/-! ### Members -/

/-- The text read so far is a new member, or the trailer of the last one. -/
theorem withMember (holds : group.Holds test noted) (built : Node.Built test noted member)
    (good : member group.text) (number : Nat) :
    ∀ child ∈ group.withMember number, child.Everywhere test := by
  unfold OpenGroup.withMember
  simp only
  split
  · refine Node.everywhere_modifyLastField ?_ holds.node.child
    rintro node ⟨here, below⟩
    exact .intro (built.trailer here good) below
  · split
    · exact holds.node.child
    · rename_i filled
      refine forall_mem_append holds.node.child (List.forall_mem_singleton.mpr ?_)
      exact .intro (built.ofMember good filled ..) (by simp [Node.ofMember])

theorem withRemark (holds : group.Holds test noted) (built : Node.Built test noted member)
    (all : ∀ child ∈ nodes, child.Everywhere test) (number : Nat) :
    ∀ child ∈ group.withRemark number nodes, child.Everywhere test := by
  unfold OpenGroup.withRemark
  split
  · exact all
  · rename_i comment found
    have good : noted (some comment) := found ▸ holds.comment
    split
    · exact Node.everywhere_modifyLastField (fun _ all => built.everywhere_addComment all good) all
    · exact forall_mem_append all (List.forall_mem_singleton.mpr (built.everywhere_remark good ..))

theorem endMember (holds : group.Holds test noted) (built : Node.Built test noted member)
    (good : member group.text) (number : Nat) : (group.endMember number).Holds test noted := by
  rw [endMember_eq]
  refine ⟨(holds.withChildren built ?_).node, by simp, built.none⟩
  exact forall_mem_append (holds.withRemark built (holds.withMember built good number) number)
    holds.waiting

/-- The text before the brace of an inner group becomes its header, and the comments that wait
become its first children. -/
theorem groupNode (holds : group.Holds test noted) (built : Node.Built test noted member)
    {number : Nat} (header : test (group.groupNode number)) :
    Holds test noted { node := group.groupNode number } := by
  refine ⟨.intro header fun child member => ?_, by simp, built.none⟩
  obtain ⟨waiting, there, rfl⟩ := List.mem_map.mp member
  obtain ⟨here, below⟩ := holds.waiting waiting there
  exact .intro (built.level here _) below

theorem withoutHeader (holds : group.Holds test noted) (built : Node.Built test noted member) :
    group.withoutHeader.Holds test noted :=
  ⟨holds.node, by simp [OpenGroup.withoutHeader], built.none⟩

/-! ### Lines -/

theorem keepLine (holds : group.Holds test noted) (built : Node.Built test noted member)
    {comment : Option Text} {number : Nat} (line : Text.neat group.text ≠ [] →
      test (group.lineNode (Text.neat group.text) comment number)) :
    (group.keepLine comment number).Holds test noted := by
  have grown : (group.append (if Text.neat group.text = [] then []
      else [group.lineNode (Text.neat group.text) comment number])).Holds test noted := by
    refine holds.append built ?_
    split
    · simp
    · rename_i filled
      exact List.forall_mem_singleton.mpr (.intro (line filled) (by simp [lineNode]))
  rw [keepLine_eq]
  exact ⟨grown.node, grown.waiting, grown.comment⟩

theorem close (holds : group.Holds test noted) (built : Node.Built test noted member) {number : Nat}
    (good : group.structured = true → member group.text) (line : Text.neat group.text ≠ [] →
      test (group.lineNode (Text.neat group.text) none number)) :
    (group.close number).Holds test noted := by
  unfold OpenGroup.close
  split
  · rename_i structured
    exact holds.endMember built (good structured) number
  · exact holds.keepLine built line

end Holds

end OpenGroup

/-! ## Comments in bodies -/

namespace Body

variable {test : Node → Prop} {noted : Option Text → Prop} {member : Text → Prop} {body : Body}

theorem holds_anchorComment (holds : body.top.Holds test noted)
    (built : Node.Built test noted member) {comment : Text} (good : noted (some comment))
    (number : Nat) : (body.anchorComment comment number).top.Holds test noted := by
  unfold Body.anchorComment
  simp only
  split
  · exact holds.append built (List.forall_mem_singleton.mpr (built.everywhere_remark good ..))
  · obtain ⟨⟨here, below⟩, waiting, comment⟩ := holds
    exact ⟨.intro (built.opening here good) below, waiting, comment⟩
  · exact holds.commentLast built good number

/-- A comment behind the code of a line goes to what it is about, or waits behind the text. -/
theorem holds_settle (holds : body.top.Holds test noted) (built : Node.Built test noted member)
    {comment : Text} (good : noted (some comment)) (number : Nat) :
    (if Text.isBlankText body.top.text then body.anchorComment comment number
      else { body with top := { body.top with
        comment := bothComments body.top.comment (some comment) } }).top.Holds test noted := by
  split
  · exact holds_anchorComment holds built good number
  · exact ⟨holds.node, holds.waiting, built.both holds.comment good⟩

theorem holds_endLine (holds : body.top.Holds test noted) (built : Node.Built test noted member)
    {comment : Option Text} (good : noted comment) {number : Nat}
    (line : Text.neat body.top.text ≠ [] →
      test (body.top.lineNode (Text.neat body.top.text) comment number)) :
    (body.endLine comment number).top.Holds test noted := by
  unfold Body.endLine
  simp only
  split
  · exact holds.keepLine built line
  · have settled : OpenGroup.Holds test noted (if body.top.structured then body
        else { body with top := { body.top with text := [] } }).top := by
      split
      · exact holds
      · exact ⟨holds.node, holds.waiting, holds.comment⟩
    cases comment with
    | none => exact settled
    | some comment => exact holds_settle settled built good number

theorem holds_readComment (holds : body.top.Holds test noted)
    (built : Node.Built test noted member) {line : Text} {inBlock : Bool} {number : Nat}
    (comment : ∀ level, test (Node.ofComment line inBlock level number)) :
    (body.readComment line inBlock number).top.Holds test noted := by
  have all : ∀ level, ∀ child ∈ [Node.ofComment line inBlock level number],
      child.Everywhere test := fun level =>
    List.forall_mem_singleton.mpr (.intro (comment level) (by simp [Node.ofComment]))
  unfold Body.readComment
  simp only
  split
  · exact ⟨holds.node, OpenGroup.forall_mem_append holds.waiting (all _), holds.comment⟩
  · exact holds.append built (all _)

end Body

end AsnLayout
