import AsnLayout.Proofs.Kept
import AsnLayout.Proofs.Neatness

/-!
# Shapes of trees

What may stand below which node of a tree.  Only definitions and members whose group takes several
lines have children: members and comments one level below a structured group, lines and comments
below any other.  The open groups of a definition keep to this while it is read, and so does the
definition when it is closed.
-/

set_option autoImplicit false

namespace AsnLayout

namespace Node

/-! ## Parents and children -/

inductive Everywhere (test : Node → Prop) : Node → Prop where
  | intro {node : Node} (here : test node)
      (below : ∀ child ∈ node.children, Everywhere test child) : Everywhere test node

structure IsMember (parent child : Node) : Prop where
  kind : child.kind = .field ∨ child.kind = .comment
  level : child.level = parent.level + 1
  form : child.isField = true → child.spansLines = false →
    child.content ≠ [] ∧ Text.memberForm child.content = child.content

structure IsLine (parent child : Node) : Prop where
  kind : child.kind = .other ∨ child.kind = .comment
  bare : child.children = []
  /-- Only a line inside of a block comment may be empty. -/
  content : child.content ≠ [] ∨ child.kind = .comment ∧ child.blockLine = true
  level : parent.level + 1 ≤ child.level

/-- A node that stands as its kind and its children ask for. -/
structure Shaped (node : Node) : Prop where
  parent : node.children ≠ [] →
    node.kind = .root ∨
      (node.kind = .typeDefinition ∨ node.kind = .field) ∧ node.oneLine = some false
  inline : node.inlineMembers.isSome = true ↔
    node.kind = .typeDefinition ∧ node.oneLine = some true ∧ node.isStructured = true
  members : node.oneLine = some false → node.isStructured = true →
    ∀ child ∈ node.children, node.IsMember child
  lines : node.oneLine = some false → node.isStructured = false →
    ∀ child ∈ node.children, node.IsLine child

theorem Everywhere.here {test : Node → Prop} {node : Node} (all : node.Everywhere test) :
    test node := by
  cases all with
  | intro here below => exact here

theorem Everywhere.child {test : Node → Prop} {node : Node} (all : node.Everywhere test) :
    ∀ child ∈ node.children, child.Everywhere test := by
  cases all with
  | intro here below => exact below

theorem shaped_of_bare {node : Node} (bare : node.children = [])
    (noInline : node.inlineMembers = none) (noLine : node.oneLine = none) : node.Everywhere Shaped := by
  refine .intro ⟨fun some => absurd bare some, ?_, ?_, ?_⟩ ?_
  · simp [noInline, noLine]
  · simp [noLine]
  · simp [noLine]
  · simp [bare]

/-! ## Comments and trailers -/

structure Dressed (node dressed : Node) : Prop where
  eq : dressed = { node with
    trailer := dressed.trailer
    openingComment := dressed.openingComment
    closingComment := dressed.closingComment }

theorem dressed_addComment (node : Node) (comment : Text) :
    node.Dressed (node.addComment comment) := by
  unfold Node.addComment
  split <;> exact ⟨rfl⟩

namespace Dressed

variable {node dressed parent : Node}

theorem kind (same : node.Dressed dressed) : dressed.kind = node.kind := by rw [same.eq]

theorem level (same : node.Dressed dressed) : dressed.level = node.level := by rw [same.eq]

theorem isMember (same : node.Dressed dressed) (member : parent.IsMember node) :
    parent.IsMember dressed := by
  obtain ⟨kind, level, form⟩ := member
  rw [same.eq]
  exact ⟨kind, level, form⟩

theorem shaped (same : node.Dressed dressed) (shaped : node.Everywhere Shaped) :
    dressed.Everywhere Shaped := by
  obtain ⟨⟨parent, inline, members, lines⟩, below⟩ := shaped
  rw [same.eq]
  refine .intro ⟨parent, inline, fun spans structured child member => ?_,
    fun spans structured child member => ?_⟩ below
  · obtain ⟨kind, level, form⟩ := members spans structured child member
    exact ⟨kind, level, form⟩
  · obtain ⟨kind, bare, content, level⟩ := lines spans structured child member
    exact ⟨kind, bare, content, level⟩

end Dressed

theorem mem_modifyLastField {change : Node → Node} {nodes : List Node} {node : Node}
    (member : node ∈ modifyLastField change nodes) :
    node ∈ nodes ∨ ∃ field ∈ nodes, field.isField = true ∧ node = change field := by
  induction nodes with
  | nil => exact .inl member
  | cons first later ih =>
    rw [modifyLastField] at member
    split at member
    · rename_i last
      rcases List.mem_cons.mp member with rfl | behind
      · simp only [Bool.and_eq_true] at last
        exact .inr ⟨first, List.mem_cons_self .., last.1, rfl⟩
      · exact .inl (List.mem_cons_of_mem _ behind)
    · rcases List.mem_cons.mp member with rfl | behind
      · exact .inl (List.mem_cons_self ..)
      · rcases ih behind with same | ⟨field, there, isField, rfl⟩
        · exact .inl (List.mem_cons_of_mem _ same)
        · exact .inr ⟨field, List.mem_cons_of_mem _ there, isField, rfl⟩

theorem members_modifyLastField {parent : Node} {change : Node → Node} {nodes : List Node}
    (dresses : ∀ node : Node, node.Dressed (change node))
    (members : ∀ child ∈ nodes, parent.IsMember child) :
    ∀ child ∈ modifyLastField change nodes, parent.IsMember child := by
  intro child member
  rcases mem_modifyLastField member with same | ⟨field, there, -, rfl⟩
  · exact members child same
  · exact (dresses field).isMember (members field there)

theorem shaped_modifyLastField {change : Node → Node} {nodes : List Node}
    (dresses : ∀ node : Node, node.Dressed (change node))
    (shaped : ∀ child ∈ nodes, child.Everywhere Shaped) :
    ∀ child ∈ modifyLastField change nodes, child.Everywhere Shaped := by
  intro child member
  rcases mem_modifyLastField member with same | ⟨field, there, -, rfl⟩
  · exact shaped child same
  · exact (dresses field).shaped (shaped field there)

structure IsNote (level : Int) (node : Node) : Prop where
  kind : node.kind = .comment
  level : node.level = level
  content : node.content ≠ [] ∨ node.blockLine = true
  bare : node.children = []
  noInline : node.inlineMembers = none
  noLine : node.oneLine = none

theorem IsNote.shaped {level : Int} {node : Node} (note : node.IsNote level) :
    node.Everywhere Shaped := shaped_of_bare note.bare note.noInline note.noLine

theorem IsNote.isMember {node parent : Node} (note : node.IsNote (parent.level + 1)) :
    parent.IsMember node :=
  ⟨.inr note.kind, note.level, fun field => by simp [isField, note.kind] at field⟩

theorem IsNote.isLine {level : Int} {node parent : Node} (note : node.IsNote level)
    (deep : parent.level + 1 ≤ level) : parent.IsLine node := by
  refine ⟨.inr note.kind, note.bare, note.content.imp id fun inside => ⟨note.kind, inside⟩, ?_⟩
  rwa [note.level]

theorem isNote_ofComment {line : Text} {inBlock : Bool} (seen : inBlock = true ∨
    Text.isBlankText line = false) (level : Int) (number : Nat) :
    (ofComment line inBlock level number).IsNote level := by
  refine ⟨rfl, rfl, ?_, rfl, rfl, rfl⟩
  rcases seen with rfl | seen
  · exact .inr rfl
  · cases inBlock with
    | true => exact .inr rfl
    | false =>
      left
      intro empty
      have none : line.dropWhile Text.isBlank = [] := empty
      rw [List.dropWhile_eq_nil_iff] at none
      rw [Text.isBlankText, List.all_eq_true.mpr none] at seen
      cases seen

structure IsDefinition (level : Int) (node : Node) : Prop where
  kind : node.kind = .typeDefinition
  level : node.level = level
  shaped : node.Everywhere Shaped

end Node

/-! ## Open groups -/

theorem beside_ne_nil {code : Text} (some : code ≠ []) (comment : Option Text) :
    beside code comment ≠ [] := by
  unfold beside
  split
  · exact some
  · split
    · exact some
    · exact List.append_ne_nil_of_left_ne_nil some _

/-- A comment, if there is one, of more than blanks. -/
def Text.IsSeen (comment : Option Text) : Prop := ∀ text ∈ comment, isBlankText text = false

namespace OpenGroup

structure Shaped (group : OpenGroup) : Prop where
  kind : group.node.kind = .typeDefinition ∨ group.node.kind = .field
  spans : group.node.oneLine = some false
  noInline : group.node.inlineMembers = none
  members : group.structured = true → ∀ child ∈ group.node.children, group.node.IsMember child
  lines : group.structured = false → ∀ child ∈ group.node.children, group.node.IsLine child
  below : ∀ child ∈ group.node.children, child.Everywhere Node.Shaped
  waiting : ∀ child ∈ group.waiting, child.IsNote group.level
  comment : Text.IsSeen group.comment
  /-- Brackets are open only in text that is not blank. -/
  text : group.structured = true → group.brackets ≠ 0 → Text.isBlankText group.text = false

variable {group : OpenGroup}

theorem Shaped.node (shaped : group.Shaped) : group.node.Everywhere Node.Shaped := by
  refine .intro ⟨fun _ => .inr ⟨shaped.kind, shaped.spans⟩, ?_, fun _ => shaped.members,
    fun _ => shaped.lines⟩ shaped.below
  simp [shaped.noInline, shaped.spans]

theorem Shaped.withChildren (shaped : group.Shaped) {children : List Node}
    (members : group.structured = true → ∀ child ∈ children, group.node.IsMember child)
    (lines : group.structured = false → ∀ child ∈ children, group.node.IsLine child)
    (below : ∀ child ∈ children, child.Everywhere Node.Shaped) :
    Shaped { group with node := { group.node with children } } := by
  obtain ⟨kind, spans, noInline, -, -, -, waiting, comment, text⟩ := shaped
  refine ⟨kind, spans, noInline, fun structured child member => ?_, fun plain child member => ?_,
    below, waiting, comment, text⟩
  · obtain ⟨kind, level, form⟩ := members structured child member
    exact ⟨kind, level, form⟩
  · obtain ⟨kind, bare, content, level⟩ := lines plain child member
    exact ⟨kind, bare, content, level⟩

theorem Shaped.withText (shaped : group.Shaped) {text : Text} {brackets : Nat}
    (open' : group.structured = true → brackets ≠ 0 → Text.isBlankText text = false) :
    Shaped { group with text, brackets } := by
  obtain ⟨kind, spans, noInline, members, lines, below, waiting, comment, -⟩ := shaped
  exact ⟨kind, spans, noInline, members, lines, below, waiting, comment, open'⟩

theorem forall_mem_append {test : Node → Prop} {front back : List Node}
    (early : ∀ node ∈ front, test node) (late : ∀ node ∈ back, test node) :
    ∀ node ∈ front ++ back, test node := by
  intro node member
  rcases List.mem_append.mp member with before | behind
  · exact early node before
  · exact late node behind

theorem Shaped.append (shaped : group.Shaped) {nodes : List Node}
    (members : group.structured = true → ∀ child ∈ nodes, group.node.IsMember child)
    (lines : group.structured = false → ∀ child ∈ nodes, group.node.IsLine child)
    (below : ∀ child ∈ nodes, child.Everywhere Node.Shaped) : (group.append nodes).Shaped :=
  shaped.withChildren
    (fun structured => forall_mem_append (shaped.members structured) (members structured))
    (fun plain => forall_mem_append (shaped.lines plain) (lines plain))
    (forall_mem_append shaped.below below)

/-- A comment for itself stands one level below a structured group, and no higher in any other. -/
theorem Shaped.appendNote (shaped : group.Shaped) {node : Node} {level : Int}
    (note : node.IsNote level) (deep : group.level ≤ level)
    (exact' : group.structured = true → level = group.level) : (group.append [node]).Shaped := by
  refine shaped.append (fun structured => ?_) (fun _ => ?_) ?_
  · rw [exact' structured] at note
    exact List.forall_mem_singleton.mpr note.isMember
  · exact List.forall_mem_singleton.mpr (note.isLine deep)
  · exact List.forall_mem_singleton.mpr note.shaped

theorem Shaped.commentLast (shaped : group.Shaped) {comment : Text}
    (seen : Text.isBlankText comment = false) (number : Nat) :
    (group.commentLast comment number).Shaped := by
  unfold OpenGroup.commentLast
  split
  · rename_i some
    have dresses := fun node => Node.dressed_addComment node comment
    refine shaped.withChildren (fun structured => Node.members_modifyLastField dresses
      (shaped.members structured)) (fun plain => ?_)
      (Node.shaped_modifyLastField dresses shaped.below)
    -- A group of no structured kind has no members.
    obtain ⟨child, member, isField⟩ := List.any_eq_true.mp some
    rcases (shaped.lines plain child member).kind with kind | kind <;>
      simp [Node.isField, kind] at isField
  · exact shaped.appendNote (Node.isNote_ofComment (.inr seen) ..) le_rfl fun _ => rfl

/-! ## Members and lines -/

theorem isMember_ofMember (group : OpenGroup) {text : Text} (some : Text.memberForm text ≠ [])
    (number : Nat) :
    group.node.IsMember (Node.ofMember (Text.memberForm text) group.level number) :=
  ⟨.inl rfl, rfl, fun _ _ => ⟨some, Text.memberForm_memberForm text⟩⟩

theorem Shaped.withMember (shaped : group.Shaped) (structured : group.structured = true)
    (number : Nat) :
    (∀ child ∈ group.withMember number, group.node.IsMember child) ∧
      ∀ child ∈ group.withMember number, child.Everywhere Node.Shaped := by
  have members := shaped.members structured
  unfold OpenGroup.withMember
  simp only
  split
  · have dresses : ∀ node : Node, node.Dressed
        { node with trailer := Text.memberForm group.text } := fun _ => ⟨rfl⟩
    exact ⟨Node.members_modifyLastField dresses members,
      Node.shaped_modifyLastField dresses shaped.below⟩
  · split
    · exact ⟨members, shaped.below⟩
    · rename_i some
      exact ⟨forall_mem_append members (List.forall_mem_singleton.mpr
          (group.isMember_ofMember some number)),
        forall_mem_append shaped.below (List.forall_mem_singleton.mpr
          (Node.shaped_of_bare rfl rfl rfl))⟩

theorem Shaped.withRemark (shaped : group.Shaped) {nodes : List Node} (number : Nat)
    (members : ∀ child ∈ nodes, group.node.IsMember child)
    (below : ∀ child ∈ nodes, child.Everywhere Node.Shaped) :
    (∀ child ∈ group.withRemark number nodes, group.node.IsMember child) ∧
      ∀ child ∈ group.withRemark number nodes, child.Everywhere Node.Shaped := by
  unfold OpenGroup.withRemark
  split
  · exact ⟨members, below⟩
  · rename_i comment found
    split
    · have dresses := fun node => Node.dressed_addComment node comment
      exact ⟨Node.members_modifyLastField dresses members,
        Node.shaped_modifyLastField dresses below⟩
    · have note : (Node.ofComment comment false group.level number).IsNote group.level :=
        Node.isNote_ofComment (.inr (shaped.comment comment found)) ..
      exact ⟨forall_mem_append members (List.forall_mem_singleton.mpr note.isMember),
        forall_mem_append below (List.forall_mem_singleton.mpr note.shaped)⟩

theorem Shaped.endMember (shaped : group.Shaped) (structured : group.structured = true)
    (settled : group.brackets = 0) (number : Nat) : (group.endMember number).Shaped := by
  obtain ⟨members, below⟩ := shaped.withMember structured number
  obtain ⟨members, below⟩ := shaped.withRemark number members below
  have ended := shaped.withChildren
    (fun _ => forall_mem_append members fun child member => (shaped.waiting child member).isMember)
    (fun plain => Bool.noConfusion (structured.symm.trans plain))
    (forall_mem_append below fun child member => (shaped.waiting child member).shaped)
  obtain ⟨kind, spans, noInline, members, lines, below, -, -, -⟩ := ended
  rw [endMember_eq]
  exact ⟨kind, spans, noInline, members, lines, below, by simp, by simp [Text.IsSeen],
    fun _ some => absurd settled some⟩

theorem Shaped.keepLine (shaped : group.Shaped) (plain : group.structured = false)
    (comment : Option Text) (number : Nat) : (group.keepLine comment number).Shaped := by
  have cleared : ∀ {other : OpenGroup}, other.Shaped → other.structured = false →
      Shaped { other with text := [] } :=
    fun shaped plain =>
      shaped.withText fun structured => Bool.noConfusion (plain.symm.trans structured)
  rw [keepLine_eq]
  split
  · exact cleared (shaped.append (by simp) (by simp) (by simp)) plain
  · rename_i some
    refine cleared (shaped.append (fun structured => Bool.noConfusion (plain.symm.trans structured))
      (fun _ => List.forall_mem_singleton.mpr ⟨.inl rfl, rfl, .inl ?_, ?_⟩)
      (List.forall_mem_singleton.mpr (Node.shaped_of_bare rfl rfl rfl))) plain
    · exact beside_ne_nil some comment
    · exact Int.le_add_of_nonneg_right (Int.natCast_nonneg _)

theorem Shaped.close (shaped : group.Shaped) (settled : group.brackets = 0) (number : Nat) :
    (group.close number).Shaped := by
  unfold OpenGroup.close
  split
  · rename_i structured
    exact shaped.endMember structured settled number
  · rename_i plain
    exact shaped.keepLine (by simpa using plain) none number

/-- The group whose header has been read, with the comments that stood before its brace. -/
theorem Shaped.groupNode (shaped : group.Shaped) (number : Nat) :
    Shaped { node := group.groupNode number } := by
  have notes : ∀ child ∈ (group.groupNode number).children, child.IsNote (group.level + 1) := by
    intro child member
    obtain ⟨waiting, there, rfl⟩ := List.mem_map.mp member
    obtain ⟨kind, -, content, bare, noInline, noLine⟩ := shaped.waiting waiting there
    exact ⟨kind, rfl, content, bare, noInline, noLine⟩
  exact ⟨.inr rfl, rfl, rfl, fun _ child member => (notes child member).isMember,
    fun _ child member => (notes child member).isLine le_rfl,
    fun child member => (notes child member).shaped, by simp, by simp [Text.IsSeen],
    fun _ some => absurd rfl some⟩

theorem kind_close (group : OpenGroup) (number : Nat) :
    (group.close number).node.kind = group.node.kind ∧
      (group.close number).node.level = group.node.level := by
  unfold OpenGroup.close
  split
  · rw [endMember_eq]
    exact ⟨rfl, rfl⟩
  · rw [keepLine_eq]
    exact ⟨rfl, rfl⟩

end OpenGroup

/-! ## Texts with code and comments -/

namespace Text

theorem isBlankText_append_of_seen {t : Text} (seen : isBlankText t = false) (back : Text) :
    isBlankText (t ++ back) = false := by
  rw [isBlankText_append, seen, Bool.false_and]

theorem isBlankText_snoc {c : Char} (solid : isBlank c = false) (t : Text) :
    isBlankText (t ++ [c]) = false := by
  simp [isBlankText, solid]

theorem isBlank_of_bracket {c : Char} (bracket : isOpener c = true ∨ isCloser c = true) :
    isBlank c = false := by
  simp only [isOpener, isCloser, Bool.or_eq_true, decide_eq_true_eq, or_assoc] at bracket
  rcases bracket with rfl | rfl | rfl | rfl | rfl | rfl <;> decide

theorem IsSeen.both {earlier : Option Text} (seen : IsSeen earlier) {later : Option Text}
    (seen' : IsSeen later) : IsSeen (bothComments earlier later) := by
  intro text found
  cases earlier with
  | none => exact seen' text found
  | some first =>
    have shown := seen first rfl
    cases later with
    | none =>
      cases found
      exact shown
    | some second =>
      cases found
      exact isBlankText_append_of_seen shown _

end Text

/-! ## Bodies -/

namespace OpenGroup

/-- The open groups of a definition at a level, from the inside out: each but the outermost is a
member of the structured group around it. -/
inductive Stacked (level : Int) : OpenGroup → List OpenGroup → Prop where
  | outermost {group : OpenGroup} (shaped : group.Shaped)
      (defines : group.node.kind = .typeDefinition) (same : group.node.level = level) :
      Stacked level group []
  | inner {group outer : OpenGroup} {below : List OpenGroup} (shaped : group.Shaped)
      (isField : group.node.kind = .field) (nested : group.node.level = outer.level)
      (structured : outer.structured = true) (around : Stacked level outer below) :
      Stacked level group (outer :: below)

variable {level : Int} {group group' : OpenGroup} {below : List OpenGroup}

theorem Stacked.shaped (stacked : Stacked level group below) : group.Shaped := by
  cases stacked with
  | outermost shaped => exact shaped
  | inner shaped => exact shaped

theorem Stacked.withTop (stacked : Stacked level group below) (shaped : group'.Shaped)
    (kind : group'.node.kind = group.node.kind) (same : group'.node.level = group.node.level) :
    Stacked level group' below := by
  cases stacked with
  | outermost _ defines level => exact .outermost shaped (kind.trans defines) (same.trans level)
  | inner _ isField nested structured around =>
    exact .inner shaped (kind.trans isField) (same.trans nested) structured around

theorem Stacked.leave {outer : OpenGroup} (stacked : Stacked level group (outer :: below))
    (settled : group.brackets = 0) (number : Nat) :
    Stacked level (outer.adopt (group.close number).node) below := by
  cases stacked with
  | inner shaped isField nested structured around =>
    have closed := shaped.close settled number
    obtain ⟨kind, level⟩ := kind_close group number
    have isMember : outer.node.IsMember (group.close number).node := by
      refine ⟨.inl (kind.trans isField), level.trans nested, fun field single => ?_⟩
      simp [Node.spansLines, field, closed.spans] at single
    have grown := around.shaped.append (fun _ => List.forall_mem_singleton.mpr isMember)
      (fun plain => Bool.noConfusion (structured.symm.trans plain))
      (List.forall_mem_singleton.mpr closed.node)
    obtain ⟨kind, spans, noInline, members, lines, below, waiting, comment, text⟩ := grown
    exact around.withTop ⟨kind, spans, noInline, members, lines, below, waiting, comment, text⟩
      rfl rfl

theorem Stacked.enter (stacked : Stacked level group below) (structured : group.structured = true)
    (settled : group.brackets = 0) (number : Nat) :
    Stacked level { node := group.groupNode number } (group.withoutHeader :: below) := by
  obtain ⟨kind, spans, noInline, members, lines, below, -, -, -⟩ := stacked.shaped
  refine .inner (stacked.shaped.groupNode number) rfl rfl structured (stacked.withTop ?_ rfl rfl)
  exact ⟨kind, spans, noInline, members, lines, below, by simp [withoutHeader],
    by simp [withoutHeader, Text.IsSeen], fun _ some => absurd settled some⟩

end OpenGroup

namespace Body

variable {limit level : Int} {number : Nat} {q : Quoting} {body next : Body}

def Shaped (level : Int) (body : Body) : Prop := OpenGroup.Stacked level body.top body.below

theorem Shaped.step {c : Char} {rest : Text} (shaped : body.Shaped level)
    (taken : Step limit number q body c rest next) : next.Shaped level := by
  have top := OpenGroup.Stacked.shaped shaped
  cases taken with
  | hidden covered =>
    refine OpenGroup.Stacked.withTop shaped (top.withText fun structured some => ?_) rfl rfl
    exact Text.isBlankText_append_of_seen (top.text structured some) [c]
  | leave code settled => exact OpenGroup.Stacked.leave shaped settled number
  | enter code settled structured leftOpen entered =>
    obtain ⟨-, -, rfl⟩ := Body.enterGroup_eq_ok.mp entered
    exact OpenGroup.Stacked.enter shaped structured settled number
  | comma code settled structured =>
    refine OpenGroup.Stacked.withTop shaped (top.endMember structured settled number) ?_ ?_
    · exact congrArg (·.node.kind) (body.top.endMember_eq number)
    · exact congrArg (·.node.level) (body.top.endMember_eq number)
  | keep code noClose noGroup noComma =>
    refine OpenGroup.Stacked.withTop shaped (top.withText fun structured some => ?_) rfl rfl
    by_cases bracket : isOpener c = true ∨ isCloser c = true
    · exact Text.isBlankText_snoc (Text.isBlank_of_bracket bracket) _
    · rw [not_or] at bracket
      rw [if_neg bracket.1, if_neg bracket.2] at some
      exact Text.isBlankText_append_of_seen (top.text structured some) [c]

theorem Shaped.anchorComment (shaped : body.Shaped level) {comment : Text}
    (seen : Text.isBlankText comment = false)
    (blank : body.top.structured = true → Text.isBlankText body.top.text = true) (number : Nat) :
    (body.anchorComment comment number).Shaped level := by
  have top := OpenGroup.Stacked.shaped shaped
  unfold Body.anchorComment
  simp only
  split
  · have note : (Node.ofComment comment false (body.top.level + body.top.brackets) number).IsNote
        (body.top.level + body.top.brackets) := Node.isNote_ofComment (.inr seen) ..
    refine OpenGroup.Stacked.withTop shaped (top.appendNote note ?_ fun structured => ?_) rfl rfl
    · exact Int.le_add_of_nonneg_right (Int.natCast_nonneg _)
    · -- No brackets are open in a blank text.
      have none : body.top.brackets = 0 := by
        by_contra some
        exact Bool.noConfusion ((blank structured).symm.trans (top.text structured some))
      rw [none, Int.natCast_zero, Int.add_zero]
  · obtain ⟨kind, spans, noInline, members, lines, below, waiting, comment, text⟩ := top
    refine OpenGroup.Stacked.withTop shaped ⟨kind, spans, noInline, ?_, ?_, below, waiting, comment,
      text⟩ rfl rfl
    · intro structured child member
      obtain ⟨kind, level, form⟩ := members structured child member
      exact ⟨kind, level, form⟩
    · intro plain child member
      obtain ⟨kind, bare, content, level⟩ := lines plain child member
      exact ⟨kind, bare, content, level⟩
  · refine OpenGroup.Stacked.withTop shaped (top.commentLast seen number) ?_ ?_ <;>
      · unfold OpenGroup.commentLast
        split <;> rfl

/-- A comment behind the code of a line goes to what it is about, or waits behind the text. -/
theorem Shaped.settle (shaped : body.Shaped level) {comment : Text}
    (seen : Text.IsSeen (some comment)) (number : Nat) :
    (if Text.isBlankText body.top.text then body.anchorComment comment number
      else { body with top := { body.top with
        comment := bothComments body.top.comment (some comment) } }).Shaped level := by
  split
  · rename_i blank
    exact shaped.anchorComment (seen comment rfl) (fun _ => blank) number
  · obtain ⟨kind, spans, noInline, members, lines, below, waiting, earlier, text⟩ :=
      OpenGroup.Stacked.shaped shaped
    exact OpenGroup.Stacked.withTop shaped ⟨kind, spans, noInline, members, lines, below, waiting,
      earlier.both seen, text⟩ rfl rfl

theorem Shaped.endLine (shaped : body.Shaped level) {comment : Option Text}
    (seen : Text.IsSeen comment) (number : Nat) : (body.endLine comment number).Shaped level := by
  have top := OpenGroup.Stacked.shaped shaped
  unfold Body.endLine
  simp only
  cases structured : body.top.structured with
  | true =>
    simp only [Bool.not_true, Bool.false_and, Bool.false_eq_true, if_false, if_true]
    cases comment with
    | none => exact shaped
    | some comment => exact shaped.settle seen number
  | false =>
    simp only [Bool.not_false, Bool.true_and, Bool.false_eq_true, if_false]
    split
    · refine OpenGroup.Stacked.withTop shaped (top.keepLine structured comment number) ?_ ?_ <;>
        · rw [OpenGroup.keepLine_eq]
          rfl
    · have emptied : Body.Shaped level { body with top := { body.top with text := [] } } :=
        OpenGroup.Stacked.withTop shaped (top.withText fun isStructured =>
          Bool.noConfusion (structured.symm.trans isStructured)) rfl rfl
      cases comment with
      | none => exact emptied
      | some comment => exact emptied.settle seen number

theorem Shaped.startLine (shaped : body.Shaped level) : body.startLine.Shaped level := by
  have top := OpenGroup.Stacked.shaped shaped
  refine OpenGroup.Stacked.withTop shaped ?_ rfl rfl
  obtain ⟨kind, spans, noInline, members, lines, below, waiting, comment, text⟩ := top
  refine ⟨kind, spans, noInline, members, lines, below, waiting, comment, fun structured some => ?_⟩
  have seen := text structured some
  unfold Body.startLine
  simp only
  split
  · exact Text.isBlankText_append_of_seen seen _
  · exact seen

theorem Shaped.readComment (shaped : body.Shaped level) {line : Text} {inBlock : Bool}
    (seen : inBlock = true ∨ Text.isBlankText line = false) (number : Nat) :
    (body.readComment line inBlock number).Shaped level := by
  have top := OpenGroup.Stacked.shaped shaped
  have note : ∀ level, (Node.ofComment line inBlock level number).IsNote level :=
    fun level => Node.isNote_ofComment seen level number
  unfold Body.readComment
  simp only
  split
  · rename_i waits
    simp only [Bool.and_eq_true] at waits
    obtain ⟨kind, spans, noInline, members, lines, below, waiting, comment, text⟩ := top
    refine OpenGroup.Stacked.withTop shaped ⟨kind, spans, noInline, members, lines, below, ?_,
      comment, text⟩ rfl rfl
    refine OpenGroup.forall_mem_append waiting (List.forall_mem_singleton.mpr ?_)
    rw [if_pos waits.1]
    exact note _
  · refine OpenGroup.Stacked.withTop shaped
      (top.appendNote (note _) ?_ fun structured => ?_) rfl rfl
    · split
      · exact le_rfl
      · exact Int.le_add_of_nonneg_right (Int.natCast_nonneg _)
    · rw [if_pos structured]

inductive Progress.Shaped (level : Int) : Progress → Prop where
  | more {body : Body} (shaped : body.Shaped level) : Shaped level (.more body)
  | closed {node : Node} (defines : node.IsDefinition level) : Shaped level (.closed node)

theorem shaped_lineRun {comment : Option Text} {code : Text} {progress : Progress}
    (run : LineRun limit comment number q body code progress) (seen : Text.IsSeen comment)
    (shaped : body.Shaped level) : progress.Shaped level := by
  induction run with
  | finish => exact .more (shaped.endLine seen number)
  | @close q top anchor rest node code settled closed =>
    cases shaped with
    | outermost shaped defines same =>
      have whole := (shaped.close settled number).node
      obtain ⟨kind, level⟩ := top.kind_close number
      obtain ⟨-, rfl⟩ := Body.closeDefinition_eq_ok.mp closed
      have dressed : (top.close number).node.Dressed { (top.close number).node with
          trailer := Text.neat rest, closingComment := comment } := ⟨rfl⟩
      exact .closed ⟨kind.trans defines, level.trans same, dressed.shaped whole⟩
  | step taken later ih => exact ih (shaped.step taken)

theorem shaped_readLine {line : CodeLine} {progress : Progress}
    (read : body.readLine limit line number = .ok progress) (seen : Text.IsSeen line.comment)
    (shaped : body.Shaped level) : progress.Shaped level :=
  shaped_lineRun (lineRun_of_readCode _ _ _ _ _ _ _ read) seen shaped.startLine

theorem shaped_start {node : Node} {first : Text} {progress : Progress}
    (started : Body.start node limit first = .ok progress) (kind : node.kind = .typeDefinition)
    (spans : node.oneLine = some false) (noInline : node.inlineMembers = none)
    (bare : node.children = []) (seen : Text.IsSeen node.openingComment) :
    progress.Shaped node.level := by
  have opened : ∀ {other : Node}, other.kind = .typeDefinition → other.oneLine = some false →
      other.inlineMembers = none → other.children = [] → OpenGroup.Shaped { node := other } := by
    intro other kind spans noInline bare
    exact ⟨.inl kind, spans, noInline, by simp [bare], by simp [bare], by simp [bare], by simp,
      by simp [Text.IsSeen], fun _ some => absurd rfl some⟩
  rcases Body.lineRun_of_start started with ⟨-, rfl⟩ | run
  · exact .more (.outermost (opened kind spans noInline bare) kind rfl)
  · refine shaped_lineRun run seen ?_
    exact .outermost (opened kind spans noInline bare) kind rfl

end Body

end AsnLayout
