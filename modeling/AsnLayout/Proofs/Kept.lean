import AsnLayout.Proofs.Reading
import AsnLayout.Proofs.Written

/-!
# What a reader keeps

While the body of a definition is read, its open groups have the tally of the text read so far.  A
comment may move past the code around it, so a tally either does not tell the order of characters
or is taken of a schema without comments; in both cases the tallies of comments are central.
-/

set_option autoImplicit false

namespace AsnLayout

namespace Node

def begun (node : Node) : Text :=
  node.header.getD [] ++ '{' :: node.openingComment.getD [] ++ node.body

theorem exists_lastField (nodes : List Node) (some : nodes.any isField = true) :
    ∃ front node back, nodes = front ++ node :: back ∧ node.isField = true ∧
      back.any isField = false := by
  induction nodes with
  | nil => simp at some
  | cons node later ih =>
    by_cases more : later.any isField = true
    · obtain ⟨front, last, back, rfl, isField, none⟩ := ih more
      exact ⟨node :: front, last, back, rfl, isField, none⟩
    · have none : later.any Node.isField = false := by simpa using more
      refine ⟨[], node, later, rfl, ?_, none⟩
      simpa [none] using some

theorem modifyLastField_append (change : Node → Node) (front back : List Node) (node : Node)
    (isField : node.isField = true) (none : back.any Node.isField = false) :
    modifyLastField change (front ++ node :: back) = front ++ change node :: back := by
  induction front with
  | nil => simp [modifyLastField, isField, none]
  | cons first front ih => simp [modifyLastField, isField, ih]

@[simp]
theorem isField_ofMember (text : Text) (level : Int) (number : Nat) :
    (ofMember text level number).isField = true := rfl

@[simp]
theorem isField_ofComment (line : Text) (blockLine : Bool) (level : Int) (number : Nat) :
    (ofComment line blockLine level number).isField = false := rfl

theorem written_ofMember (text : Text) (level : Int) (number : Nat) :
    (ofMember text level number).written = text := by
  rw [written_of_isField _ rfl rfl]
  simp [ofMember]

end Node

namespace Tally

variable {M : Type} [Monoid M] (tally : Tally M)

def Moves (t : Text) : Prop := ∀ m : M, tally.text t * m = m * tally.text t

def RemarkMoves (comment : Option Text) : Prop := tally.Moves (comment.getD [])

def Remarks (nodes : List Node) : Prop :=
  ∀ node ∈ nodes, node.kind = .comment ∧ tally.Moves node.content

variable {tally}

theorem moves_nil : tally.Moves [] := by
  intro m
  simp

theorem Moves.append {front back : Text} (moves : tally.Moves front) (moves' : tally.Moves back) :
    tally.Moves (front ++ back) := by
  intro m
  rw [text_append, mul_assoc, moves' m, ← mul_assoc, moves m, mul_assoc]

theorem Moves.of_eq {given moved : Text} (moves : tally.Moves given)
    (same : tally.text moved = tally.text given) : tally.Moves moved := by
  intro m
  rw [same, moves m]

theorem RemarkMoves.both {earlier later : Option Text} (moves : tally.RemarkMoves earlier)
    (moves' : tally.RemarkMoves later) : tally.RemarkMoves (bothComments earlier later) := by
  apply (Moves.append moves moves').of_eq
  rw [text_append]
  exact tally.remark_bothComments earlier later

theorem Remarks.append {front back : List Node} (remarks : tally.Remarks front)
    (remarks' : tally.Remarks back) : tally.Remarks (front ++ back) := by
  intro node member
  rcases List.mem_append.mp member with member | member
  · exact remarks node member
  · exact remarks' node member

theorem Remarks.any_isField {nodes : List Node} (remarks : tally.Remarks nodes) :
    nodes.any Node.isField = false := by
  rw [List.any_eq_false]
  intro node member
  simp [Node.isField, (remarks node member).1]

theorem Remarks.writtenAll {nodes : List Node} (remarks : tally.Remarks nodes) :
    Node.writtenAll nodes = Node.contents nodes := by
  induction nodes with
  | nil => rfl
  | cons node later ih =>
    have noField : node.isField = false := by
      simp [Node.isField, (remarks node (List.mem_cons_self ..)).1]
    have here := node.written_of_not_isField noField
    have rest := ih fun other member => remarks other (List.mem_cons_of_mem node member)
    simp [Node.contents, here, rest]

theorem Remarks.moves {nodes : List Node} (remarks : tally.Remarks nodes) :
    tally.Moves (Node.contents nodes) := by
  induction nodes with
  | nil => exact moves_nil
  | cons node later ih =>
    have here := (remarks node (List.mem_cons_self ..)).2
    have rest := ih fun other member => remarks other (List.mem_cons_of_mem node member)
    exact here.append rest

theorem text_content_ofComment (line : Text) (blockLine : Bool) (level : Int) (number : Nat) :
    tally.text (Node.ofComment line blockLine level number).content = tally.text line := by
  cases blockLine <;> simp [Node.ofComment]

theorem Moves.remarks_ofComment {line : Text} (moves : tally.Moves line) (blockLine : Bool)
    (level : Int) (number : Nat) :
    tally.Remarks [Node.ofComment line blockLine level number] := by
  intro node member
  rw [List.mem_singleton.mp member]
  exact ⟨rfl, moves.of_eq (text_content_ofComment ..)⟩

/-! ## Members -/

theorem text_written_addComment (node : Node) (comment : Text) (isField : node.isField = true) :
    tally.text (node.addComment comment).written =
      tally.text node.written * tally.text comment := by
  by_cases spans : node.spansLines = true
  · have same : node.addComment comment =
        { node with closingComment := bothComments node.closingComment (some comment) } := by
      rw [Node.addComment, if_pos spans]
    have spans' : (node.addComment comment).spansLines = true := by
      rw [same]
      exact spans
    rw [Node.written_of_spansLines _ spans', Node.written_of_spansLines _ spans, same]
    rw [text_framed, text_framed, remark_bothComments]
    simp only [remark_some, ← mul_assoc]
    rfl
  · have single : node.spansLines = false := by simpa using spans
    have same : node.addComment comment =
        { node with openingComment := bothComments node.openingComment (some comment) } := by
      rw [Node.addComment, if_neg spans]
    have single' : (node.addComment comment).spansLines = false := by
      rw [same]
      exact single
    have isField' : (node.addComment comment).isField = true := by
      rw [same]
      exact isField
    rw [Node.written_of_isField _ isField' single', Node.written_of_isField _ isField single,
      same, text_append, text_append, ← remark, ← remark, remark_bothComments]
    simp only [remark_some, mul_assoc]

theorem writtenAll_addComment (nodes : List Node) (comment : Text) (moves : tally.Moves comment)
    (some : nodes.any Node.isField = true) :
    tally.text (Node.writtenAll (Node.modifyLastField (·.addComment comment) nodes)) =
      tally.text (Node.writtenAll nodes) * tally.text comment := by
  obtain ⟨front, node, back, rfl, isField, none⟩ := Node.exists_lastField nodes some
  rw [Node.modifyLastField_append _ front back node isField none]
  simp only [Node.writtenAll_append, Node.writtenAll_cons, text_append,
    text_written_addComment node comment isField]
  rw [mul_assoc (tally.text node.written), moves]
  simp only [mul_assoc]

variable (tally) in
/-- The last member among nodes is a group without a trailer, and only remarks follow it. -/
def Trailing (nodes : List Node) : Prop :=
  ∃ front inner back, nodes = front ++ inner :: back ∧ inner.spansLines = true ∧
    inner.trailer = [] ∧ tally.RemarkMoves inner.closingComment ∧ tally.Remarks back

theorem Trailing.append {nodes more : List Node} (trailing : tally.Trailing nodes)
    (remarks : tally.Remarks more) : tally.Trailing (nodes ++ more) := by
  obtain ⟨front, inner, back, rfl, spans, noTrailer, closing, behind⟩ := trailing
  exact ⟨front, inner, back ++ more, by simp, spans, noTrailer, closing, behind.append remarks⟩

theorem isField_of_spansLines {node : Node} (spans : node.spansLines = true) :
    node.isField = true := by
  simp only [Node.spansLines, Bool.and_eq_true] at spans
  exact spans.1

theorem Trailing.addComment {nodes : List Node} (trailing : tally.Trailing nodes) (comment : Text)
    (moves : tally.Moves comment) :
    tally.Trailing (Node.modifyLastField (·.addComment comment) nodes) := by
  obtain ⟨front, inner, back, rfl, spans, noTrailer, closing, behind⟩ := trailing
  rw [Node.modifyLastField_append _ front back inner (isField_of_spansLines spans)
    behind.any_isField]
  have same : inner.addComment comment =
      { inner with closingComment := bothComments inner.closingComment (some comment) } := by
    rw [Node.addComment, if_pos spans]
  refine ⟨front, inner.addComment comment, back, rfl, ?_, ?_, ?_, behind⟩
  · rw [same]
    exact spans
  · rw [same]
    exact noTrailer
  · rw [same]
    exact RemarkMoves.both closing moves

theorem Trailing.writtenAll_trailer {nodes : List Node} (trailing : tally.Trailing nodes)
    (trailer : Text) :
    tally.text (Node.writtenAll
        (Node.modifyLastField (fun node => { node with trailer }) nodes)) =
      tally.text (Node.writtenAll nodes) * tally.text trailer := by
  obtain ⟨front, inner, back, rfl, spans, noTrailer, closing, behind⟩ := trailing
  rw [Node.modifyLastField_append _ front back inner (isField_of_spansLines spans)
    behind.any_isField]
  have spans' : ({ inner with trailer } : Node).spansLines = true := spans
  have here : tally.text ({ inner with trailer } : Node).written =
      tally.text inner.written * tally.text trailer := by
    rw [Node.written_of_spansLines _ spans', Node.written_of_spansLines _ spans, text_framed,
      text_framed, noTrailer]
    have moved : tally.text trailer * tally.remark inner.closingComment =
        tally.remark inner.closingComment * tally.text trailer := (closing _).symm
    simp only [text_nil, mul_one, mul_assoc, moved]
    rfl
  have past := behind.moves (tally.text trailer)
  rw [← behind.writtenAll] at past
  simp only [Node.writtenAll_append, Node.writtenAll_cons, text_append, here, mul_assoc, past]

/-! ## Open groups -/

variable (tally) in
/-- The comments that wait for the end of the member being read. -/
def loose (group : OpenGroup) : M :=
  tally.remark group.comment * tally.text (Node.contents group.waiting)

variable (tally) in
/-- The tally of what has been read of a group, the comments that wait before the rest. -/
def group (group : OpenGroup) : M :=
  tally.loose group * tally.text group.node.begun * tally.text group.text

end Tally

namespace OpenGroup

variable {M : Type} [Monoid M] (tally : Tally M)

/-- What holds of a group as long as it is open. -/
structure Sound (group : OpenGroup) : Prop where
  unclosed : group.node.trailer = [] ∧ group.node.closingComment = none
  comment : tally.RemarkMoves group.comment
  waiting : tally.Remarks group.waiting
  /-- Nothing waits in an unstructured group. -/
  idle : group.structured = false →
    group.comment = none ∧ group.waiting = [] ∧ group.pending = false
  /-- The last member of a group that waits for a trailer is a closed group. -/
  trailing : group.pending = true → tally.Trailing group.node.children

end OpenGroup

namespace Tally

variable {M : Type} [Monoid M] {tally : Tally M}

theorem text_begun (node : Node) :
    tally.text node.begun = tally.text (node.header.getD []) * tally.of '{' *
      tally.remark node.openingComment * tally.text node.body := by
  simp [Node.begun, remark, mul_assoc]

variable (tally) in
theorem text_begun_children (node : Node) (children : List Node) (added : M)
    (grown : tally.text ({ node with children } : Node).body = tally.text node.body * added) :
    tally.text ({ node with children } : Node).begun = tally.text node.begun * added := by
  rw [text_begun, text_begun, grown]
  simp only [mul_assoc]

theorem loose_moves (group : OpenGroup) (sound : group.Sound tally) (m : M) :
    tally.loose group * m = m * tally.loose group := by
  have comment : ∀ m : M, tally.remark group.comment * m = m * tally.remark group.comment :=
    sound.comment
  rw [loose, mul_assoc, sound.waiting.moves m, ← mul_assoc, comment m, mul_assoc]

/-! ## Ends of members -/

end Tally

namespace OpenGroup

def withMember (group : OpenGroup) (number : Nat) : List Node :=
  let text := Text.memberForm group.text
  if group.pending then
    Node.modifyLastField (fun node => { node with trailer := text }) group.node.children
  else if text = [] then group.node.children
  else group.node.children ++ [Node.ofMember text group.level number]

/-- The comment behind a member goes to the member if there is one. -/
def withRemark (group : OpenGroup) (number : Nat) (children : List Node) : List Node :=
  match group.comment with
  | none => children
  | some comment =>
    if group.endsMember then Node.modifyLastField (·.addComment comment) children
    else children ++ [Node.ofComment comment false group.level number]

theorem endMember_eq (group : OpenGroup) (number : Nat) :
    group.endMember number =
      { group with
        node := { group.node with
          children := group.withRemark number (group.withMember number) ++ group.waiting }
        text := []
        pending := false
        comment := none
        waiting := [] } := by
  unfold endMember withRemark withMember
  cases given : group.comment with
  | none =>
    by_cases pending : group.pending = true
    · simp [pending, modifyLastField, append]
    · by_cases empty : Text.memberForm group.text = []
      · simp [pending, empty, append]
      · simp [pending, empty, append]
  | some comment =>
    by_cases pending : group.pending = true
    · simp [pending, modifyLastField, append, endsMember]
    · by_cases empty : Text.memberForm group.text = []
      · simp [pending, empty, append, endsMember]
      · simp [pending, empty, append, endsMember, modifyLastField]

theorem keepLine_eq (group : OpenGroup) (comment : Option Text) (number : Nat) :
    group.keepLine comment number =
      { group.append (if Text.neat group.text = [] then []
          else [group.lineNode (Text.neat group.text) comment number]) with text := [] } := by
  by_cases empty : Text.neat group.text = []
  · -- A tree is not its own eta expansion before its constructor is shown.
    rw [keepLine, if_pos empty, if_pos empty, append, List.append_nil]
    cases group.node
    rfl
  · simp only [keepLine, if_neg empty, append, lineNode, level]

end OpenGroup

namespace Tally

variable {M : Type} [Monoid M] {tally : Tally M}

theorem writtenAll_withMember (group : OpenGroup) (number : Nat) (sound : group.Sound tally) :
    tally.text (Node.writtenAll (group.withMember number)) =
      tally.text (Node.writtenAll group.node.children) * tally.text group.text := by
  unfold OpenGroup.withMember
  by_cases pending : group.pending = true
  · simp only [if_pos pending]
    rw [(sound.trailing pending).writtenAll_trailer, text_memberForm]
  · simp only [if_neg pending]
    have kept := tally.text_memberForm group.text
    split
    · rename_i empty
      rw [← kept, empty]
      simp
    · simp [Node.written_ofMember]

theorem any_isField_withMember (group : OpenGroup) (number : Nat) (sound : group.Sound tally)
    (ends : group.endsMember = true) : (group.withMember number).any Node.isField = true := by
  unfold OpenGroup.withMember
  by_cases pending : group.pending = true
  · simp only [if_pos pending]
    obtain ⟨front, inner, back, children, spans, _, _, behind⟩ := sound.trailing pending
    have isField := isField_of_spansLines spans
    rw [children, Node.modifyLastField_append _ front back inner isField behind.any_isField]
    simp only [List.any_append, List.any_cons]
    have same : ({ inner with trailer := Text.memberForm group.text } : Node).isField = true :=
      isField
    simp [same]
  · have some : Text.memberForm group.text ≠ [] := by
      simpa [OpenGroup.endsMember, pending] using ends
    simp [if_neg pending, if_neg some]

theorem writtenAll_endMember (group : OpenGroup) (number : Nat) (sound : group.Sound tally) :
    tally.text (Node.writtenAll (group.endMember number).node.children) =
      tally.text (Node.writtenAll group.node.children) * tally.text group.text *
        tally.loose group := by
  have member := writtenAll_withMember group number sound
  have remarked : tally.text (Node.writtenAll
      (group.withRemark number (group.withMember number))) =
      tally.text (Node.writtenAll (group.withMember number)) * tally.remark group.comment := by
    unfold OpenGroup.withRemark
    cases given : group.comment with
    | none => simp
    | some comment =>
      have moves : tally.Moves comment := by
        have moves := sound.comment
        rwa [given] at moves
      simp only [remark_some]
      split
      · rename_i ends
        exact writtenAll_addComment _ comment moves (any_isField_withMember group number sound ends)
      · rw [Node.writtenAll_append, text_append, Node.writtenAll_cons,
          Node.written_of_not_isField _ rfl]
        simp [text_content_ofComment]
  rw [OpenGroup.endMember_eq, Node.writtenAll_append, text_append, remarked, member,
    sound.waiting.writtenAll, loose]
  simp only [mul_assoc]

theorem group_endMember (group : OpenGroup) (number : Nat) (sound : group.Sound tally)
    (structured : group.structured = true) :
    tally.group (group.endMember number) = tally.group group ∧
      (group.endMember number).Sound tally := by
  have children := writtenAll_endMember group number sound
  have isStructured : group.node.isStructured = true := structured
  rw [OpenGroup.endMember_eq] at children ⊢
  constructor
  · have grown := text_begun_children tally group.node
      (group.withRemark number (group.withMember number) ++ group.waiting)
      (tally.text group.text * tally.loose group) (by
        have isStructured' : ({ group.node with
            children := group.withRemark number (group.withMember number) ++ group.waiting } :
            Node).isStructured = true := isStructured
        rw [Node.body, Node.body, if_pos isStructured', if_pos isStructured, ← mul_assoc]
        exact children)
    have moved := loose_moves group sound (tally.text group.node.begun * tally.text group.text)
    simp only [Tally.group, grown, mul_assoc, moved]
    simp [loose, Node.contents]
  · refine ⟨sound.unclosed, moves_nil, ?_, ?_, ?_⟩
    · intro node member
      cases member
    · intro unstructured
      exact ⟨rfl, rfl, rfl⟩
    · intro pending
      cases pending

/-! ## Comments and lines of a group -/

theorem Remarks.text_body {nodes : List Node} (remarks : tally.Remarks nodes) (node : Node) :
    tally.text ({ node with children := node.children ++ nodes } : Node).body =
      tally.text node.body * tally.text (Node.contents nodes) := by
  have sameKind : ({ node with children := node.children ++ nodes } : Node).isStructured =
    node.isStructured := rfl
  unfold Node.body
  rw [sameKind]
  split
  · rw [Node.writtenAll_append, text_append, remarks.writtenAll]
  · rw [Node.contents_append, text_append]

/-- Comment lines among the children of a group are read once. -/
theorem group_append (group : OpenGroup) (nodes : List Node) (sound : group.Sound tally)
    (remarks : tally.Remarks nodes) :
    tally.group (group.append nodes) = tally.group group * tally.text (Node.contents nodes) ∧
      (group.append nodes).Sound tally := by
  constructor
  · have grown := text_begun_children tally group.node _ _ (remarks.text_body group.node)
    have moved := remarks.moves (tally.text group.text)
    simp only [Tally.group, OpenGroup.append, grown, mul_assoc, moved]
    rfl
  · refine ⟨sound.unclosed, sound.comment, sound.waiting, sound.idle, ?_⟩
    intro pending
    exact (sound.trailing pending).append remarks

theorem group_commentLast (group : OpenGroup) (comment : Text) (number : Nat)
    (sound : group.Sound tally) (structured : group.structured = true)
    (moves : tally.Moves comment) :
    tally.group (group.commentLast comment number) = tally.group group * tally.text comment ∧
      (group.commentLast comment number).Sound tally := by
  unfold OpenGroup.commentLast
  split
  · rename_i found
    constructor
    · have isStructured : group.node.isStructured = true := structured
      have grown := text_begun_children tally group.node
        (Node.modifyLastField (·.addComment comment) group.node.children) (tally.text comment) (by
          have isStructured' : ({ group.node with
              children := Node.modifyLastField (·.addComment comment) group.node.children } :
              Node).isStructured = true := isStructured
          rw [Node.body, Node.body, if_pos isStructured', if_pos isStructured]
          exact writtenAll_addComment _ comment moves found)
      have moved := moves (tally.text group.text)
      simp only [Tally.group, OpenGroup.modifyLastField, grown, mul_assoc, moved]
      rfl
    · refine ⟨sound.unclosed, sound.comment, sound.waiting, sound.idle, ?_⟩
      intro pending
      exact (sound.trailing pending).addComment comment moves
  · obtain ⟨kept, sound'⟩ :=
      group_append group _ sound (moves.remarks_ofComment false group.level number)
    refine ⟨?_, sound'⟩
    rw [kept]
    simp [Node.contents, text_content_ofComment]

theorem group_keepLine (group : OpenGroup) (comment : Option Text) (number : Nat)
    (sound : group.Sound tally) (unstructured : group.structured = false)
    (reason : Text.neat group.text = [] → comment = none) :
    tally.group (group.keepLine comment number) = tally.group group * tally.remark comment ∧
      (group.keepLine comment number).text = [] ∧
      (group.keepLine comment number).Sound tally := by
  have isStructured : group.node.isStructured = false := unstructured
  have notPending := (sound.idle unstructured).2.2
  have kept := tally.text_neat group.text
  rw [OpenGroup.keepLine_eq]
  refine ⟨?_, rfl, sound.unclosed, sound.comment, sound.waiting, sound.idle, ?_⟩
  · have grown := fun children : List Node => text_begun_children tally group.node
      (group.node.children ++ children) (tally.text (Node.contents children)) (by
        have isStructured' : ({ group.node with
            children := group.node.children ++ children } : Node).isStructured = false :=
          isStructured
        rw [Node.body, Node.body, if_neg (by simp [isStructured']),
          if_neg (by simp [isStructured])]
        simp)
    have line : tally.text (Node.contents (if Text.neat group.text = [] then []
        else [group.lineNode (Text.neat group.text) comment number])) =
        tally.text group.text * tally.remark comment := by
      split
      · rename_i empty
        rw [← kept, empty, reason empty]
        simp [Node.contents]
      · simp [OpenGroup.lineNode, Node.contents]
    simp only [Tally.group, OpenGroup.append, grown, line, text_nil, mul_one, mul_assoc]
    rfl
  · intro pending
    have pending : group.pending = true := pending
    rw [notPending] at pending
    cases pending

/-! ## Groups that close -/

end Tally

namespace Node

def head (node : Node) : NodeKind × Text × Option Bool := (node.kind, node.name, node.oneLine)

theorem spansLines_of_head {node other : Node} (same : node.head = other.head) :
    node.spansLines = other.spansLines := by
  simp only [head, Prod.mk.injEq] at same
  simp only [spansLines, isField, same.1, same.2.2]

end Node

namespace OpenGroup

@[simp]
theorem head_append (group : OpenGroup) (nodes : List Node) :
    (group.append nodes).node.head = group.node.head := rfl

@[simp]
theorem head_endMember (group : OpenGroup) (number : Nat) :
    (group.endMember number).node.head = group.node.head := by
  rw [endMember_eq]
  rfl

@[simp]
theorem head_keepLine (group : OpenGroup) (comment : Option Text) (number : Nat) :
    (group.keepLine comment number).node.head = group.node.head := by
  rw [keepLine_eq]
  rfl

@[simp]
theorem head_commentLast (group : OpenGroup) (comment : Text) (number : Nat) :
    (group.commentLast comment number).node.head = group.node.head := by
  unfold commentLast
  split <;> rfl

@[simp]
theorem head_close (group : OpenGroup) (number : Nat) :
    (group.close number).node.head = group.node.head := by
  unfold close
  split <;> simp

end OpenGroup

namespace Tally

variable {M : Type} [Monoid M] {tally : Tally M}

/-- Before its closing brace all that was read of a group belongs to its node. -/
theorem text_begun_close (group : OpenGroup) (number : Nat) (sound : group.Sound tally) :
    tally.text (group.close number).node.begun = tally.group group ∧
      (group.close number).node.trailer = [] ∧
      (group.close number).node.closingComment = none := by
  have settled : ∀ closed : OpenGroup, closed.Sound tally → closed.text = [] →
      closed.comment = none → closed.waiting = [] → tally.group closed = tally.group group →
      tally.text closed.node.begun = tally.group group ∧ closed.node.trailer = [] ∧
        closed.node.closingComment = none := by
    intro closed sound' noText noComment noWaiting kept
    refine ⟨?_, sound'.unclosed⟩
    rw [← kept, Tally.group, loose, noText, noComment, noWaiting]
    simp [Node.contents]
  unfold OpenGroup.close
  by_cases structured : group.structured = true
  · rw [if_pos structured]
    obtain ⟨kept, sound'⟩ := group_endMember group number sound structured
    refine settled _ sound' ?_ ?_ ?_ kept <;> rw [OpenGroup.endMember_eq]
  · have unstructured : group.structured = false := by simpa using structured
    rw [if_neg structured]
    obtain ⟨kept, noText, sound'⟩ :=
      group_keepLine group none number sound unstructured (fun _ => rfl)
    have idle : (group.keepLine none number).structured = false := by
      rw [OpenGroup.keepLine_eq]
      exact unstructured
    obtain ⟨noComment, noWaiting, _⟩ := sound'.idle idle
    refine settled _ sound' noText noComment noWaiting ?_
    rw [kept, remark_none, mul_one]

theorem text_framed_of_unclosed (node : Node) (noTrailer : node.trailer = [])
    (noComment : node.closingComment = none) :
    tally.text (node.framed node.body) = tally.text node.begun * tally.of '}' := by
  rw [text_framed, text_begun, noTrailer, noComment]
  simp [mul_assoc]

theorem group_adopt (outer : OpenGroup) (inner : Node) (sound : outer.Sound tally)
    (structured : outer.structured = true) (noText : outer.text = [])
    (spans : inner.spansLines = true) (noTrailer : inner.trailer = [])
    (noComment : inner.closingComment = none) :
    tally.group (outer.adopt inner) =
        tally.group outer * (tally.text inner.begun * tally.of '}') ∧
      (outer.adopt inner).Sound tally := by
  constructor
  · have isStructured : outer.node.isStructured = true := structured
    have grown := text_begun_children tally outer.node (outer.node.children ++ [inner])
      (tally.text inner.begun * tally.of '}') (by
        have isStructured' : ({ outer.node with children := outer.node.children ++ [inner] } :
            Node).isStructured = true := isStructured
        rw [Node.body, Node.body, if_pos isStructured', if_pos isStructured,
          ← text_framed_of_unclosed inner noTrailer noComment]
        simp [inner.written_of_spansLines spans])
    simp only [Tally.group, OpenGroup.adopt, OpenGroup.append, grown, noText, text_nil, mul_one,
      mul_assoc]
    rfl
  · refine ⟨sound.unclosed, sound.comment, sound.waiting, ?_, ?_⟩
    · intro unstructured
      have structured' : (outer.adopt inner).structured = true := structured
      simp [structured'] at unstructured
    · intro _
      refine ⟨outer.node.children, inner, [], rfl, spans, noTrailer, ?_, ?_⟩
      · rw [noComment]
        exact moves_nil
      · intro node member
        cases member

/-! ## Bodies -/

variable (tally) in
def groups : List OpenGroup → M
  | [] => 1
  | inner :: outer => groups outer * tally.group inner

variable (tally) in
def body (body : Body) : M := tally.groups (body.top :: body.below)

end Tally

namespace Body

variable {M : Type} [Monoid M] (tally : Tally M)

/-- The groups around an open one: each is structured, reads no member of its own meanwhile, and
the outermost belongs to the definition. -/
def Stacked (definition : Node) : OpenGroup → List OpenGroup → Prop
  | root, [] => root.node.head = definition.head
  | inner, outer :: below =>
    inner.node.spansLines = true ∧ outer.Sound tally ∧ outer.structured = true ∧
      outer.text = [] ∧ Stacked definition outer below

structure Sound (definition : Node) (body : Body) : Prop where
  top : body.top.Sound tally
  stacked : Stacked tally definition body.top body.below
  anchored : body.anchor = .member → body.top.structured = true

end Body

namespace Tally

variable {M : Type} [Monoid M] {tally : Tally M} {definition : Node}

theorem stacked_of_head {top other : OpenGroup} {below : List OpenGroup}
    (same : other.node.head = top.node.head) (stacked : Body.Stacked tally definition top below) :
    Body.Stacked tally definition other below := by
  cases below with
  | nil => exact same.trans stacked
  | cons outer below =>
    refine ⟨?_, stacked.2⟩
    rw [Node.spansLines_of_head same]
    exact stacked.1

theorem body_top (body : Body) (top : OpenGroup) (anchor : Anchor) (added : M)
    (sound : body.Sound tally definition)
    (kept : tally.group top = tally.group body.top * added ∧ top.Sound tally)
    (same : top.node.head = body.top.node.head)
    (anchored : anchor = .member → top.structured = true) :
    tally.body { body with top, anchor } = tally.body body * added ∧
      Body.Sound tally definition { body with top, anchor } := by
  refine ⟨?_, kept.2, stacked_of_head same sound.stacked, anchored⟩
  simp only [Tally.body, groups, kept.1, mul_assoc]

theorem group_take (group : OpenGroup) (c : Char) (sound : group.Sound tally) :
    tally.group (group.take c) = tally.group group * tally.of c ∧
      (group.take c).Sound tally := by
  refine ⟨?_, sound.unclosed, sound.comment, sound.waiting, sound.idle, sound.trailing⟩
  simp only [Tally.group, OpenGroup.take, text_append, text_cons, text_nil, mul_one, mul_assoc]
  rfl

theorem group_takeCode (group : OpenGroup) (c : Char) (sound : group.Sound tally) :
    tally.group (group.takeCode c) = tally.group group * tally.of c ∧
      (group.takeCode c).Sound tally := by
  obtain ⟨kept, taken⟩ := group_take group c sound
  exact ⟨kept, taken.unclosed, taken.comment, taken.waiting, taken.idle, taken.trailing⟩

theorem body_enterGroup (body next : Body) (limit : Int) (number : Nat)
    (sound : body.Sound tally definition) (structured : body.top.structured = true)
    (entered : body.enterGroup limit number = .ok next) :
    tally.body next = tally.body body * tally.of '{' ∧ next.Sound tally definition := by
  obtain ⟨single, -, rfl⟩ := Body.enterGroup_eq_ok.mp entered
  -- The comments that wait move over to the new group with its header.
  have waiting := sound.top.waiting
  have remarks : tally.Remarks (body.top.groupNode number).children := by
    intro node member
    obtain ⟨given, found, rfl⟩ := List.mem_map.mp member
    exact waiting given found
  have sameContents : Node.contents (body.top.groupNode number).children =
      Node.contents body.top.waiting := by
    simp [OpenGroup.groupNode, Node.contents, List.flatMap_map]
  have begun : tally.text (body.top.groupNode number).begun =
      tally.text body.top.text * tally.of '{' * tally.loose body.top := by
    have bodyText : tally.text (body.top.groupNode number).body =
        tally.text (Node.contents body.top.waiting) := by
      unfold Node.body
      split
      · rw [remarks.writtenAll, sameContents]
      · rw [sameContents]
    rw [text_begun, bodyText, loose]
    simp [OpenGroup.groupNode, mul_assoc]
  constructor
  · have moved := loose_moves body.top sound.top
    have outer : tally.group body.top.withoutHeader = tally.text body.top.node.begun := by
      simp [Tally.group, loose, OpenGroup.withoutHeader, Node.contents]
    have inner : tally.group { node := body.top.groupNode number } =
        tally.text body.top.text * tally.of '{' * tally.loose body.top := by
      rw [Tally.group, begun]
      simp [loose, Node.contents]
    simp only [Tally.body, groups, outer, inner]
    rw [Tally.group, ← moved]
    simp only [mul_assoc]
    rw [← mul_assoc (tally.text body.top.node.begun) (tally.loose body.top), ← moved]
    simp only [mul_assoc]
  · refine ⟨⟨⟨rfl, rfl⟩, moves_nil, ?_, ?_, ?_⟩, ⟨rfl, ?_, structured, rfl, ?_⟩, ?_⟩
    · intro node member
      cases member
    · intro _
      exact ⟨rfl, rfl, rfl⟩
    · intro pending
      cases pending
    · refine ⟨sound.top.unclosed, moves_nil, ?_, ?_, ?_⟩
      · intro node member
        cases member
      · intro _
        exact ⟨rfl, rfl, single⟩
      · intro pending
        exact sound.top.trailing pending
    · have same : body.top.withoutHeader.node.head = body.top.node.head := rfl
      exact stacked_of_head same sound.stacked
    · intro anchor
      cases anchor

theorem body_leave (top outer : OpenGroup) (below : List OpenGroup) (anchor : Anchor)
    (number : Nat) (sound : Body.Sound tally definition ⟨top, outer :: below, anchor⟩) :
    tally.body ⟨outer.adopt (top.close number).node, below, .member⟩ =
        tally.body ⟨top, outer :: below, anchor⟩ * tally.of '}' ∧
      Body.Sound tally definition ⟨outer.adopt (top.close number).node, below, .member⟩ := by
  obtain ⟨spans, outerSound, structured, noText, stacked⟩ := sound.stacked
  obtain ⟨begun, noTrailer, noComment⟩ := text_begun_close top number sound.top
  have spans' : (top.close number).node.spansLines = true := by
    rw [Node.spansLines_of_head (top.head_close number)]
    exact spans
  obtain ⟨kept, adopted⟩ := group_adopt outer (top.close number).node outerSound structured noText
    spans' noTrailer noComment
  have same : (outer.adopt (top.close number).node).node.head = outer.node.head := rfl
  refine ⟨?_, adopted, stacked_of_head same stacked, fun _ => structured⟩
  simp only [Tally.body, groups, kept, begun, mul_assoc]

/-- Each character of a line is read once. -/
theorem body_step {limit : Int} {number : Nat} {q : Quoting} {body next : Body} {c : Char}
    {rest : Text} (taken : Body.Step limit number q body c rest next)
    (sound : body.Sound tally definition) :
    tally.body next = tally.body body * tally.of c ∧ next.Sound tally definition := by
  cases taken with
  | hidden covered =>
    exact body_top body _ body.anchor _ sound (group_take body.top c sound.top) rfl sound.anchored
  | leave code settled => exact body_leave _ _ _ _ number sound
  | enter code settled structured leftOpen entered =>
    exact body_enterGroup body next limit number sound structured entered
  | comma code settled structured =>
    obtain ⟨kept, ended⟩ := group_endMember body.top number sound.top structured
    have structured' : (body.top.endMember number).structured = true := by
      rw [OpenGroup.endMember_eq]
      exact structured
    exact body_top body _ _ _ sound ⟨by rw [kept, of_comma, mul_one], ended⟩
      (body.top.head_endMember number) (fun _ => structured')
  | keep code noClose noGroup noComma =>
    exact body_top body _ body.anchor _ sound (group_takeCode body.top c sound.top) rfl
      sound.anchored

/-! ## Ends of lines -/

theorem group_openingComment (group : OpenGroup) (comment : Text) (sound : group.Sound tally)
    (moves : tally.Moves comment) :
    let openingComment := bothComments group.node.openingComment (some comment)
    tally.group { group with node := { group.node with openingComment } } =
        tally.group group * tally.text comment ∧
      OpenGroup.Sound tally { group with node := { group.node with openingComment } } := by
  refine ⟨?_, sound.unclosed, sound.comment, sound.waiting, sound.idle, sound.trailing⟩
  have sameBody : ({ group.node with
      openingComment := bothComments group.node.openingComment (some comment) } : Node).body =
    group.node.body := rfl
  simp only [Tally.group, text_begun, remark_bothComments, remark_some, sameBody, mul_assoc]
  rw [moves]
  simp only [mul_assoc]
  rfl

theorem body_anchorComment (body : Body) (comment : Text) (number : Nat)
    (sound : body.Sound tally definition) (moves : tally.Moves comment) :
    tally.body (body.anchorComment comment number) = tally.body body * tally.text comment ∧
      (body.anchorComment comment number).Sound tally definition := by
  unfold Body.anchorComment
  cases anchor : body.anchor with
  | nothing =>
    have appended := group_append body.top _ sound.top
      (moves.remarks_ofComment false (body.top.level + body.top.brackets) number)
    have content : tally.text (Node.contents [Node.ofComment comment false
        (body.top.level + body.top.brackets) number]) = tally.text comment := by
      simp [Node.contents, text_content_ofComment]
    rw [content] at appended
    exact body_top body _ _ _ sound appended rfl (by simp)
  | opening =>
    exact body_top body _ _ _ sound (group_openingComment body.top comment sound.top moves) rfl
      (by simp)
  | member =>
    have structured := sound.anchored anchor
    have structured' : (body.top.commentLast comment number).structured = true := by
      unfold OpenGroup.commentLast
      split <;> exact structured
    exact body_top body _ _ _ sound
      (group_commentLast body.top comment number sound.top structured moves)
      (body.top.head_commentLast comment number) (fun _ => structured')

theorem body_endLine (body : Body) (comment : Option Text) (number : Nat)
    (sound : body.Sound tally definition) (moves : tally.RemarkMoves comment) :
    tally.body (body.endLine comment number) = tally.body body * tally.remark comment ∧
      (body.endLine comment number).Sound tally definition := by
  unfold Body.endLine
  by_cases structured : body.top.structured = true
  · simp only [structured, Bool.not_true, Bool.false_and, if_true]
    cases comment with
    | none => simpa using sound
    | some comment =>
      simp only [Bool.false_eq_true, if_false, remark_some]
      split
      · exact body_anchorComment body comment number sound moves
      · refine body_top body _ _ _ sound ⟨?_, ?_⟩ rfl sound.anchored
        · have past : ∀ m : M, tally.text comment * m = m * tally.text comment := moves
          simp only [Tally.group, loose, remark_bothComments, remark_some, mul_assoc]
          rw [past]
          simp only [mul_assoc]
        · refine ⟨sound.top.unclosed, sound.top.comment.both moves, sound.top.waiting, ?_,
            sound.top.trailing⟩
          intro unstructured
          have unstructured : body.top.structured = false := unstructured
          rw [structured] at unstructured
          cases unstructured
  · have unstructured : body.top.structured = false := by simpa using structured
    by_cases empty : Text.neat body.top.text = []
    · have worthless : tally.text body.top.text = 1 := by
        rw [← tally.text_neat, empty]
        rfl
      have cleared := body_top body { body.top with text := [] } body.anchor 1 sound ⟨by
          simp only [Tally.group, worthless, text_nil, mul_one]
          rfl, sound.top.unclosed, sound.top.comment, sound.top.waiting, sound.top.idle,
          sound.top.trailing⟩ rfl sound.anchored
      simp only [unstructured, empty, ne_eq, not_true_eq_false, decide_false, Bool.and_false,
        Bool.false_eq_true, if_false]
      cases comment with
      | none => simpa using cleared
      | some comment =>
        simp only [Text.isBlankText, List.all_nil, if_true, remark_some]
        have anchored := body_anchorComment _ comment number cleared.2 moves
        rw [cleared.1, mul_one] at anchored
        exact anchored
    · simp only [unstructured, empty, ne_eq, not_false_eq_true, decide_true, Bool.not_false,
        Bool.and_self, if_true]
      obtain ⟨kept, _, sound'⟩ := group_keepLine body.top comment number sound.top unstructured
        (fun none => absurd none empty)
      refine body_top body _ _ _ sound ⟨kept, sound'⟩ (body.top.head_keepLine comment number) ?_
      intro anchor
      exact absurd (sound.anchored anchor) structured

/-! ## Lines -/

variable (tally) in
def progress : Body.Progress → M
  | .more body => tally.body body
  | .closed node => tally.text (node.framed node.body)

end Tally

namespace Body.Progress

def Sound {M : Type} [Monoid M] (tally : Tally M) (definition : Node) : Progress → Prop
  | .more body => body.Sound tally definition
  | .closed node => node.head = definition.head

end Body.Progress

namespace Tally

variable {M : Type} [Monoid M] {tally : Tally M} {definition : Node}

theorem text_closeDefinition (top : OpenGroup) (anchor : Anchor) (rest : Text)
    (comment : Option Text) (number : Nat) (node : Node)
    (sound : Body.Sound tally definition ⟨top, [], anchor⟩)
    (closed : Body.closeDefinition (top.close number).node rest comment number = .ok node) :
    tally.text (node.framed node.body) =
        tally.group top * tally.of '}' * tally.text rest * tally.remark comment ∧
      node.head = definition.head := by
  obtain ⟨begun, -, -⟩ := text_begun_close top number sound.top
  unfold Body.closeDefinition at closed
  split at closed
  · cases closed
    constructor
    · rw [← begun, text_begun, text_framed, text_neat]
      rfl
    · exact (top.head_close number).trans sound.stacked
  · cases closed

theorem progress_lineRun {limit : Int} {comment : Option Text} {number : Nat} {q : Quoting}
    {body : Body} {code : Text} {progress : Body.Progress}
    (run : Body.LineRun limit comment number q body code progress)
    (sound : body.Sound tally definition) (moves : tally.RemarkMoves comment) :
    tally.progress progress = tally.body body * tally.text code * tally.remark comment ∧
      progress.Sound tally definition := by
  induction run with
  | finish =>
    rw [text_nil, mul_one]
    exact body_endLine _ comment number sound moves
  | close shown settled closed =>
    obtain ⟨kept, same⟩ := text_closeDefinition _ _ _ _ _ _ sound closed
    refine ⟨?_, same⟩
    rw [Tally.progress, kept, text_cons, Tally.body, groups, groups, one_mul, ← mul_assoc]
  | step taken later ih =>
    obtain ⟨kept, sound'⟩ := body_step taken sound
    obtain ⟨kept', sound''⟩ := ih sound'
    refine ⟨?_, sound''⟩
    rw [kept', kept, text_cons, ← mul_assoc]

theorem body_startLine (body : Body) (sound : body.Sound tally definition) :
    tally.body body.startLine = tally.body body ∧ body.startLine.Sound tally definition := by
  have kept : tally.group body.startLine.top = tally.group body.top * 1 := by
    unfold Body.startLine
    simp only [Tally.group, mul_one]
    split
    · rw [text_append, text_cons, of_space, text_nil, mul_one, mul_one]
      rfl
    · rfl
  have started := body_top body body.startLine.top .nothing 1 sound
    ⟨kept, sound.top.unclosed, sound.top.comment, sound.top.waiting, sound.top.idle,
      sound.top.trailing⟩ rfl (by simp)
  rw [mul_one] at started
  exact started

theorem progress_readLine (body : Body) (limit : Int) (line : CodeLine) (number : Nat)
    (progress : Body.Progress) (sound : body.Sound tally definition)
    (moves : tally.RemarkMoves line.comment)
    (read : body.readLine limit line number = .ok progress) :
    tally.progress progress = tally.body body * tally.text line.code * tally.remark line.comment ∧
      progress.Sound tally definition := by
  obtain ⟨kept, started⟩ := body_startLine body sound
  rw [← kept]
  exact progress_lineRun (Body.lineRun_of_readCode _ _ _ _ _ _ _ read) started moves

theorem body_readComment (body : Body) (line : Text) (blockLine : Bool) (number : Nat)
    (sound : body.Sound tally definition) (moves : tally.Moves line) :
    tally.body (body.readComment line blockLine number) = tally.body body * tally.text line ∧
      (body.readComment line blockLine number).Sound tally definition := by
  simp only [Body.readComment]
  generalize (if body.top.structured = true then body.top.level
    else body.top.level + body.top.brackets) = level
  have remarks := moves.remarks_ofComment blockLine level number
  have content : tally.text (Node.contents [Node.ofComment line blockLine level number]) =
      tally.text line := by
    simp [Node.contents, text_content_ofComment]
  split
  · rename_i waits
    simp only [Bool.and_eq_true] at waits
    refine body_top body _ body.anchor _ sound ⟨?_, ?_⟩ rfl sound.anchored
    · have past : ∀ m : M, tally.text line * m = m * tally.text line := moves
      simp only [Tally.group, loose, Node.contents_append, text_append, content, mul_assoc]
      rw [past]
      simp only [mul_assoc]
    · refine ⟨sound.top.unclosed, sound.top.comment, sound.top.waiting.append remarks, ?_,
        sound.top.trailing⟩
      intro unstructured
      have unstructured : body.top.structured = false := unstructured
      rw [waits.1] at unstructured
      cases unstructured
  · have appended := group_append body.top _ sound.top remarks
    rw [content] at appended
    exact body_top body _ body.anchor _ sound appended rfl sound.anchored

theorem sound_opened (opened : Node) (anchor : Anchor) (noTrailer : opened.trailer = [])
    (noComment : opened.closingComment = none) (same : opened.head = definition.head)
    (unanchored : anchor ≠ .member) :
    Body.Sound tally definition { top := { node := opened }, anchor } := by
  refine ⟨⟨⟨noTrailer, noComment⟩, moves_nil, ?_, ?_, ?_⟩, same, ?_⟩
  · intro node member
    cases member
  · intro _
    exact ⟨rfl, rfl, rfl⟩
  · intro pending
    cases pending
  · intro anchored
    exact absurd anchored unanchored

/-- A body starts with the header of its definition and the code behind the opening brace. -/
theorem progress_start (node : Node) (limit : Int) (first : Text) (progress : Body.Progress)
    (bare : node.children = [] ∧ node.trailer = [] ∧ node.closingComment = none)
    (moves : tally.RemarkMoves node.openingComment)
    (started : Body.start node limit first = .ok progress) :
    tally.progress progress =
        tally.text (node.header.getD []) * tally.of '{' * tally.text first *
          tally.remark node.openingComment ∧
      progress.Sound tally node := by
  obtain ⟨noChildren, noTrailer, noComment⟩ := bare
  have empty : ∀ opened : Node, opened.children = [] → tally.text opened.body = 1 := by
    intro opened none
    unfold Node.body
    rw [none]
    split <;> rfl
  have begun : ∀ (opened : Node) (anchor : Anchor), opened.children = [] →
      tally.body { top := { node := opened }, anchor } =
        tally.text (opened.header.getD []) * tally.of '{' * tally.remark opened.openingComment := by
    intro opened anchor none
    simp only [Tally.body, groups, Tally.group, text_begun, empty opened none, loose, remark_none,
      Node.contents, List.flatMap_nil, text_nil, one_mul, mul_one]
  rcases Body.lineRun_of_start started with ⟨blank, rfl⟩ | run
  · refine ⟨?_, sound_opened node _ noTrailer noComment rfl (by simp)⟩
    rw [Tally.progress, begun node _ noChildren, tally.text_of_isBlankText first blank, mul_one]
  · have begins : Body.Sound tally node
        { top := { node := { node with openingComment := none } }, anchor := .opening } :=
      sound_opened _ _ noTrailer noComment rfl (by simp)
    obtain ⟨kept, sound⟩ := progress_lineRun run begins moves
    refine ⟨?_, sound⟩
    have opened := begun { node with openingComment := none } .opening noChildren
    rw [kept, opened, remark_none, mul_one]

end Tally

end AsnLayout
