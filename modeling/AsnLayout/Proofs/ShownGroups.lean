import AsnLayout.Proofs.NeatParts
import AsnLayout.Proofs.QuotedLayout

/-!
# What an open group shows

While a layout is read again, the members read so far of an open group are laid out on the rows that
they were read from.  The last member shows its comma if another one follows.  A group that keeps
its lines shows them as they are.
-/

set_option autoImplicit false

namespace AsnLayout

namespace Layout

/-! ## Items before others -/

/-- Lays out items that stand before others, `more` telling whether a member is among these. -/
def layUpTo (layItem : Bool → Item → Except Fault (List Piece)) (more : Bool) :
    List Item → Except Fault (List Piece)
  | [] => .ok []
  | item :: later => do
    let pieces ← layItem (later.any Item.isMember || more) item
    let rest ← layUpTo layItem more later
    return pieces ++ rest

variable {lay : Bool → Item → Except Fault (List Piece)} {more : Bool} {front back : List Item}
  {first second : List Piece}

theorem layUpTo_false (items : List Item) : layUpTo lay false items = layItems lay items := by
  induction items with
  | nil => rfl
  | cons item later ih => rw [layUpTo, layItems, Bool.or_false, ih]

theorem layUpTo_single {item : Item} (laid : lay more item = .ok first) :
    layUpTo lay more [item] = .ok first := by
  simp [layUpTo, laid, bind, Except.bind, pure, Except.pure]

theorem layUpTo_append (laid : layUpTo lay (back.any Item.isMember || more) front = .ok first)
    (laid' : layUpTo lay more back = .ok second) :
    layUpTo lay more (front ++ back) = .ok (first ++ second) := by
  induction front generalizing first with
  | nil =>
    cases laid
    exact laid'
  | cons item later ih =>
    simp only [layUpTo, bind_eq_ok] at laid
    obtain ⟨here, headLaid, rest, restLaid, done⟩ := laid
    cases done
    simp only [List.cons_append, layUpTo, bind_eq_ok]
    refine ⟨here, ?_, rest ++ second, ih restLaid, ?_⟩
    · rw [List.any_append, Bool.or_assoc]
      exact headLaid
    · rw [List.append_assoc]
      rfl

end Layout

namespace Node

/-! ## The last member -/

theorem modifyLastField_concat (change : Node → Node) (nodes : List Node) {node : Node}
    (other : node.isField = false) :
    modifyLastField change (nodes ++ [node]) = modifyLastField change nodes ++ [node] := by
  induction nodes with
  | nil => simp [modifyLastField, other]
  | cons first later ih =>
    rw [List.cons_append, modifyLastField, modifyLastField, ih]
    have same : (later ++ [node]).any isField = later.any isField := by simp [other]
    rw [same]
    split <;> rfl

theorem modifyLastField_last (change : Node → Node) (nodes : List Node) {node : Node}
    (isField : node.isField = true) :
    modifyLastField change (nodes ++ [node]) = nodes ++ [change node] :=
  modifyLastField_append change nodes [] node isField rfl

end Node

/-! ## Members -/

theorem Text.memberForm_of_blank {t : Text} (blank : Text.isBlankText t = true) :
    Text.memberForm t = [] := by
  have none : Text.neat t = [] := by
    have trimmed := Text.isBlankText_neat t
    rw [blank] at trimmed
    have same := Text.trim_of_blank trimmed
    rwa [Text.neat_eq, Text.trim_trim, ← Text.neat_eq] at same
  rw [Text.memberForm, none]
  rfl

theorem Text.IsMemberText.seen {t : Text} (isMember : t.IsMemberText) :
    Text.isBlankText t = false := by
  rw [Bool.eq_false_iff]
  intro blank
  exact isMember.filled (isMember.form.symm.trans (Text.memberForm_of_blank blank))

theorem Item.ofChild_member {node : Node} (isField : node.isField = true)
    (single : node.spansLines = false) (isMember : node.content.IsMemberText) :
    Item.ofChild node = [.member node.content node.openingComment] := by
  have cut : Text.segments (· = ',') 0 (Text.marks node.content) = [node.content] :=
    Text.segments_of_commasInside (q := {}) isMember.uncut
  have members : Text.members node.content = [node.content] ∨ Text.members node.content = [] := by
    rw [Text.members, cut, List.map_singleton, isMember.form, List.filter_singleton]
    cases node.content.isMember with
    | true => exact .inl rfl
    | false => exact .inr rfl
  rw [ofChild, if_neg (by simp [single]), if_pos isField]
  rcases members with one | none
  · rw [one]
    rfl
  · rw [none]

namespace OpenGroup

open Layout

variable {group later : OpenGroup} {lay : Bool → Item → Except Fault (List Piece)} {frame : Node}
  {more : Bool} {pieces : List Piece}

/-! ## Structured groups -/

/-- A structured group between two rows: what has been read of it is laid out on the given pieces,
`more` telling whether a member has to follow. -/
structure Shows (lay : Bool → Item → Except Fault (List Piece)) (frame : Node) (more : Bool)
    (pieces : List Piece) (group : OpenGroup) : Prop where
  structured : group.structured = true
  settled : group.brackets = 0
  frame : { group.node with children := [] } = frame
  fresh : more = true → group.text = [] ∧ group.pending = false
  /-- Nothing waits for a member of which nothing has been read. -/
  quiet : Text.isBlankText group.text = true → group.comment = none ∧ group.waiting = []
  lays : ∀ number,
    layUpTo lay more ((group.endMember number).node.children.flatMap Item.ofChild) = .ok pieces

theorem children_endMember (group : OpenGroup) (number : Nat) :
    (group.endMember number).node.children =
      group.withRemark number (group.withMember number) ++ group.waiting := by
  rw [endMember_eq]

theorem children_endMember_of_fresh (text : group.text = []) (free : group.pending = false)
    (comment : group.comment = none) (waiting : group.waiting = []) (number : Nat) :
    (group.endMember number).node.children = group.node.children := by
  have form : Text.memberForm [] = [] := by decide
  simp [children_endMember, withRemark, withMember, text, free, comment, waiting, form]

/-- What a group shows does not depend on how the blanks behind its text and the brackets before its
line are counted. -/
theorem Shows.of_same (shows : group.Shows lay frame more pieces) (node : later.node = group.node)
    (form : Text.memberForm later.text = Text.memberForm group.text)
    (unseen : Text.isBlankText later.text = Text.isBlankText group.text)
    (fresh : group.text = [] → later.text = []) (settled : later.brackets = 0)
    (pending : later.pending = group.pending) (comment : later.comment = group.comment)
    (waiting : later.waiting = group.waiting) : later.Shows lay frame more pieces := by
  refine ⟨?_, settled, ?_, fun isMore => ?_, ?_, fun number => ?_⟩
  · exact (congrArg Node.isStructured node).trans shows.structured
  · rw [node]
    exact shows.frame
  · exact ⟨fresh (shows.fresh isMore).1, pending.trans (shows.fresh isMore).2⟩
  · rw [unseen, comment, waiting]
    exact shows.quiet
  · have same : (later.endMember number).node.children = (group.endMember number).node.children := by
      simp only [children_endMember, withRemark, withMember, endsMember, level, node, form, pending,
        comment, waiting]
      rfl
    rw [same]
    exact shows.lays number

theorem Shows.remark (shows : group.Shows lay frame more pieces) {line : Text} {blockLine : Bool}
    {level : Int} {number : Nat} {made : List Piece}
    (laid : lay more (.remark (Node.ofComment line blockLine level number)) = .ok made) :
    Shows lay frame more (pieces ++ made)
      (if Text.isBlankText group.text then
        group.append [Node.ofComment line blockLine level number]
      else { group with
        waiting := group.waiting ++ [Node.ofComment line blockLine level number] }) := by
  obtain ⟨structured, settled, frames, fresh, quiet, lays⟩ := shows
  -- The comment is the last of the children in both cases.
  have behind : ∀ {later : OpenGroup}, (∀ number', (later.endMember number').node.children =
      (group.endMember number').node.children ++ [Node.ofComment line blockLine level number]) →
      ∀ number', layUpTo lay more ((later.endMember number').node.children.flatMap Item.ofChild) =
        .ok (pieces ++ made) := by
    intro later children number'
    rw [children number', List.flatMap_append, List.flatMap_singleton]
    exact layUpTo_append (lays number') (layUpTo_single laid)
  split
  · rename_i blank
    obtain ⟨comment, waiting⟩ := quiet blank
    refine ⟨structured, settled, frames, fresh, quiet, behind fun number' => ?_⟩
    have form := Text.memberForm_of_blank blank
    cases pending : group.pending with
    | false =>
      simp [children_endMember, withRemark, withMember, append, pending, comment, waiting, form]
    | true =>
      simp only [children_endMember, withRemark, withMember, append, pending, comment, waiting, form,
        if_true, List.append_nil]
      exact Node.modifyLastField_concat _ _ rfl
  · rename_i seen
    refine ⟨structured, settled, frames, fresh, fun blank => absurd blank seen,
      behind fun number' => ?_⟩
    rw [children_endMember, children_endMember, List.append_assoc]
    rfl

theorem Shows.gain (shows : group.Shows lay frame true pieces) (more : Bool) (later : OpenGroup)
    (structured : later.structured = true) (settled : later.brackets = 0)
    (frames : { later.node with children := [] } = frame)
    (fresh : more = true → later.text = [] ∧ later.pending = false)
    (quiet : Text.isBlankText later.text = true → later.comment = none ∧ later.waiting = [])
    {made : List Piece} {node : Nat → Node} {item : Nat → Item}
    (children : ∀ number, (later.endMember number).node.children =
      group.node.children ++ [node number])
    (items : ∀ number, Item.ofChild (node number) = [item number])
    (isMember : ∀ number, (item number).isMember = true)
    (laid : ∀ number, lay more (item number) = .ok made) :
    later.Shows lay frame more (pieces ++ made) := by
  refine ⟨structured, settled, frames, fresh, quiet, fun number => ?_⟩
  obtain ⟨text, free⟩ := shows.fresh rfl
  obtain ⟨comment, waiting⟩ := shows.quiet (by rw [text]; rfl)
  have before := shows.lays number
  rw [children_endMember_of_fresh text free comment waiting] at before
  rw [children, List.flatMap_append, List.flatMap_singleton, items]
  refine layUpTo_append ?_ (layUpTo_single (laid number))
  rw [List.any_cons, isMember, Bool.true_or, Bool.true_or]
  exact before

theorem children_endMember_of_text {t : Text} (text : Text.memberForm group.text = t)
    (filled : t ≠ []) (free : group.pending = false) (waiting : group.waiting = [])
    (number : Nat) : (group.endMember number).node.children = group.node.children ++
      [{ Node.ofMember t group.level number with openingComment := group.comment }] := by
  subst text
  rw [children_endMember, waiting, List.append_nil, withRemark, withMember]
  simp only [free, Bool.false_eq_true, if_false, filled]
  cases group.comment with
  | none => rfl
  | some comment =>
    simp only [endsMember, free, ne_eq, filled, not_false_eq_true, decide_true, Bool.false_or,
      if_true]
    exact Node.modifyLastField_last _ _ rfl

theorem Shows.member {t : Text} {comment : Option Text} {made : List Piece}
    (shows : group.Shows lay frame true pieces) (isMember : t.IsMemberText)
    (laid : lay false (.member t comment) = .ok made) (lineBrackets : Nat) :
    Shows lay frame false (pieces ++ made)
      { group with text := t, brackets := 0, lineBrackets, comment } := by
  obtain ⟨-, waiting⟩ := shows.quiet (by rw [(shows.fresh rfl).1]; rfl)
  let later : OpenGroup := { group with text := t, brackets := 0, lineBrackets, comment }
  have children := @children_endMember_of_text later t isMember.form isMember.filled
    (shows.fresh rfl).2 waiting
  refine shows.gain false later shows.structured rfl shows.frame nofun ?_ children
    (fun _ => Item.ofChild_member rfl rfl isMember) (fun _ => rfl) fun _ => laid
  intro blank
  rw [isMember.seen] at blank
  cases blank

theorem Shows.memberComma {t : Text} {comment : Option Text} {made : List Piece}
    (shows : group.Shows lay frame true pieces) (isMember : t.IsMemberText)
    (laid : lay true (.member t comment) = .ok made) (number lineBrackets : Nat) :
    Shows lay frame true (pieces ++ made)
      (append { group with text := [], brackets := 0, lineBrackets }
        [{ Node.ofMember t group.level number with openingComment := comment }]) := by
  obtain ⟨noComment, waiting⟩ := shows.quiet (by rw [(shows.fresh rfl).1]; rfl)
  let later : OpenGroup := append { group with text := [], brackets := 0, lineBrackets }
    [{ Node.ofMember t group.level number with openingComment := comment }]
  have children := @children_endMember_of_fresh later rfl (shows.fresh rfl).2 noComment waiting
  exact shows.gain true later shows.structured rfl shows.frame (fun _ => ⟨rfl, (shows.fresh rfl).2⟩)
    (fun _ => ⟨noComment, waiting⟩) children (fun _ => Item.ofChild_member rfl rfl isMember)
    (fun _ => rfl) fun _ => laid

/-! ### Groups -/

def closedNode (inner : Node) (trailer : Text) (comment : Option Text) : Node :=
  { inner with trailer, closingComment := comment }

variable {inner : Node} {trailer tail : Text} {comment : Option Text} {made : List Piece}

theorem elim_addComment (spans : inner.spansLines = true) (comment : Option Text) :
    comment.elim inner inner.addComment =
      { inner with closingComment := bothComments inner.closingComment comment } := by
  cases comment with
  | none =>
    have same : bothComments inner.closingComment none = inner.closingComment := by
      cases inner.closingComment <;> rfl
    rw [same]
    cases inner
    rfl
  | some comment => exact if_pos spans

theorem ofChild_closedNode (spans : inner.spansLines = true) :
    Item.ofChild (closedNode inner trailer comment) = [.group (closedNode inner trailer comment)] :=
  if_pos spans

theorem Shows.group_ended (shows : group.Shows lay frame true pieces)
    (spans : inner.spansLines = true)
    (laid : lay true (.group (closedNode inner trailer comment)) = .ok made) (lineBrackets : Nat) :
    Shows lay frame true (pieces ++ made)
      (append { group with text := [], brackets := 0, lineBrackets }
        [closedNode inner trailer comment]) := by
  obtain ⟨text, free⟩ := shows.fresh rfl
  obtain ⟨noComment, waiting⟩ := shows.quiet (by rw [text]; rfl)
  let later : OpenGroup := append { group with text := [], brackets := 0, lineBrackets }
    [closedNode inner trailer comment]
  have children := @children_endMember_of_fresh later rfl free noComment waiting
  exact shows.gain true later shows.structured rfl shows.frame (fun _ => ⟨rfl, free⟩)
    (fun _ => ⟨noComment, waiting⟩) children (fun _ => ofChild_closedNode spans) (fun _ => rfl)
    fun _ => laid

/-- A group whose trailer goes up to the end of the row. -/
theorem Shows.group_pending (shows : group.Shows lay frame true pieces)
    (spans : inner.spansLines = true) (form : Text.memberForm tail = trailer)
    (noted : Text.isBlankText tail = true → comment = none)
    (laid : lay false (.group (closedNode inner trailer
      (bothComments inner.closingComment comment))) = .ok made) (lineBrackets : Nat) :
    Shows lay frame false (pieces ++ made) { append group [inner] with
      text := tail, brackets := 0, lineBrackets, pending := true, comment } := by
  obtain ⟨text, free⟩ := shows.fresh rfl
  obtain ⟨noComment, waiting⟩ := shows.quiet (by rw [text]; rfl)
  let later : OpenGroup := { append group [inner] with
    text := tail, brackets := 0, lineBrackets, pending := true, comment }
  have isField := Tally.isField_of_spansLines spans
  have children : ∀ number, (later.endMember number).node.children = group.node.children ++
      [closedNode inner trailer (bothComments inner.closingComment comment)] := by
    intro number
    have taken : later.withMember number = group.node.children ++ [{ inner with trailer }] := by
      simp only [withMember, later, if_true, append, form]
      exact Node.modifyLastField_last _ _ isField
    have added := @elim_addComment { inner with trailer } spans comment
    rw [children_endMember, taken, show later.waiting = [] from waiting, List.append_nil, withRemark]
    cases comment with
    | none => exact congrArg (fun node => group.node.children ++ [node]) added
    | some note =>
      simp only [later, endsMember, Bool.true_or, if_true]
      rw [@Node.modifyLastField_last (·.addComment note) _ { inner with trailer } isField]
      exact congrArg (fun node => group.node.children ++ [node]) added
  exact shows.gain false later shows.structured rfl shows.frame (by simp)
    (fun blank => ⟨noted blank, waiting⟩) children (fun _ => ofChild_closedNode spans)
    (fun _ => rfl) fun _ => laid

end OpenGroup

end AsnLayout
