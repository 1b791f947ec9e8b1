import AsnLayout.Proofs.BodyLayout
import AsnLayout.Proofs.ShownGroups

/-!
# Rows of a group

A row of a layout that is read into a group adds to the group what the row was laid out from: the
group shows the row behind those before it.
-/

set_option autoImplicit false

namespace AsnLayout

/-! ## Rows of a structured group -/

namespace Body

open Layout

variable {limit : Int} {comment : Option Text} {number : Nat} {body next : Body}
  {lay : Bool → Item → Except Fault (List Piece)} {below : List OpenGroup} {frame : Node}
  {more comma : Bool} {pieces made : List Piece} {t : Text}

/-- A body whose innermost group is structured and shows the given pieces. -/
structure Stands (lay : Bool → Item → Except Fault (List Piece)) (below : List OpenGroup)
    (frame : Node) (more : Bool) (pieces : List Piece) (body : Body) : Prop where
  below : body.below = below
  top : body.top.Shows lay frame more pieces

theorem Stands.readComment (stands : body.Stands lay below frame more pieces) {line : Text}
    {inBlock : Bool} (laid : ∀ level, lay more (.remark (Node.ofComment line inBlock level number)) =
      .ok made) :
    (body.readComment line inBlock number).Stands lay below frame more (pieces ++ made) := by
  obtain ⟨rfl, shows⟩ := stands
  have shown := shows.remark (laid body.top.level)
  have structured := shows.structured
  unfold Body.readComment
  simp only [structured, Bool.true_and, if_true]
  cases blank : Text.isBlankText body.top.text with
  | true =>
    rw [blank] at shown
    exact ⟨rfl, shown⟩
  | false =>
    rw [blank] at shown
    exact ⟨rfl, shown⟩

theorem bothComments_none (comment : Option Text) : bothComments comment none = comment := by
  cases comment <;> rfl

/-- Behind a text a comment waits for the member to end. -/
theorem endLine_of_seen (structured : body.top.structured = true)
    (seen : Text.isBlankText body.top.text = false) (comment : Option Text) (number : Nat) :
    body.endLine comment number =
      { body with top := { body.top with comment := bothComments body.top.comment comment } } := by
  cases comment with
  | none => simp [endLine, structured, bothComments_none]
  | some comment => simp [endLine, structured, seen]

theorem endLine_of_unseen (structured : body.top.structured = true)
    (unseen : Text.isBlankText body.top.text = true) (comment : Option Text) (number : Nat) :
    body.endLine comment number = comment.elim body (body.anchorComment · number) := by
  cases comment with
  | none => simp [endLine, structured]
  | some comment => simp [endLine, structured, unseen]

theorem Runs.readCode_end {q : Quoting} {code : Text}
    (runs : Runs limit comment number q body code next) :
    readCode limit comment number q body code = .ok (.more (next.endLine comment number)) := by
  have read := runs.read []
  rw [List.append_nil] at read
  exact read

theorem runs_typed {q : Quoting} {code : Text} (settled : body.top.brackets = 0)
    (paired : Text.nest [] (q.brackets code) = some [])
    (uncut : Text.commasInside 0 (q.signs Text.isDivider code) = true) :
    Runs limit comment number q body code (body.typed code 0) := by
  obtain ⟨next, runs, count⟩ := @exists_runs limit comment number q body code [] []
    (Nat.zero_le _) paired fun _ _ => List.not_mem_nil
  have whole := runs.typed fun _ => by rwa [settled]
  rw [List.length_nil, Nat.add_zero, settled] at count
  rw [count] at whole
  rwa [whole] at runs

theorem readCode_comma {q : Quoting} {rest : Text} (shown : q.exposes ',' = true)
    (settled : body.top.brackets = 0) (structured : body.top.structured = true) :
    readCode limit comment number q body (',' :: rest) =
      readCode limit comment number (q.next ',') (body.endMember number) rest := by
  rw [readCode]
  simp [shown, settled, structured]

/-- A comment behind a member that has ended is the comment of the member. -/
theorem elim_commentLast {top : OpenGroup} {node : Node} (isField : node.isField = true)
    (number : Nat) :
    comment.elim ⟨top.append [node], below, .member⟩
        (anchorComment ⟨top.append [node], below, .member⟩ · number) =
      ⟨top.append [comment.elim node node.addComment], below, .member⟩ := by
  cases comment with
  | none => rfl
  | some comment =>
    have some : (top.node.children ++ [node]).any Node.isField = true := by simp [isField]
    simp only [Option.elim, anchorComment, OpenGroup.commentLast, OpenGroup.append, some, if_true,
      OpenGroup.modifyLastField, Node.modifyLastField_last _ _ isField]

theorem Stands.readMember (stands : body.Stands lay below frame true pieces)
    (isMember : t.IsMemberText) (closed : (Quoting.after {} t).inside = false)
    (paired : Text.nest [] (Text.brackets t) = some [])
    (laid : lay comma (.member t comment) = .ok made) :
    ∃ next, body.readLine limit ⟨withComma t comma, comment⟩ number = .ok (.more next) ∧
      next.Stands lay below frame comma (pieces ++ made) := by
  obtain ⟨rfl, shows⟩ := stands
  obtain ⟨text, free⟩ := shows.fresh rfl
  obtain ⟨noComment, waiting⟩ := shows.quiet (by rw [text]; rfl)
  have runs : Runs limit comment number {} body.startLine t (body.startLine.typed t 0) :=
    runs_typed shows.settled paired isMember.uncut
  obtain ⟨top, below, anchor⟩ := body
  simp only at text free noComment waiting shows
  have start : (⟨top, below, anchor⟩ : Body).startLine.typed t 0 =
      ⟨{ top with text := t, brackets := 0, lineBrackets := top.brackets }, below, .nothing⟩ := by
    simp [startLine, typed, text]
  rw [start] at runs
  cases comma with
  | false =>
    refine ⟨_, runs.readLine, ?_⟩
    rw [endLine_of_seen shows.structured isMember.seen, noComment]
    exact ⟨rfl, shows.member isMember laid top.brackets⟩
  | true =>
    have shown := @Text.exposes_of_closed t ',' closed (by decide)
    let behind : OpenGroup := { top with text := [], brackets := 0, lineBrackets := top.brackets }
    let next : Body := ⟨behind.append [Node.ofMember t top.level number], below, .member⟩
    have ended : (⟨{ top with text := t, brackets := 0, lineBrackets := top.brackets }, below,
        .nothing⟩ : Body).endMember number = next := by
      have form := isMember.form
      simp [endMember, OpenGroup.endMember_eq, OpenGroup.withRemark, OpenGroup.withMember,
        OpenGroup.endsMember, OpenGroup.append, OpenGroup.level, next, behind, form,
        isMember.filled, free, noComment, waiting]
    refine ⟨next.endLine comment number, (runs.read [',']).trans ?_, ?_⟩
    · rw [readCode_comma shown rfl shows.structured, ended]
      rfl
    have shown := shows.memberComma isMember laid number top.brackets
    rw [endLine_of_unseen shows.structured rfl,
      @elim_commentLast comment below behind (Node.ofMember t top.level number) rfl number]
    refine ⟨rfl, ?_⟩
    cases comment <;> exact shown

/-! ## Rows that open and close a group -/

def innerNode (level : Int) (header : Text) (comment : Option Text) (number : Nat) : Node :=
  { kind := .field
    name := Text.firstWord header
    content := header
    level
    groupKind := some (GroupKind.ofHeader header)
    oneLine := some false
    header := some header
    openingComment := comment
    line := number }

theorem endLine_of_empty (empty : body.top.text = []) (comment : Option Text) (number : Nat) :
    body.endLine comment number = comment.elim body (body.anchorComment · number) := by
  cases structured : body.top.structured with
  | true => exact endLine_of_unseen structured (by rw [empty]; rfl) comment number
  | false =>
    obtain ⟨⟨node, text, brackets, lineBrackets, pending, waits, waiting⟩, below, anchor⟩ := body
    simp only at empty
    subst empty
    have none : Text.neat [] = [] := by decide
    cases comment with
    | none => simp [endLine, structured, none]
    | some comment => simp [endLine, structured, none, Text.isBlankText]

theorem exists_opener (t : Text) : ∃ front, opener t = front ++ ['{'] ∧
    (front = [] ∧ t = [] ∨ front = t ++ [' ']) := by
  unfold opener
  split
  · rename_i empty
    exact ⟨[], rfl, .inl ⟨rfl, empty⟩⟩
  · exact ⟨t ++ [' '], by simp, .inr rfl⟩

theorem Stands.readOpener (stands : body.Stands lay below frame true pieces)
    (neat : Text.neat t = t) (uncut : Text.isUncut t = true)
    (closed : (Quoting.after {} t).inside = false)
    (paired : Text.nest [] (Text.brackets t) = some []) (room : (below.length + 1 : Int) < limit) :
    ∃ outer level, outer.Shows lay frame true pieces ∧
      body.readLine limit ⟨opener t, comment⟩ number = .ok (.more {
        top := { node := innerNode level t comment number }
        below := outer :: below
        anchor := .opening }) := by
  obtain ⟨rfl, shows⟩ := stands
  obtain ⟨text, free⟩ := shows.fresh rfl
  obtain ⟨noComment, waiting⟩ := shows.quiet (by rw [text]; rfl)
  obtain ⟨front, whole, spaced⟩ := exists_opener t
  have same : ∀ {test : Char → Bool}, Text.TellsApart test → Text.signs test front =
      Text.signs test t := by
    intro test apart
    rcases spaced with ⟨rfl, rfl⟩ | rfl
    · rfl
    · exact (Text.signs_blank apart closed (by decide)).trans (List.append_nil _)
  have header : Text.neat front = t := by
    rcases spaced with ⟨rfl, rfl⟩ | rfl
    · exact neat
    · rw [Text.neat_concat_space, neat]
  have shown : (Quoting.after {} front).exposes '{' = true := by
    rcases spaced with ⟨rfl, rfl⟩ | rfl
    · rfl
    · rw [Quoting.after_append, Quoting.after_cons,
        Quoting.next_of_exposes (Text.exposes_of_closed closed (by decide)) (by decide)]
      rfl
  obtain ⟨top, below, anchor⟩ := body
  simp only at text free noComment waiting shows room
  have runs : Runs limit comment number {} (startLine ⟨top, below, anchor⟩) front
      ((startLine ⟨top, below, anchor⟩).typed front 0) := by
    refine runs_typed shows.settled ?_ ?_
    · exact (congrArg _ (same tellsApart_isBracket)).trans paired
    · exact (congrArg _ (same Text.tellsApart_isDivider)).trans uncut
  have start : startLine ⟨top, below, anchor⟩ =
      ⟨{ top with lineBrackets := top.brackets }, below, .nothing⟩ := by
    simp [startLine, text]
  let outer : OpenGroup :=
    { top with text := [], brackets := 0, lineBrackets := top.brackets, comment := none, waiting := [] }
  have entered : (typed ⟨{ top with lineBrackets := top.brackets }, below, .nothing⟩ front
      0).enterGroup limit number = .ok
        ⟨{ node := innerNode top.level t none number }, outer :: below, .opening⟩ := by
    simp only [enterGroup, typed, free, Bool.false_eq_true, if_false]
    rw [if_neg (by omega)]
    simp [OpenGroup.groupNode, OpenGroup.withoutHeader, free, header, noComment, waiting, text,
      outer, innerNode, OpenGroup.level]
  refine ⟨outer, top.level, shows.of_same rfl ?_ ?_ (fun _ => rfl) rfl rfl ?_ ?_, ?_⟩
  · rw [text]
  · rw [text]
  · rw [noComment]
  · rw [waiting]
  · rw [start] at runs
    rw [whole, readLine, start, runs.read, readCode_enter shown rfl shows.structured rfl entered,
      readCode, endLine_of_empty rfl]
    cases comment <;> rfl

theorem exists_closer (t : Text) (comma : Bool) :
    ∃ tail, closer t comma = '}' :: withComma tail comma ∧ (tail = [] ∧ t = [] ∨ tail = ' ' :: t) := by
  rw [closer]
  split
  · rename_i empty
    exact ⟨[], by cases comma <;> rfl, .inl ⟨rfl, empty⟩⟩
  · exact ⟨' ' :: t, by cases comma <;> rfl, .inr rfl⟩

/-- A body behind the brace that has closed a group and the text up to the next comma, if there is
one. -/
def behindGroup (outer : OpenGroup) (inner : Node) (below : List OpenGroup) (tail : Text) : Body :=
  ⟨{ outer.append [inner] with text := tail, brackets := 0, pending := true }, below, .member⟩

theorem runs_behindGroup {outer : OpenGroup} {inner : Node} {tail : Text}
    (shows : outer.Shows lay frame true pieces)
    (paired : Text.nest [] (Text.brackets tail) = some []) (uncut : Text.isUncut tail = true) :
    Runs limit comment number {} ⟨outer.adopt inner, below, .member⟩ tail
      (behindGroup outer inner below tail) := by
  obtain ⟨text, -⟩ := shows.fresh rfl
  let left : Body := ⟨outer.adopt inner, below, .member⟩
  have taken : left.typed tail 0 = behindGroup outer inner below tail := by
    simp [left, typed, behindGroup, OpenGroup.adopt, OpenGroup.append, text]
  have runs : Runs limit comment number {} left tail (left.typed tail 0) :=
    runs_typed shows.settled paired uncut
  rwa [taken] at runs

/-- A comment behind the trailer of a group waits for the trailer to end; where there is no trailer
the group has it at once. -/
theorem stands_behindGroup {outer : OpenGroup} {inner : Node} {tail : Text}
    (shows : outer.Shows lay frame true pieces) (spans : inner.spansLines = true)
    (bare : inner.closingComment = none) (form : Text.memberForm tail = t)
    (laid : lay false (.group (OpenGroup.closedNode inner t comment)) = .ok made) :
    ((behindGroup outer inner below tail).endLine comment number).Stands lay below frame false
      (pieces ++ made) := by
  obtain ⟨text, -⟩ := shows.fresh rfl
  obtain ⟨noComment, -⟩ := shows.quiet (by rw [text]; rfl)
  cases blank : Text.isBlankText tail with
  | true =>
    let noted : Node := { inner with closingComment := comment }
    have shown := @OpenGroup.Shows.group_pending outer lay frame pieces noted t tail none made
      shows spans form (fun _ => rfl) (by rw [bothComments_none]; exact laid) outer.lineBrackets
    let behind : OpenGroup := { outer with text := tail, brackets := 0, pending := true }
    have ended := (@endLine_of_unseen ⟨behind.append [inner], below, .member⟩ shows.structured
      blank comment number).trans
        (@elim_commentLast comment below behind inner (Tally.isField_of_spansLines spans) number)
    have added := @OpenGroup.elim_addComment inner spans comment
    rw [bare] at added
    rw [added] at ended
    refine ended.symm ▸ ⟨rfl, ?_⟩
    rw [← noComment] at shown
    exact shown
  | false =>
    have shown := @OpenGroup.Shows.group_pending outer lay frame pieces inner t tail comment made
      shows spans form (fun unseen => by simp [blank] at unseen) (by rw [bare]; exact laid)
      outer.lineBrackets
    rw [endLine_of_seen shows.structured blank]
    refine ⟨rfl, ?_⟩
    have same : bothComments outer.comment comment = comment := by
      rw [noComment]
      rfl
    simp only [behindGroup, OpenGroup.append, same] at shown ⊢
    exact shown

theorem stands_behindGroup_comma {outer : OpenGroup} {inner : Node} {tail : Text}
    (shows : outer.Shows lay frame true pieces) (spans : inner.spansLines = true)
    (bare : inner.closingComment = none) (form : Text.memberForm tail = t)
    (laid : lay true (.group (OpenGroup.closedNode inner t comment)) = .ok made) :
    (((behindGroup outer inner below tail).endMember number).endLine comment number).Stands lay
      below frame true (pieces ++ made) := by
  obtain ⟨text, free⟩ := shows.fresh rfl
  obtain ⟨noComment, waiting⟩ := shows.quiet (by rw [text]; rfl)
  have isField := Tally.isField_of_spansLines spans
  let behind : OpenGroup := { outer with text := [], brackets := 0, pending := false }
  let named : Node := { inner with trailer := t }
  have ended : (behindGroup outer inner below tail).endMember number =
      ⟨behind.append [named], below, .member⟩ := by
    simp [endMember, OpenGroup.endMember_eq, OpenGroup.withRemark, OpenGroup.withMember,
      OpenGroup.append, behindGroup, behind, named, form, noComment, waiting,
      Node.modifyLastField_last _ _ isField]
  have added := @OpenGroup.elim_addComment named spans comment
  rw [show named.closingComment = none from bare] at added
  rw [ended, endLine_of_unseen shows.structured rfl,
    @elim_commentLast comment below behind named isField number, added]
  have shown := shows.group_ended spans laid outer.lineBrackets
  simp only [free] at shown
  exact ⟨rfl, shown⟩

theorem Stands.of_closer {outer : OpenGroup} {inner : Node}
    (shows : outer.Shows lay frame true pieces) (around : body.below = outer :: below)
    (settled : body.top.brackets = 0) (closed : (body.startLine.top.close number).node = inner)
    (spans : inner.spansLines = true) (bare : inner.closingComment = none)
    (laid : lay comma (.group (OpenGroup.closedNode inner t comment)) = .ok made)
    (form : Text.memberForm t = t) (uncut : Text.isUncut t = true)
    (quiet : (Quoting.after {} t).inside = false)
    (paired : Text.nest [] (Text.brackets t) = some []) :
    ∃ next, body.readLine limit ⟨closer t comma, comment⟩ number = .ok (.more next) ∧
      next.Stands lay below frame comma (pieces ++ made) := by
  obtain ⟨tail, whole, spaced⟩ := exists_closer t comma
  have step : ∀ rest, readCode limit comment number {} body.startLine ('}' :: rest) =
      readCode limit comment number {} ⟨outer.adopt inner, below, .member⟩ rest := by
    have settled : body.startLine.top.brackets = 0 := settled
    have around : body.startLine.below = outer :: below := around
    intro rest
    rw [readCode]
    simp only [show Quoting.exposes {} '}' = true from rfl, settled, around, closed]
    rfl
  -- The space before the trailer changes nothing that the trailer is read for.
  have form' : Text.memberForm tail = t := by
    rcases spaced with ⟨rfl, rfl⟩ | rfl
    · exact form
    · rw [Text.memberForm_space, form]
  have same : ∀ {test : Char → Bool}, Text.TellsApart test → Text.signs test tail =
      Text.signs test t := by
    intro test apart
    rcases spaced with ⟨rfl, rfl⟩ | rfl
    · rfl
    · exact @Text.signs_blank _ apart ' ' [] _ rfl (by decide)
  have quiet' : (Quoting.after {} tail).inside = false := by
    rcases spaced with ⟨rfl, rfl⟩ | rfl
    · rfl
    · exact quiet
  have runs : Runs limit comment number {} ⟨outer.adopt inner, below, .member⟩ tail
      (behindGroup outer inner below tail) :=
    runs_behindGroup shows ((congrArg _ (same tellsApart_isBracket)).trans paired)
      ((congrArg _ (same Text.tellsApart_isDivider)).trans uncut)
  rw [whole, readLine, step]
  cases comma with
  | false => exact ⟨_, runs.readCode_end, stands_behindGroup shows spans bare form' laid⟩
  | true =>
    have shown : (Quoting.after {} tail).exposes ',' = true :=
      Text.exposes_of_closed quiet' (by decide)
    refine ⟨((behindGroup outer inner below tail).endMember number).endLine comment number,
      (runs.read [',']).trans ?_, stands_behindGroup_comma shows spans bare form' laid⟩
    rw [readCode_comma shown rfl shows.structured]
    rfl

end Body

end AsnLayout
