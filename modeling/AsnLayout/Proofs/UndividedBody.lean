import AsnLayout.Proofs.Headings
import AsnLayout.Proofs.UnfencedBody

/-!
# Members that list no others

While a definition is read, a member ends at the commas and braces that stand outside of brackets and
literals.  A text that has been read up to there is cut at none of its commas when its members are
listed: it is one member.
-/

set_option autoImplicit false

namespace AsnLayout

/-! ## Texts of one member -/

namespace Text

variable {t : Text} {brackets : Nat}

/-- A comma of code outside of brackets starts a segment, and any other character stands in the
first one. -/
theorem segments_step (q : Quoting) (depth : Nat) (c : Char) (rest : Text) :
    segments (· = ',') depth (q.marks (c :: rest)) =
      if q.exposes c = true ∧ c = ',' ∧ depth = 0 then
        [] :: segments (· = ',') 0 ((q.next c).marks rest)
      else (segments (· = ',') (openAfter depth (q.signs isDivider [c]))
        ((q.next c).marks rest)).modifyHead (c :: ·) := by
  rw [Quoting.marks, segments, Quoting.signs_cons, Quoting.signs_nil, List.append_nil]
  simp only [Mark.passes]
  cases shown : q.exposes c with
  | false => simp [openAfter]
  | true =>
    simp only [Bool.true_and, Bool.and_eq_true, decide_eq_true_eq, true_and]
    rw [openAfter_sign]
    by_cases comma : c = ','
    · subst comma
      by_cases outside : depth = 0 <;> simp [isOpener, isCloser, outside]
    · split
      · simp [comma]
      · split <;> simp [comma]

/-- A text that is cut at no comma goes on in the first segment of what stands behind it. -/
theorem segments_append_of_commasInside {q : Quoting} {depth : Nat}
    (inside : commasInside depth (q.signs isDivider t) = true) (back : Text) :
    segments (· = ',') depth (q.marks (t ++ back)) =
      (segments (· = ',') (openAfter depth (q.signs isDivider t))
        ((q.after t).marks back)).modifyHead (t ++ ·) := by
  induction t generalizing q depth with
  | nil => exact (congrFun List.modifyHead_id _).symm
  | cons c rest ih =>
    have sign : q.signs isDivider (c :: rest) =
        q.signs isDivider [c] ++ (q.next c).signs isDivider rest :=
      Quoting.signs_append [c] rest
    rw [sign, commasInside_append, Bool.and_eq_true] at inside
    have noCut : ¬(q.exposes c = true ∧ c = ',' ∧ depth = 0) := by
      rintro ⟨shown, rfl, rfl⟩
      rw [Quoting.signs_cons, shown, Quoting.signs_nil] at inside
      exact absurd inside.1 (by decide)
    rw [List.cons_append, segments_step, if_neg noCut, ih inside.2, sign, openAfter_append,
      Quoting.after_cons, List.modifyHead_modifyHead]
    rfl

theorem segments_of_commasInside {q : Quoting} {depth : Nat}
    (inside : commasInside depth (q.signs isDivider t) = true) :
    segments (· = ',') depth (q.marks t) = [t] := by
  have whole := segments_append_of_commasInside inside []
  rw [List.append_nil] at whole
  rw [whole]
  exact congrArg (fun part => [part]) (List.append_nil t)

theorem openAfter_comma {depth : Nat} {front : Text}
    (inside : commasInside depth (front ++ [',']) = true) :
    openAfter depth (front ++ [',']) ≠ 0 := by
  rw [commasInside_append, Bool.and_eq_true] at inside
  rw [openAfter_append]
  intro settled
  have outside : openAfter depth front = 0 := settled
  rw [outside] at inside
  exact absurd inside.2 (by decide)

theorem members_memberForm (uncut : isUncut t = true) (kept : isMember (memberForm t) = true) :
    members (memberForm t) = [memberForm t] := by
  have single : segments (· = ',') 0 (marks (memberForm t)) = [memberForm t] :=
    segments_of_commasInside (q := {}) (isUncut_memberForm uncut)
  rw [Text.members, single, List.map_singleton, memberForm_memberForm, List.filter_singleton, kept]
  rfl

/-- A text that closes its brackets and literals ends with no comma, if it is cut at none. -/
theorem Uncut.memberForm_eq (uncut : Uncut t 0) (closed : (Quoting.after {} t).inside = false) :
    memberForm t = neat t := by
  rw [memberForm, trimEndBy_eq, List.rdropWhile_eq_self_iff]
  intro filled
  have ends := List.dropLast_append_getLast filled
  have solid : isBlank ((neat t).getLast filled) = false := by
    have trimmed : (neat t).rdropWhile isBlank = neat t := trimEnd_trim _
    simpa using List.rdropWhile_eq_self_iff.mp trimmed filled
  simp only [solid, Bool.or_false, decide_eq_true_eq]
  intro comma
  rw [comma] at ends
  have quiet : (Quoting.after {} (neat t).dropLast).inside = false := by
    rw [← inside_after_neat, ← ends, Quoting.after_append] at closed
    exact closed
  have shown : (Quoting.after {} (neat t).dropLast).exposes ',' = true := by
    simp [Quoting.exposes, Quoting.isQuote, quiet]
  have signed : signs isDivider t = signs isDivider (neat t).dropLast ++ [','] := by
    rw [← signs_neat tellsApart_isDivider]
    conv_lhs => rw [← ends]
    exact signs_snoc shown
  obtain ⟨inside, count⟩ := uncut
  rw [isUncut, signed] at inside
  rw [signed] at count
  exact openAfter_comma inside count

/-- A text that has been read of a member: it is cut at no comma, and does not start by closing a
brace. -/
structure OfMember (t : Text) (brackets : Nat) : Prop where
  uncut : Uncut t brackets
  starts : (signs isDivider t).head? ≠ some '}'

namespace OfMember

theorem nil : OfMember [] 0 := ⟨.nil, by simp [signs]⟩

theorem hidden {c : Char} (member : OfMember t brackets)
    (covered : (Quoting.after {} t).exposes c = false) : OfMember (t ++ [c]) brackets :=
  ⟨member.uncut.hidden covered, by rw [signs_snoc_hidden covered]; exact member.starts⟩

theorem space (member : OfMember t brackets) (closed : (Quoting.after {} t).inside = false) :
    OfMember (t ++ [' ']) brackets := by
  refine ⟨member.uncut.space closed, ?_⟩
  rw [signs_blank tellsApart_isDivider closed (by decide)]
  exact (List.append_nil (signs isDivider t)).symm ▸ member.starts

theorem code {c : Char} (member : OfMember t brackets)
    (shown : (Quoting.after {} t).exposes c = true) (noCut : ¬(c = ',' ∧ brackets = 0))
    (noClose : ¬(c = '}' ∧ brackets = 0)) :
    OfMember (t ++ [c])
      (if isOpener c then brackets + 1 else if isCloser c then brackets - 1 else brackets) := by
  refine ⟨member.uncut.code shown noCut, ?_⟩
  rw [signs_snoc shown]
  cases before : signs isDivider t with
  | cons first others =>
    have starts := member.starts
    rwa [before] at starts
  | nil =>
    have settled : brackets = 0 := by
      rw [← member.uncut.count, before]
      rfl
    rw [List.nil_append]
    split
    · rintro ⟨rfl⟩
      exact noClose ⟨rfl, settled⟩
    · simp

theorem members_eq (member : OfMember t 0) (closed : (Quoting.after {} t).inside = false)
    (filled : memberForm t ≠ []) : members (memberForm t) = [memberForm t] := by
  have signed : signs isDivider (memberForm t) = signs isDivider t := by
    rw [member.uncut.memberForm_eq closed, signs_neat tellsApart_isDivider]
  have noOpener : memberForm t ≠ ['{'] := by
    intro brace
    have count := member.uncut.count
    rw [← signed, brace] at count
    cases count
  have noCloser : memberForm t ≠ ['}'] := by
    intro brace
    refine member.starts ?_
    rw [← signed, brace]
    rfl
  exact members_memberForm member.uncut.inside (by simp [isMember, filled, noOpener, noCloser])

end OfMember

end Text

/-! ## Nodes -/

namespace Node

/-- A member without a group of several lines lists itself and no other. -/
def Undivided (node : Node) : Prop :=
  node.isField = true → node.spansLines = false → Text.members node.content = [node.content]

variable {node : Node}

theorem undivided_of_kind (other : node.kind ≠ .field) : node.Undivided := by
  intro field
  simp [isField, other] at field

theorem undivided_of_bare (other : node.kind ≠ .field) (bare : node.children = []) :
    node.Everywhere Undivided :=
  .intro (undivided_of_kind other) (by simp [bare])

theorem undivided_ofComment (line : Text) (inBlock : Bool) (level : Int) (number : Nat) :
    (ofComment line inBlock level number).Everywhere Undivided :=
  undivided_of_bare (by simp [ofComment]) rfl

/-- What groups build from comments, and from texts of one member with no literal open, is
undivided. -/
theorem built_undivided : Built Undivided (fun _ => True)
    (fun t => Text.OfMember t 0 ∧ (Quoting.after {} t).inside = false) where
  none := trivial
  both _ _ := trivial
  children here _ := here
  level here _ := here
  opening here _ _ := here
  closing here _ _ := here
  trailer here _ _ := here
  remark _ level number := (undivided_ofComment _ false level number).here
  ofMember good filled _ _ _ _ := good.1.members_eq good.2 filled

end Node

/-! ## Open groups -/

namespace OpenGroup

structure Undivided (group : OpenGroup) : Prop where
  node : group.node.Everywhere Node.Undivided
  waiting : ∀ child ∈ group.waiting, child.Everywhere Node.Undivided

variable {group : OpenGroup}

theorem undivided_iff : group.Undivided ↔ group.Holds Node.Undivided fun _ => True :=
  ⟨fun ⟨node, waiting⟩ => ⟨node, waiting, trivial⟩, fun ⟨node, waiting, _⟩ => ⟨node, waiting⟩⟩

theorem Undivided.endMember (undivided : group.Undivided) (member : Text.OfMember group.text 0)
    (closed : (Quoting.after {} group.text).inside = false) (number : Nat) :
    (group.endMember number).Undivided :=
  undivided_iff.mpr
    ((undivided_iff.mp undivided).endMember Node.built_undivided ⟨member, closed⟩ number)

theorem undivided_lineNode (group : OpenGroup) (text : Text) (comment : Option Text)
    (number : Nat) : (group.lineNode text comment number).Undivided :=
  Node.undivided_of_kind (by simp [lineNode])

theorem Undivided.close (undivided : group.Undivided)
    (member : group.structured = true → Text.OfMember group.text 0 ∧
      (Quoting.after {} group.text).inside = false) (number : Nat) :
    (group.close number).Undivided :=
  undivided_iff.mpr ((undivided_iff.mp undivided).close Node.built_undivided member
    fun _ => group.undivided_lineNode _ none number)

theorem Undivided.groupNode (undivided : group.Undivided) (number : Nat) :
    Undivided { node := group.groupNode number } :=
  undivided_iff.mpr ((undivided_iff.mp undivided).groupNode Node.built_undivided
    fun _ spans => by cases spans)

theorem Undivided.adopt (undivided : group.Undivided) {inner : Node}
    (all : inner.Everywhere Node.Undivided) : (group.adopt inner).Undivided :=
  undivided_iff.mpr ((undivided_iff.mp undivided).adopt Node.built_undivided all)

end OpenGroup

/-! ## Bodies -/

namespace Body

/-- A body of undivided members.  The text of the innermost group belongs to one member, and its scan
stands where the scan of the line does; the groups around it have no text. -/
structure Undivided (q : Quoting) (body : Body) : Prop where
  top : body.top.Undivided
  below : ∀ group ∈ body.below, group.Undivided ∧ group.text = [] ∧ group.brackets = 0
  text : body.top.structured = true →
    Text.OfMember body.top.text body.top.brackets ∧ Quoting.after {} body.top.text = q

variable {limit : Int} {number : Nat} {q : Quoting} {body next : Body}

theorem Undivided.settled (undivided : body.Undivided q) {c : Char} (code : q.exposes c = true)
    (settled : body.top.brackets = 0) (structured : body.top.structured = true) :
    Text.OfMember body.top.text 0 ∧ (Quoting.after {} body.top.text).inside = false := by
  obtain ⟨member, scan⟩ := undivided.text structured
  rw [settled] at member
  rw [Quoting.exposes, Bool.and_eq_true, Bool.not_eq_true', Bool.not_eq_true'] at code
  exact ⟨member, by rw [scan]; exact code.2⟩

theorem Undivided.step {c : Char} {rest : Text} (undivided : body.Undivided q)
    (taken : Step limit number q body c rest next) : next.Undivided (q.next c) := by
  have grown : ∀ {t : Text}, Quoting.after {} t = q → Quoting.after {} (t ++ [c]) = q.next c := by
    rintro t rfl
    exact Quoting.after_append ..
  cases taken with
  | hidden covered =>
    obtain ⟨⟨node, waiting⟩, below, text⟩ := undivided
    refine ⟨⟨node, waiting⟩, below, fun structured => ?_⟩
    obtain ⟨member, scan⟩ := text structured
    exact ⟨member.hidden (by rwa [scan]), grown scan⟩
  | @leave top outer below anchor _ code settled =>
    obtain ⟨⟨around, noText, noBrackets⟩, later⟩ := List.forall_mem_cons.mp undivided.below
    have inner := undivided.top.close (undivided.settled code settled) number
    rw [Quoting.next_of_exposes code (by decide)]
    refine ⟨around.adopt inner.node, later, fun _ => ?_⟩
    change Text.OfMember outer.text outer.brackets ∧ Quoting.after {} outer.text = {}
    rw [noText, noBrackets]
    exact ⟨.nil, rfl⟩
  | enter code settled structured leftOpen entered =>
    obtain ⟨-, -, rfl⟩ := Body.enterGroup_eq_ok.mp entered
    rw [Quoting.next_of_exposes code (by decide)]
    have outside : body.top.withoutHeader.Undivided :=
      ⟨undivided.top.node, by simp [OpenGroup.withoutHeader]⟩
    exact ⟨undivided.top.groupNode number,
      List.forall_mem_cons.mpr ⟨⟨outside, rfl, settled⟩, undivided.below⟩, fun _ => ⟨.nil, rfl⟩⟩
  | comma code settled structured =>
    obtain ⟨member, closed⟩ := undivided.settled code settled structured
    rw [Quoting.next_of_exposes code (by decide)]
    refine ⟨undivided.top.endMember member closed number, undivided.below, fun _ => ?_⟩
    change Text.OfMember (body.top.endMember number).text (body.top.endMember number).brackets ∧
      Quoting.after {} (body.top.endMember number).text = {}
    rw [OpenGroup.endMember_eq]
    exact ⟨settled ▸ .nil, rfl⟩
  | keep code noClose noGroup noComma =>
    obtain ⟨⟨node, waiting⟩, below, text⟩ := undivided
    refine ⟨⟨node, waiting⟩, below, fun structured => ?_⟩
    obtain ⟨member, scan⟩ := text structured
    exact ⟨member.code (by rwa [scan]) (fun comma => noComma ⟨comma.1, comma.2, structured⟩) noClose,
      grown scan⟩

theorem Undivided.endLine (undivided : body.Undivided q) (comment : Option Text) (number : Nat) :
    (body.endLine comment number).Undivided q := by
  obtain ⟨top, below, text⟩ := undivided
  obtain ⟨kind, brackets, -, around⟩ := Stance.mk.inj (body.stance_endLine comment number)
  refine ⟨OpenGroup.undivided_iff.mpr (holds_endLine (OpenGroup.undivided_iff.mp top)
    Node.built_undivided trivial fun _ => body.top.undivided_lineNode _ comment number), ?_, ?_⟩
  · rwa [around]
  · intro structured
    rw [kind] at structured
    rw [brackets, body.text_endLine structured]
    exact text structured

inductive Progress.Undivided : Progress → Prop where
  | more {q : Quoting} {body : Body} (undivided : body.Undivided q) (closed : q.inside = false) :
      Undivided (.more body)
  | closed {node : Node} (all : node.Everywhere Node.Undivided) : Undivided (.closed node)

theorem undivided_lineRun {comment : Option Text} {code : Text} {progress : Progress}
    (run : LineRun limit comment number q body code progress) (undivided : body.Undivided q)
    (quiet : (q.after code).inside = false) : progress.Undivided := by
  induction run with
  | finish => exact .more (undivided.endLine ..) quiet
  | close code settled closed =>
    obtain ⟨here, below⟩ := (undivided.top.close (undivided.settled code settled) number).node
    obtain ⟨-, rfl⟩ := Body.closeDefinition_eq_ok.mp closed
    exact .closed (.intro here below)
  | step taken later ih => exact ih (undivided.step taken) quiet

/-- The next line goes on behind a space, so that its scan starts afresh. -/
theorem Undivided.startLine (undivided : body.Undivided q) (closed : q.inside = false) :
    body.startLine.Undivided {} := by
  obtain ⟨⟨node, waiting⟩, below, text⟩ := undivided
  refine ⟨⟨node, waiting⟩, below, fun structured => ?_⟩
  obtain ⟨member, scan⟩ := text structured
  have quiet : (Quoting.after {} body.top.text).inside = false := by rw [scan, closed]
  unfold Body.startLine
  simp only
  split
  · refine ⟨member.space quiet, ?_⟩
    have shown : (Quoting.after {} body.top.text).exposes ' ' = true := by
      simp [Quoting.exposes, Quoting.isQuote, quiet]
    rw [Quoting.after_append]
    exact Quoting.next_of_exposes shown (by decide)
  · rename_i goesOn
    have structured : body.top.structured = true := structured
    have empty : body.top.text = [] := by simpa [structured] using goesOn
    rw [empty] at member ⊢
    exact ⟨member, rfl⟩

theorem undivided_readLine {line : CodeLine} {progress : Progress}
    (read : body.readLine limit line number = .ok progress) (undivided : body.Undivided q)
    (closed : q.inside = false) (code : (Quoting.after {} line.code).inside = false) :
    progress.Undivided :=
  undivided_lineRun (lineRun_of_readCode _ _ _ _ _ _ _ read) (undivided.startLine closed) code

theorem Undivided.readComment (undivided : body.Undivided q) (line : Text) (inBlock : Bool)
    (number : Nat) : (body.readComment line inBlock number).Undivided q := by
  obtain ⟨top, below, text⟩ := undivided
  obtain ⟨kind, brackets, -, around⟩ := Stance.mk.inj (body.stance_readComment line inBlock number)
  refine ⟨OpenGroup.undivided_iff.mpr (holds_readComment (OpenGroup.undivided_iff.mp top)
    Node.built_undivided fun level => (Node.undivided_ofComment line inBlock level number).here),
    ?_, ?_⟩
  · rwa [around]
  · rwa [kind, brackets, body.text_readComment]

theorem undivided_start {node : Node} {first : Text} {progress : Progress}
    (started : Body.start node limit first = .ok progress) (kind : node.kind ≠ .field)
    (bare : node.children = []) (closed : (Quoting.after {} first).inside = false) :
    progress.Undivided := by
  have opened : ∀ {other : Node} {anchor : Anchor}, other.kind ≠ .field → other.children = [] →
      Undivided {} { top := { node := other }, anchor } := fun kind bare =>
    ⟨⟨Node.undivided_of_bare kind bare, by simp⟩, by simp, fun _ => ⟨.nil, rfl⟩⟩
  rcases Body.lineRun_of_start started with ⟨-, rfl⟩ | run
  · exact .more (opened kind bare) rfl
  · exact undivided_lineRun run (opened kind bare) closed

end Body

end AsnLayout
