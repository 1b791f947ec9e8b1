import AsnLayout.Proofs.Forming
import AsnLayout.Proofs.GroupNodes
import AsnLayout.Proofs.ReadItems

/-!
# Definitions in an alphabet

While a definition is read from lines in an alphabet, the texts of its nodes are in the alphabet too:
making a text neat adds at most spaces.
-/

set_option autoImplicit false

namespace AsnLayout

def Layout.ownSigns : Text := " \x7b\x7d,:=".toList

/-! ## Texts in an alphabet -/

namespace Text

def Within (ok : Char → Prop) (t : Text) : Prop := ∀ c ∈ t, ok c

variable {ok : Char → Prop} {front back t : Text} {comment : Option Text}

theorem within_nil : Within ok [] := by simp [Within]

theorem within_append : Within ok (front ++ back) ↔ Within ok front ∧ Within ok back :=
  List.forall_mem_append

theorem within_cons {c : Char} : Within ok (c :: t) ↔ ok c ∧ Within ok t := List.forall_mem_cons

theorem Within.of_subset (within : Within ok t) {part : Text} (subset : part ⊆ t) : Within ok part :=
  fun c member => within c (subset member)

theorem Within.trim (within : Within ok t) : Within ok (trim t) := within.of_subset (trim_isInfix t).subset

theorem Reblanked.mem {loose : Bool} {t' : Text} (same : Reblanked loose t t') {c : Char}
    (member : c ∈ t') : c ∈ t ∨ c = ' ' := by
  induction same with
  | nil => cases member
  | keep d later ih =>
    rcases List.mem_cons.mp member with rfl | behind
    · exact .inl List.mem_cons_self
    · exact (ih behind).imp_left (List.mem_cons_of_mem _)
  | blank isBlank later ih =>
    rcases List.mem_cons.mp member with rfl | behind
    · exact .inr rfl
    · exact (ih behind).imp_left (List.mem_cons_of_mem _)
  | drop isBlank isBlank' later ih => exact (ih member).imp_left (List.mem_cons_of_mem _)
  | before isLoose mark later ih =>
    rcases List.mem_cons.mp member with rfl | behind
    · exact .inr rfl
    · exact ih behind
  | behind isLoose mark later ih =>
    rcases List.mem_cons.mp member with rfl | behind
    · exact .inl List.mem_cons_self
    · rcases List.mem_cons.mp behind with rfl | behind
      · exact .inr rfl
      · exact (ih behind).imp_left (List.mem_cons_of_mem _)

theorem within_codeLine {line : Text} (within : Within ok line) :
    Within ok (codeLine (Text.trim line)).code ∧
      Within ok ((codeLine (Text.trim line)).comment.getD []) := by
  refine ⟨within.of_subset ((code_isInfix _).trans (trim_isInfix line)).subset, ?_⟩
  cases found : (codeLine (Text.trim line)).comment with
  | none => exact within_nil
  | some comment =>
    exact within.of_subset ((comment_of_codeLine found).1.trans (trim_isInfix line)).subset

variable (own : ∀ c ∈ Layout.ownSigns, ok c)

include own

theorem Within.neat (within : Within ok t) : Within ok (neat t) := by
  obtain ⟨t', same, trimmed⟩ := reblanked_neat t
  rw [trimmed]
  refine Within.trim fun c member => ?_
  rcases same.mem member with inside | rfl
  · exact within c inside
  · exact own ' ' (by decide)

theorem Within.memberForm (within : Within ok t) :
    Within ok (memberForm t) := (within.neat own).of_subset (prefix_memberForm t).subset

theorem Within.members (within : Within ok t) :
    ∀ part ∈ members t, Within ok part := by
  have cuts : ∀ front back : Text, Within ok (front ++ ',' :: back) →
      Within ok front ∧ Within ok back := by
    intro front back whole
    obtain ⟨first, rest⟩ := within_append.mp whole
    exact ⟨first, (within_cons.mp rest).2⟩
  obtain ⟨first, later, cut, here, others⟩ := @forall_segments (Within ok) cuts {} [] t 0 within
  exact forall_members cut (here.memberForm own) fun segment inside =>
    (others segment inside).memberForm own

theorem within_both {earlier later : Option Text}
    (within : Within ok (earlier.getD [])) (within' : Within ok (later.getD [])) :
    Within ok ((bothComments earlier later).getD []) := by
  cases earlier with
  | none => exact within'
  | some early =>
    cases later with
    | none => exact within
    | some late => exact within_append.mpr ⟨within, within_cons.mpr ⟨own ' ' (by decide), within'⟩⟩

theorem Within.beside (within : Within ok t)
    (within' : Within ok (comment.getD [])) : Within ok (beside t comment) := by
  unfold AsnLayout.beside
  split
  · exact within
  · split
    · exact within
    · split
      · exact within'
      · exact within_append.mpr ⟨within, within_cons.mpr ⟨own ' ' (by decide), within'⟩⟩

end Text

/-! ## Nodes and groups -/

namespace Node

structure Within (ok : Char → Prop) (node : Node) : Prop where
  name : node.kind = .typeDefinition → node.name.Within ok
  content : node.content.Within ok
  header : (node.header.getD []).Within ok
  members : ∀ part ∈ node.inlineMembers.getD [], part.Within ok
  trailer : node.trailer.Within ok
  opening : (node.openingComment.getD []).Within ok
  closing : (node.closingComment.getD []).Within ok

variable {ok : Char → Prop} {node : Node}

theorem Within.dress (within : node.Within ok) {trailer : Text}
    {openingComment closingComment : Option Text} (trailing : trailer.Within ok)
    (opening : (openingComment.getD []).Within ok) (closing : (closingComment.getD []).Within ok) :
    Within ok { node with trailer, openingComment, closingComment } := by
  obtain ⟨name, content, header, members, -, -, -⟩ := within
  exact ⟨name, content, header, members, trailing, opening, closing⟩

theorem Within.place (within : node.Within ok) (children : List Node) (level : Int) :
    Within ok { node with children, level } := by
  obtain ⟨name, content, header, members, trailer, opening, closing⟩ := within
  exact ⟨name, content, header, members, trailer, opening, closing⟩

theorem within_of_content (kind : node.kind ≠ .typeDefinition) (content : node.content.Within ok)
    (header : node.header = none) (members : node.inlineMembers = none) (trailer : node.trailer = [])
    (opening : node.openingComment = none) (closing : node.closingComment = none) :
    node.Within ok := by
  refine ⟨fun same => absurd same kind, content, ?_, ?_, ?_, ?_, ?_⟩
  · simp [header, Text.within_nil]
  · simp [members]
  · simp [trailer, Text.within_nil]
  · simp [opening, Text.within_nil]
  · simp [closing, Text.within_nil]

theorem within_ofComment {line : Text} (within : line.Within ok) (inBlock : Bool) (level : Int)
    (number : Nat) : (ofComment line inBlock level number).Within ok := by
  refine within_of_content (fun same => by cases same) ?_ rfl rfl rfl rfl rfl
  cases inBlock with
  | true => exact within
  | false => exact within.of_subset (List.dropWhile_suffix _).subset

theorem built_within (own : ∀ c ∈ Layout.ownSigns, ok c) :
    Built (Within ok) (fun comment => (comment.getD []).Within ok) (Text.Within ok) where
  none := Text.within_nil
  both good good' := Text.within_both own good good'
  children here children := here.place children _
  level here level := here.place _ level
  opening here _ good := here.dress here.trailer (Text.within_both own here.opening good) here.closing
  closing here _ good := here.dress here.trailer here.opening (Text.within_both own here.closing good)
  trailer here _ good := here.dress (good.memberForm own) here.opening here.closing
  remark good level number := within_ofComment good false level number
  ofMember good _ level number :=
    within_of_content (fun same => by cases same) (good.memberForm own) rfl rfl rfl rfl rfl

end Node

abbrev OpenGroup.Within (ok : Char → Prop) (group : OpenGroup) : Prop :=
  group.Holds (Node.Within ok) fun comment => (comment.getD []).Within ok

/-! ## Bodies -/

namespace Body

structure Within (ok : Char → Prop) (body : Body) : Prop where
  top : body.top.Within ok
  text : body.top.text.Within ok
  below : ∀ group ∈ body.below, group.Within ok ∧ group.text.Within ok

variable {ok : Char → Prop} (own : ∀ c ∈ Layout.ownSigns, ok c) {limit : Int} {number : Nat}
  {q : Quoting} {body next : Body} {rest : Text} {comment : Option Text}

theorem Within.take (within : body.Within ok) {c : Char} (here : ok c) (brackets : Nat) :
    Within ok { body with top := { body.top.take c with brackets } } := by
  obtain ⟨⟨node, waiting, comment⟩, text, below⟩ := within
  exact ⟨⟨node, waiting, comment⟩,
    Text.within_append.mpr ⟨text, Text.within_cons.mpr ⟨here, Text.within_nil⟩⟩, below⟩

include own

theorem within_lineNode {group : OpenGroup} (text : group.text.Within ok)
    (noted : (comment.getD []).Within ok) (number : Nat) :
    (group.lineNode (Text.neat group.text) comment number).Within ok :=
  Node.within_of_content (fun same => by cases same) ((text.neat own).beside own noted) rfl rfl rfl rfl
    rfl

theorem within_close {group : OpenGroup} (within : group.Within ok) (text : group.text.Within ok)
    (number : Nat) : (group.close number).Within ok :=
  within.close (Node.built_within own) (fun _ => text) fun _ =>
    within_lineNode own text Text.within_nil number

/-- Each character of a line goes where it belongs. -/
theorem Within.step {c : Char} (within : body.Within ok) (here : ok c)
    (taken : Step limit number q body c rest next) : next.Within ok := by
  have built := Node.built_within own
  cases taken with
  | hidden covered => exact within.take here body.top.brackets
  | leave code settled =>
    obtain ⟨top, text, around⟩ := within
    obtain ⟨⟨outer, outerText⟩, below⟩ := List.forall_mem_cons.mp around
    exact ⟨outer.adopt built (within_close own top text number).node, outerText, below⟩
  | enter code settled structured leftOpen entered =>
    obtain ⟨top, text, below⟩ := within
    obtain ⟨-, -, rfl⟩ := Body.enterGroup_eq_ok.mp entered
    have header := text.neat own
    have inner : (body.top.groupNode number).Within ok :=
      ⟨nofun, header, header, by simp [OpenGroup.groupNode], Text.within_nil, top.comment,
        Text.within_nil⟩
    exact ⟨top.groupNode built inner, Text.within_nil,
      List.forall_mem_cons.mpr ⟨⟨top.withoutHeader built, Text.within_nil⟩, below⟩⟩
  | comma code settled structured =>
    obtain ⟨top, text, below⟩ := within
    refine ⟨top.endMember built text number, ?_, below⟩
    change Text.Within ok (body.top.endMember number).text
    rw [OpenGroup.endMember_eq]
    exact Text.within_nil
  | keep code noClose noGroup noComma => exact within.take here _

theorem Within.endLine (within : body.Within ok) (noted : (comment.getD []).Within ok) (number : Nat) :
    (body.endLine comment number).Within ok := by
  obtain ⟨top, text, below⟩ := within
  refine ⟨holds_endLine top (Node.built_within own) noted
    (fun _ => within_lineNode own text noted number), ?_, ?_⟩
  · cases structured : body.top.structured with
    | true => rwa [body.text_endLine structured]
    | false =>
      rw [body.text_endLine_of_unstructured structured]
      exact Text.within_nil
  · rwa [body.below_endLine]

theorem within_lineRun {code : Text} {progress : Progress}
    (run : LineRun limit comment number q body code progress) (noted : (comment.getD []).Within ok)
    (line : code.Within ok) (within : body.Within ok) :
    progress.Of (Within ok) (·.Everywhere (Node.Within ok)) := by
  induction run with
  | finish => exact within.endLine own noted number
  | close code settled closed =>
    obtain ⟨top, text, -⟩ := within
    obtain ⟨here, below⟩ := (within_close own top text number).node
    obtain ⟨-, rfl⟩ := Body.closeDefinition_eq_ok.mp closed
    exact .intro (here.dress ((Text.within_cons.mp line).2.neat own) here.opening noted) below
  | step taken later ih =>
    obtain ⟨here, behind⟩ := Text.within_cons.mp line
    exact ih behind (within.step own here taken)

theorem within_readLine {line : CodeLine} {progress : Progress}
    (read : body.readLine limit line number = .ok progress) (code : line.code.Within ok)
    (noted : (line.comment.getD []).Within ok) (within : body.Within ok) :
    progress.Of (Within ok) (·.Everywhere (Node.Within ok)) := by
  refine within_lineRun own (lineRun_of_readCode _ _ _ _ _ _ _ read) noted code ?_
  obtain ⟨⟨node, waiting, comment⟩, text, below⟩ := within
  refine ⟨⟨node, waiting, comment⟩, ?_, below⟩
  unfold Body.startLine
  simp only
  split
  · exact Text.within_append.mpr ⟨text, Text.within_cons.mpr ⟨own ' ' (by decide), Text.within_nil⟩⟩
  · exact text

theorem Within.readComment (within : body.Within ok) {line : Text} (here : line.Within ok)
    (inBlock : Bool) (number : Nat) : (body.readComment line inBlock number).Within ok := by
  obtain ⟨top, text, below⟩ := within
  refine ⟨holds_readComment top (Node.built_within own) fun level =>
    Node.within_ofComment here inBlock level number, ?_, ?_⟩
  · rwa [body.text_readComment]
  · rwa [body.below_readComment]

theorem within_start {node : Node} {first : Text} {progress : Progress}
    (started : Body.start node limit first = .ok progress) (within : node.Within ok)
    (bare : node.children = []) (line : first.Within ok) :
    progress.Of (Within ok) (·.Everywhere (Node.Within ok)) := by
  have opened : ∀ {other : Node}, other.Within ok → other.children = [] →
      OpenGroup.Within ok { node := other } :=
    fun here bare => ⟨.intro here (by simp [bare]), by simp, Text.within_nil⟩
  rcases Body.lineRun_of_start started with ⟨-, rfl⟩ | run
  · exact ⟨opened within bare, Text.within_nil, by simp⟩
  · refine within_lineRun own run within.opening line
      ⟨opened ?_ bare, Text.within_nil, by simp⟩
    exact within.dress within.trailer Text.within_nil within.closing

end Body

end AsnLayout
