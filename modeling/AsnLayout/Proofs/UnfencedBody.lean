import AsnLayout.Proofs.GroupNodes
import AsnLayout.Proofs.QuotedBody
import AsnLayout.Proofs.Stretches

/-!
# Definitions without fences

While a definition is read from lines of code in which no stretch is a fence, none of the texts that
a layout may put on lines of their own becomes one.
-/

set_option autoImplicit false

namespace AsnLayout

/-! ## Texts with comments -/

theorem Text.IsNote.behind {comment code : Text} (note : comment.IsNote) (single : '\n' ∉ code) :
    Text.Inner (code ++ comment) := by
  obtain ⟨⟨rest, rfl⟩, single'⟩ := note
  refine Text.inner_of_mem ?_ (c := '-') (by simp) (by decide) (by decide)
  rw [List.mem_append, not_or]
  exact ⟨single, single'⟩

theorem Text.IsNote.inner {comment : Text} (note : comment.IsNote) : Text.Inner comment :=
  @Text.IsNote.behind comment [] note (by simp)

theorem Text.Inner.beside {code : Text} (inner : Text.Inner code) {comment : Option Text}
    (noted : IsNoted comment) : Text.Inner (beside code comment) := by
  unfold AsnLayout.beside
  split
  · exact inner
  · rename_i text
    have note := noted text rfl
    split
    · exact inner
    · split
      · exact note.inner
      · rw [← List.singleton_append, ← List.append_assoc]
        exact note.behind (by simp [inner.single])

namespace Node

/-- Nothing that is laid out from the texts of a node is a fence on a line of its own. -/
structure Unfenced (node : Node) : Prop where
  name : node.kind = .typeDefinition → '\n' ∉ node.name
  content : Text.Inner node.content
  member : node.isField = true → Text.Unfenced node.content
  /-- An assignment sign stands before the header, or a brace behind it. -/
  header : Text.UnfencedBehind (node.header.getD [])
  members : ∀ part ∈ node.inlineMembers.getD [], Text.Unfenced part
  trailer : '\n' ∉ node.trailer
  opening : IsNoted node.openingComment
  closing : IsNoted node.closingComment

theorem Unfenced.dress {node : Node} (unfenced : node.Unfenced) {trailer : Text}
    {openingComment closingComment : Option Text} (single : '\n' ∉ trailer)
    (noted : IsNoted openingComment) (noted' : IsNoted closingComment) :
    Unfenced { node with trailer, openingComment, closingComment } := by
  obtain ⟨name, content, member, header, members, -, -, -⟩ := unfenced
  exact ⟨name, content, member, header, members, single, noted, noted'⟩

theorem Unfenced.withChildren {node : Node} (unfenced : node.Unfenced) (children : List Node) :
    Unfenced { node with children } := by
  obtain ⟨name, content, member, header, members, trailer, opening, closing⟩ := unfenced
  exact ⟨name, content, member, header, members, trailer, opening, closing⟩

theorem unfenced_of_content {node : Node} (kind : node.kind ≠ .typeDefinition)
    (content : Text.Inner node.content)
    (member : node.isField = true → Text.Unfenced node.content) (header : node.header = none)
    (members : node.inlineMembers = none) (trailer : node.trailer = [])
    (opening : node.openingComment = none) (closing : node.closingComment = none)
    (bare : node.children = []) : node.Everywhere Unfenced := by
  refine .intro ⟨fun same => absurd same kind, content, member, ?_, ?_, ?_, ?_, ?_⟩ ?_
  · rw [header]
    exact Text.Unfenced.nil.behind
  · simp [members]
  · simp [trailer]
  · rw [opening]
    exact isNoted_none
  · rw [closing]
    exact isNoted_none
  · simp [bare]

theorem unfenced_ofComment {line : Text} (inner : Text.Inner line) (inBlock : Bool) (level : Int)
    (number : Nat) : (ofComment line inBlock level number).Everywhere Unfenced := by
  refine unfenced_of_content (fun same => by cases same) ?_ (fun field => by cases field) rfl rfl
    rfl rfl rfl rfl
  cases inBlock with
  | true => exact inner
  | false =>
    exact inner.of_trim (fun newline => inner.single ((List.dropWhile_suffix _).subset newline))
      (Text.trim_trimStart line)

theorem unfenced_ofMember {text : Text} (unfenced : Text.Unfenced text) (level : Int)
    (number : Nat) : (ofMember text level number).Everywhere Unfenced :=
  unfenced_of_content (fun same => by cases same) unfenced.inner (fun _ => unfenced) rfl rfl rfl rfl
    rfl rfl

/-- What groups build from comments and from texts without fences is laid out without one. -/
theorem built_unfenced : Built Unfenced IsNoted Text.Unfenced where
  none := isNoted_none
  both noted noted' := noted.both noted'
  children here children := here.withChildren children
  level here _ := by
    obtain ⟨name, content, member, header, members, trailer, opening, closing⟩ := here
    exact ⟨name, content, member, header, members, trailer, opening, closing⟩
  opening here _ noted := here.dress here.trailer (here.opening.both noted) here.closing
  closing here _ noted := here.dress here.trailer here.opening (here.closing.both noted)
  trailer here _ text := here.dress text.memberForm.single here.opening here.closing
  remark noted level number := (unfenced_ofComment (noted _ rfl).inner false level number).here
  ofMember text _ level number := (unfenced_ofMember text.memberForm level number).here

end Node

/-! ## Open groups -/

namespace OpenGroup

structure Unfenced (group : OpenGroup) : Prop where
  node : group.node.Everywhere Node.Unfenced
  waiting : ∀ child ∈ group.waiting, child.Everywhere Node.Unfenced
  comment : IsNoted group.comment

variable {group : OpenGroup}

theorem unfenced_iff : group.Unfenced ↔ group.Holds Node.Unfenced IsNoted :=
  ⟨fun ⟨node, waiting, comment⟩ => ⟨node, waiting, comment⟩,
    fun ⟨node, waiting, comment⟩ => ⟨node, waiting, comment⟩⟩

theorem Unfenced.retext (unfenced : group.Unfenced) (text : Text) (brackets lineBrackets : Nat) :
    Unfenced { group with text, brackets, lineBrackets } :=
  ⟨unfenced.node, unfenced.waiting, unfenced.comment⟩

theorem Unfenced.endMember (unfenced : group.Unfenced) (text : Text.Unfenced group.text)
    (number : Nat) : (group.endMember number).Unfenced :=
  unfenced_iff.mpr ((unfenced_iff.mp unfenced).endMember Node.built_unfenced text number)

theorem unfenced_lineNode (text : Text.Unfenced group.text) {comment : Option Text}
    (noted : IsNoted comment) (number : Nat) :
    (group.lineNode (Text.neat group.text) comment number).Unfenced :=
  (Node.unfenced_of_content (fun same => by cases same) (text.neat.inner.beside noted)
    (fun field => by cases field) rfl rfl rfl rfl rfl rfl).here

theorem Unfenced.close (unfenced : group.Unfenced) (text : Text.Unfenced group.text)
    (number : Nat) : (group.close number).Unfenced :=
  unfenced_iff.mpr ((unfenced_iff.mp unfenced).close Node.built_unfenced (fun _ => text)
    fun _ => unfenced_lineNode text isNoted_none number)

theorem Unfenced.groupNode (unfenced : group.Unfenced) (text : Text.Unfenced group.text)
    (number : Nat) : Unfenced { node := group.groupNode number } := by
  have header := text.neat
  exact unfenced_iff.mpr ((unfenced_iff.mp unfenced).groupNode Node.built_unfenced
    ⟨nofun, header.inner, fun _ => header, header.behind, by simp [OpenGroup.groupNode],
      by simp [OpenGroup.groupNode], unfenced.comment, isNoted_none⟩)

theorem Unfenced.withoutHeader (unfenced : group.Unfenced) : group.withoutHeader.Unfenced :=
  unfenced_iff.mpr ((unfenced_iff.mp unfenced).withoutHeader Node.built_unfenced)

theorem Unfenced.adopt (unfenced : group.Unfenced) {inner : Node}
    (all : inner.Everywhere Node.Unfenced) : (group.adopt inner).Unfenced :=
  unfenced_iff.mpr ((unfenced_iff.mp unfenced).adopt Node.built_unfenced all)

end OpenGroup

/-! ## Bodies -/

namespace Body

structure Unfenced (body : Body) (rest : Text) : Prop where
  top : body.top.Unfenced
  below : ∀ group ∈ body.below, group.Unfenced ∧ group.text = []
  text : Text.Unfenced (body.top.text ++ rest)

variable {limit : Int} {number : Nat} {q : Quoting} {body next : Body} {rest : Text}

theorem Unfenced.take {c : Char} (unfenced : body.Unfenced (c :: rest)) (brackets : Nat) :
    Unfenced { body with top := { body.top.take c with brackets } } rest := by
  obtain ⟨top, below, text⟩ := unfenced
  rw [← List.singleton_append, ← List.append_assoc] at text
  exact ⟨top.retext _ _ _, below, text⟩

/-- Each character of a line goes where it belongs, and groups and members are cut where no stretch
goes on. -/
theorem Unfenced.step {c : Char} (unfenced : body.Unfenced (c :: rest))
    (taken : Step limit number q body c rest next) : next.Unfenced rest := by
  cases taken with
  | hidden covered => exact unfenced.take body.top.brackets
  | @leave top outer below anchor _ code settled =>
    obtain ⟨inner, around, text⟩ := unfenced
    obtain ⟨member, behind⟩ := (Text.unfenced_cut (by decide)).mp text
    obtain ⟨⟨outside, noText⟩, below⟩ := List.forall_mem_cons.mp around
    refine ⟨outside.adopt (inner.close member number).node, below, ?_⟩
    change Text.Unfenced (outer.text ++ rest)
    rwa [noText]
  | enter code settled structured leftOpen entered =>
    obtain ⟨top, below, text⟩ := unfenced
    obtain ⟨header, behind⟩ := (Text.unfenced_cut (by decide)).mp text
    obtain ⟨-, -, rfl⟩ := Body.enterGroup_eq_ok.mp entered
    exact ⟨top.groupNode header number,
      List.forall_mem_cons.mpr ⟨⟨top.withoutHeader, rfl⟩, below⟩, behind⟩
  | comma code settled structured =>
    obtain ⟨top, below, text⟩ := unfenced
    obtain ⟨member, behind⟩ := (Text.unfenced_cut (by decide)).mp text
    refine ⟨top.endMember member number, below, ?_⟩
    change Text.Unfenced ((body.top.endMember number).text ++ rest)
    rw [OpenGroup.endMember_eq]
    exact behind
  | keep code noClose noGroup noComma => exact unfenced.take _

inductive Progress.Unfenced : Progress → Prop where
  | more {body : Body} (unfenced : body.Unfenced []) (clean : body.Clean) : Unfenced (.more body)
  | closed {node : Node} (all : node.Everywhere Node.Unfenced) : Unfenced (.closed node)

theorem Unfenced.endLine (unfenced : body.Unfenced []) {comment : Option Text}
    (noted : IsNoted comment) (number : Nat) :
    Progress.Unfenced (.more (body.endLine comment number)) := by
  obtain ⟨top, below, text⟩ := unfenced
  rw [List.append_nil] at text
  have top := OpenGroup.unfenced_iff.mpr (holds_endLine (OpenGroup.unfenced_iff.mp top)
    Node.built_unfenced noted fun _ => OpenGroup.unfenced_lineNode text noted number)
  have kind : (body.endLine comment number).top.structured = body.top.structured :=
    congrArg Stance.structured (body.stance_endLine comment number)
  rw [← body.below_endLine comment number] at below
  cases structured : body.top.structured with
  | true =>
    refine .more ⟨top, below, ?_⟩ fun plain => ?_
    · rwa [body.text_endLine structured, List.append_nil]
    · rw [kind, structured] at plain
      cases plain
  | false =>
    have empty := body.text_endLine_of_unstructured structured comment number
    refine .more ⟨top, below, ?_⟩ fun _ => empty
    rw [empty]
    exact .nil

theorem unfenced_lineRun {comment : Option Text} {code : Text} {progress : Progress}
    (run : LineRun limit comment number q body code progress) (noted : IsNoted comment)
    (unfenced : body.Unfenced code) : progress.Unfenced := by
  induction run with
  | finish => exact unfenced.endLine noted number
  | @close q top anchor rest node code settled closed =>
    obtain ⟨top, -, text⟩ := unfenced
    obtain ⟨member, behind⟩ := (Text.unfenced_cut (by decide)).mp text
    obtain ⟨here, below⟩ := (top.close member number).node
    obtain ⟨-, rfl⟩ := Body.closeDefinition_eq_ok.mp closed
    exact .closed (.intro (here.dress behind.neat.single here.opening noted) below)
  | step taken later ih => exact ih (unfenced.step taken)

theorem Unfenced.startLine {code : Text} (unfenced : body.Unfenced []) (clean : body.Clean)
    (codeUnfenced : Text.Unfenced code) : body.startLine.Unfenced code := by
  obtain ⟨top, below, text⟩ := unfenced
  rw [List.append_nil] at text
  refine ⟨top.retext body.startLine.top.text body.top.brackets body.top.brackets, below, ?_⟩
  by_cases goesOn : (body.top.structured && decide (body.top.text ≠ [])) = true
  · have started : body.startLine.top.text = body.top.text ++ [' '] := if_pos goesOn
    rw [started, List.append_assoc]
    exact text.join codeUnfenced
  · have empty : body.top.text = [] := by
      by_cases structured : body.top.structured = true
      · simpa [structured] using goesOn
      · exact clean (by simpa using structured)
    have started : body.startLine.top.text = [] := (if_neg goesOn).trans empty
    rwa [started]

theorem unfenced_readLine {line : CodeLine} {progress : Progress}
    (read : body.readLine limit line number = .ok progress) (unfenced : body.Unfenced [])
    (clean : body.Clean) (code : Text.Unfenced line.code) (noted : IsNoted line.comment) :
    progress.Unfenced :=
  unfenced_lineRun (lineRun_of_readCode _ _ _ _ _ _ _ read) noted (unfenced.startLine clean code)

theorem Unfenced.readComment (unfenced : body.Unfenced []) {line : Text} (inner : Text.Inner line)
    (inBlock : Bool) (number : Nat) : (body.readComment line inBlock number).Unfenced [] := by
  obtain ⟨top, below, text⟩ := unfenced
  refine ⟨OpenGroup.unfenced_iff.mpr (holds_readComment (OpenGroup.unfenced_iff.mp top)
    Node.built_unfenced fun level => (Node.unfenced_ofComment inner inBlock level number).here),
    ?_, ?_⟩
  · rwa [body.below_readComment]
  · rwa [body.text_readComment]

theorem unfenced_start {node : Node} {first : Text} {progress : Progress}
    (started : Body.start node limit first = .ok progress) (unfenced : node.Unfenced)
    (bare : node.children = []) (code : Text.Unfenced first) : progress.Unfenced := by
  have opened : ∀ {other : Node}, other.Unfenced → other.children = [] →
      OpenGroup.Unfenced { node := other } :=
    fun here bare => ⟨.intro here (by simp [bare]), by simp, isNoted_none⟩
  rcases Body.lineRun_of_start started with ⟨-, rfl⟩ | run
  · exact .more ⟨opened unfenced bare, by simp, .nil⟩ fun _ => rfl
  · refine unfenced_lineRun run unfenced.opening
      ⟨opened ?_ bare, by simp, code⟩
    exact unfenced.dress unfenced.trailer isNoted_none unfenced.closing

end Body

end AsnLayout
