import AsnLayout.Proofs.Kept
import AsnLayout.Proofs.Spacing

/-!
# Trees up to lines that are passed over

A sieve tells which lines a comparison passes over, blank ones at least.  Two trees are alike if
they differ only in the numbers of their lines and in nodes that are such lines.  What is done with
an open group or a body does not tell alike trees apart.
-/

set_option autoImplicit false

namespace AsnLayout

/-! ## What is passed over -/

/-- The texts that a comparison of two schemas passes over: blank ones and maybe others. -/
structure Sieve where
  drops : Text → Bool
  blank : ∀ {t : Text}, Text.isBlankText t = true → drops t = true
  trim : ∀ t : Text, drops (Text.trim t) = drops t
  /-- A text that is passed over is so line by line. -/
  lines : ∀ {t line : Text}, drops t = true → line ∈ Text.lines t → drops line = true

namespace Sieve

theorem drops_of_trim (sieve : Sieve) {t t' : Text} (same : Text.trim t = Text.trim t') :
    sieve.drops t = sieve.drops t' := by
  rw [← sieve.trim, same, sieve.trim]

end Sieve

namespace Node

def isFaint (sieve : Sieve) (node : Node) : Bool :=
  (node.kind = .comment || node.kind = .other) && sieve.drops node.content

mutual

/-- The node without line numbers and without the lines below it that are passed over. -/
def core (sieve : Sieve) : Node → Node
  | node@{ children, .. } => { node with line := 0, children := coreAll sieve children }

def coreAll (sieve : Sieve) : List Node → List Node
  | [] => []
  | node :: later =>
    if node.isFaint sieve then coreAll sieve later else core sieve node :: coreAll sieve later

end

variable {sieve : Sieve}

def frame (node : Node) : Node := { node with line := 0, children := [] }

theorem core_eq (node : Node) :
    node.core sieve = { node.frame with children := coreAll sieve node.children } := by
  cases node
  rw [core]
  rfl

@[simp]
theorem coreAll_nil : coreAll sieve [] = [] := by rw [coreAll]

theorem coreAll_cons (node : Node) (later : List Node) :
    coreAll sieve (node :: later) =
      if node.isFaint sieve then coreAll sieve later
      else node.core sieve :: coreAll sieve later := by
  rw [coreAll]

theorem coreAll_append (front back : List Node) :
    coreAll sieve (front ++ back) = coreAll sieve front ++ coreAll sieve back := by
  induction front with
  | nil => simp
  | cons node later ih =>
    rw [List.cons_append, coreAll_cons, coreAll_cons, ih]
    split <;> rfl

theorem coreAll_faint {node : Node} (faint : node.isFaint sieve = true) :
    coreAll sieve [node] = [] := by
  rw [coreAll_cons, if_pos faint, coreAll_nil]

/-- Two nodes that differ in line numbers and lines that are passed over only. -/
structure Alike (sieve : Sieve) (first second : Node) : Prop where
  frame : first.frame = second.frame
  children : coreAll sieve first.children = coreAll sieve second.children

theorem alike_iff {first second : Node} :
    first.Alike sieve second ↔ first.core sieve = second.core sieve := by
  rw [core_eq, core_eq]
  constructor
  · rintro ⟨frames, children⟩
    rw [frames, children]
  · intro same
    have frames := congrArg Node.frame same
    have children := congrArg Node.children same
    exact ⟨frames, children⟩

theorem Alike.symm {first second : Node} (alike : first.Alike sieve second) :
    second.Alike sieve first :=
  ⟨alike.frame.symm, alike.children.symm⟩

section

variable {first second : Node} (alike : first.Alike sieve second)
include alike

/-- What does not depend on line numbers and on the nodes below is the same of alike nodes. -/
theorem Alike.same {α : Type} (view : Node → α)
    (blind : ∀ node : Node, view node.frame = view node) :
    view first = view second := by
  rw [← blind first, alike.frame, blind]

theorem Alike.kind : first.kind = second.kind := alike.same Node.kind fun _ => rfl

theorem Alike.name : first.name = second.name := alike.same Node.name fun _ => rfl

theorem Alike.content : first.content = second.content := alike.same Node.content fun _ => rfl

theorem Alike.level : first.level = second.level := alike.same Node.level fun _ => rfl

theorem Alike.oneLine : first.oneLine = second.oneLine := alike.same Node.oneLine fun _ => rfl

theorem Alike.inlineMembers : first.inlineMembers = second.inlineMembers :=
  alike.same Node.inlineMembers fun _ => rfl

theorem Alike.header : first.header = second.header := alike.same Node.header fun _ => rfl

theorem Alike.trailer : first.trailer = second.trailer := alike.same Node.trailer fun _ => rfl

theorem Alike.openingComment : first.openingComment = second.openingComment :=
  alike.same Node.openingComment fun _ => rfl

theorem Alike.closingComment : first.closingComment = second.closingComment :=
  alike.same Node.closingComment fun _ => rfl

theorem Alike.isStructured : first.isStructured = second.isStructured :=
  alike.same Node.isStructured fun _ => rfl

end

theorem Alike.withChildren {first second : Node} (alike : first.Alike sieve second)
    {nodes nodes' : List Node} (same : coreAll sieve nodes = coreAll sieve nodes') :
    Alike sieve { first with children := nodes } { second with children := nodes' } :=
  ⟨alike.frame, same⟩

theorem Alike.withName {first second : Node} (alike : first.Alike sieve second) (name : Text) :
    Alike sieve { first with name } { second with name } := by
  have same := congrArg (fun node => { node with name }) alike.frame
  exact ⟨same, alike.children⟩

theorem Alike.withOpening {first second : Node} (alike : first.Alike sieve second)
    (openingComment : Option Text) :
    Alike sieve { first with openingComment } { second with openingComment } := by
  have same := congrArg (fun node => { node with openingComment }) alike.frame
  exact ⟨same, alike.children⟩

theorem Alike.withClosing {first second : Node} (alike : first.Alike sieve second) (trailer : Text)
    (closingComment : Option Text) :
    Alike sieve { first with trailer, closingComment } { second with trailer, closingComment } := by
  have same := congrArg (fun node => { node with trailer, closingComment }) alike.frame
  exact ⟨same, alike.children⟩

theorem alike_ofComment (line : Text) (blockLine : Bool) (level : Int) (number number' : Nat) :
    Alike sieve (ofComment line blockLine level number) (ofComment line blockLine level number') :=
  ⟨rfl, rfl⟩

theorem isFaint_ofComment {line : Text} (dropped : sieve.drops line = true) (blockLine : Bool)
    (level : Int) (number : Nat) :
    (ofComment line blockLine level number).isFaint sieve = true := by
  have content : sieve.drops (ofComment line blockLine level number).content = true := by
    simp only [ofComment]
    split
    · exact dropped
    · rw [sieve.drops_of_trim (Text.trim_trimStart line), dropped]
  rw [isFaint, content]
  rfl

theorem alike_ofMember (text : Text) (level : Int) (number number' : Nat) :
    Alike sieve (ofMember text level number) (ofMember text level number') := ⟨rfl, rfl⟩

theorem Alike.coreAll_single {first second : Node} (alike : first.Alike sieve second) :
    coreAll sieve [first] = coreAll sieve [second] := by
  have faint := alike.same (isFaint sieve) fun _ => rfl
  rw [coreAll_cons, coreAll_cons, faint, alike_iff.mp alike]

/-! ## Members -/

theorem isField_core (node : Node) : (node.core sieve).isField = node.isField := by
  rw [core_eq]
  rfl

theorem isFaint_of_isField {node : Node} (isField : node.isField = true) :
    node.isFaint sieve = false := by
  have kind : node.kind = .field := by simpa [Node.isField] using isField
  simp [isFaint, kind]

theorem any_isField_coreAll (nodes : List Node) :
    (coreAll sieve nodes).any isField = nodes.any isField := by
  induction nodes with
  | nil => simp
  | cons node later ih =>
    rw [coreAll_cons, List.any_cons]
    cases isField : node.isField with
    | false =>
      split
      · rw [ih, Bool.false_or]
      · rw [List.any_cons, isField_core, isField, ih]
    | true =>
      rw [if_neg (by simp [isFaint_of_isField isField]), List.any_cons, isField_core, isField, ih]

/-- A change of the last member that keeps it a member does not touch lines that are passed over. -/
theorem coreAll_modifyLastField (change : Node → Node)
    (commutes : ∀ node, (change node).core sieve = change (node.core sieve))
    (field : ∀ node, node.isField = true → (change node).isField = true) (nodes : List Node) :
    coreAll sieve (modifyLastField change nodes) =
      modifyLastField change (coreAll sieve nodes) := by
  induction nodes with
  | nil => rfl
  | cons node later ih =>
    rw [modifyLastField]
    by_cases last : (node.isField && !later.any isField) = true
    · have isField : node.isField = true := (Bool.and_eq_true_iff.mp last).1
      rw [if_pos last, coreAll_cons, coreAll_cons,
        if_neg (by simp [isFaint_of_isField (field node isField)]),
        if_neg (by simp [isFaint_of_isField isField]), modifyLastField, isField_core,
        any_isField_coreAll, if_pos last, commutes]
    · rw [if_neg last, coreAll_cons, coreAll_cons, ih]
      split
      · rfl
      · rw [modifyLastField, isField_core, any_isField_coreAll, if_neg last]

theorem core_addComment (comment : Text) (node : Node) :
    (node.addComment comment).core sieve = (node.core sieve).addComment comment := by
  have same : (node.core sieve).spansLines = node.spansLines := by
    rw [core_eq]
    rfl
  unfold addComment
  rw [same]
  split
  · rw [core_eq, core_eq]
    rfl
  · rw [core_eq, core_eq]
    rfl

theorem coreAll_addComment (comment : Text) (nodes : List Node) :
    coreAll sieve (modifyLastField (·.addComment comment) nodes) =
      modifyLastField (·.addComment comment) (coreAll sieve nodes) := by
  refine coreAll_modifyLastField _ (core_addComment comment) ?_ nodes
  intro node isField
  unfold addComment
  split <;> exact isField

theorem coreAll_trailer (trailer : Text) (nodes : List Node) :
    coreAll sieve (modifyLastField (fun node => { node with trailer }) nodes) =
      modifyLastField (fun node => { node with trailer }) (coreAll sieve nodes) := by
  refine coreAll_modifyLastField (fun node => { node with trailer }) ?_
    (fun _ isField => isField) nodes
  intro node
  rw [core_eq, core_eq]
  rfl

theorem coreAll_map_level (level : Int) (nodes : List Node) :
    coreAll sieve (nodes.map fun node => { node with level }) =
      (coreAll sieve nodes).map fun node => { node with level } := by
  induction nodes with
  | nil => simp
  | cons node later ih =>
    rw [List.map_cons, coreAll_cons, coreAll_cons, ih]
    have same : ({ node with level } : Node).isFaint sieve = node.isFaint sieve := rfl
    rw [same]
    split
    · rfl
    · rw [List.map_cons, core_eq, core_eq]
      rfl

end Node

/-! ## Open groups -/

structure OpenGroup.Alike (sieve : Sieve) (first second : OpenGroup) : Prop where
  node : first.node.Alike sieve second.node
  text : first.text = second.text
  brackets : first.brackets = second.brackets
  lineBrackets : first.lineBrackets = second.lineBrackets
  pending : first.pending = second.pending
  comment : first.comment = second.comment
  waiting : Node.coreAll sieve first.waiting = Node.coreAll sieve second.waiting

namespace OpenGroup

variable {sieve : Sieve} {first second : OpenGroup}

theorem Alike.symm (alike : first.Alike sieve second) : second.Alike sieve first :=
  ⟨alike.node.symm, alike.text.symm, alike.brackets.symm, alike.lineBrackets.symm,
    alike.pending.symm, alike.comment.symm, alike.waiting.symm⟩

theorem Alike.structured (alike : first.Alike sieve second) :
    first.structured = second.structured :=
  alike.node.isStructured

theorem Alike.level (alike : first.Alike sieve second) : first.level = second.level := by
  rw [OpenGroup.level, OpenGroup.level, alike.node.level]

theorem Alike.any_isField (alike : first.Alike sieve second) :
    first.node.children.any Node.isField = second.node.children.any Node.isField := by
  rw [← Node.any_isField_coreAll, alike.node.children, Node.any_isField_coreAll]

theorem Alike.append (alike : first.Alike sieve second) {nodes nodes' : List Node}
    (same : Node.coreAll sieve nodes = Node.coreAll sieve nodes') :
    (first.append nodes).Alike sieve (second.append nodes') := by
  refine { alike with node := alike.node.withChildren ?_ }
  rw [Node.coreAll_append, Node.coreAll_append, alike.node.children, same]

theorem Alike.commentLast (alike : first.Alike sieve second) (comment : Text)
    (number number' : Nat) :
    (first.commentLast comment number).Alike sieve (second.commentLast comment number') := by
  unfold OpenGroup.commentLast
  rw [alike.any_isField]
  split
  · refine { alike with node := alike.node.withChildren ?_ }
    rw [Node.coreAll_addComment, Node.coreAll_addComment, alike.node.children]
  · rw [alike.level]
    exact alike.append (Node.alike_ofComment ..).coreAll_single

theorem Alike.take (alike : first.Alike sieve second) (c : Char) :
    (first.take c).Alike sieve (second.take c) :=
  { alike with text := congrArg (· ++ [c]) alike.text }

theorem Alike.takeCode (alike : first.Alike sieve second) (c : Char) :
    (first.takeCode c).Alike sieve (second.takeCode c) := by
  refine { alike.take c with brackets := ?_ }
  simp only [OpenGroup.takeCode, alike.brackets]

theorem Alike.endsMember (alike : first.Alike sieve second) :
    first.endsMember = second.endsMember := by
  rw [OpenGroup.endsMember, OpenGroup.endsMember, alike.pending, alike.text]

theorem Alike.coreAll_withMember (alike : first.Alike sieve second) (number number' : Nat) :
    Node.coreAll sieve (first.withMember number) =
      Node.coreAll sieve (second.withMember number') := by
  unfold withMember
  rw [alike.pending, alike.text, alike.level]
  simp only
  split
  · rw [Node.coreAll_trailer, Node.coreAll_trailer, alike.node.children]
  · split
    · exact alike.node.children
    · rw [Node.coreAll_append, Node.coreAll_append, alike.node.children,
        (Node.alike_ofMember ..).coreAll_single]

theorem Alike.coreAll_withRemark (alike : first.Alike sieve second) (number number' : Nat)
    {children children' : List Node}
    (same : Node.coreAll sieve children = Node.coreAll sieve children') :
    Node.coreAll sieve (first.withRemark number children) =
      Node.coreAll sieve (second.withRemark number' children') := by
  unfold withRemark
  rw [alike.comment, alike.endsMember, alike.level]
  split
  · exact same
  · split
    · rw [Node.coreAll_addComment, Node.coreAll_addComment, same]
    · rw [Node.coreAll_append, Node.coreAll_append, same,
        (Node.alike_ofComment ..).coreAll_single]

theorem Alike.endMember (alike : first.Alike sieve second) (number number' : Nat) :
    (first.endMember number).Alike sieve (second.endMember number') := by
  rw [endMember_eq, endMember_eq]
  refine ⟨alike.node.withChildren ?_, rfl, alike.brackets, alike.lineBrackets, rfl, rfl, rfl⟩
  rw [Node.coreAll_append, Node.coreAll_append, alike.waiting,
    alike.coreAll_withRemark number number' (alike.coreAll_withMember number number')]

theorem Alike.keepLine (alike : first.Alike sieve second) (comment : Option Text)
    (number number' : Nat) :
    (first.keepLine comment number).Alike sieve (second.keepLine comment number') := by
  rw [keepLine_eq, keepLine_eq, alike.text]
  have line : (first.lineNode (Text.neat second.text) comment number).Alike sieve
      (second.lineNode (Text.neat second.text) comment number') := by
    refine ⟨?_, rfl⟩
    simp only [lineNode, alike.level, alike.lineBrackets, Node.frame]
  have appended : (first.append (if Text.neat second.text = [] then []
        else [first.lineNode (Text.neat second.text) comment number])).Alike sieve
      (second.append (if Text.neat second.text = [] then []
        else [second.lineNode (Text.neat second.text) comment number'])) := by
    refine alike.append ?_
    split
    · rfl
    · exact line.coreAll_single
  exact { appended with text := rfl }

theorem Alike.close (alike : first.Alike sieve second) (number number' : Nat) :
    (first.close number).Alike sieve (second.close number') := by
  unfold OpenGroup.close
  rw [alike.structured]
  split
  · exact alike.endMember number number'
  · exact alike.keepLine none number number'

theorem Alike.groupNode (alike : first.Alike sieve second) (number number' : Nat) :
    (first.groupNode number).Alike sieve (second.groupNode number') := by
  refine ⟨?_, ?_⟩
  · simp only [OpenGroup.groupNode, alike.text, alike.level, alike.comment, Node.frame]
  · rw [OpenGroup.groupNode, OpenGroup.groupNode, Node.coreAll_map_level, Node.coreAll_map_level,
      alike.waiting, alike.level]

theorem Alike.withoutHeader (alike : first.Alike sieve second) :
    first.withoutHeader.Alike sieve second.withoutHeader :=
  { alike with text := rfl, comment := rfl, waiting := rfl }

theorem Alike.adopt (alike : first.Alike sieve second) {inner inner' : Node}
    (same : inner.Alike sieve inner') : (first.adopt inner).Alike sieve (second.adopt inner') :=
  { alike.append same.coreAll_single with pending := rfl }

end OpenGroup

/-! ## Bodies -/

structure Body.Alike (sieve : Sieve) (first second : Body) : Prop where
  top : first.top.Alike sieve second.top
  below : List.Forall₂ (OpenGroup.Alike sieve) first.below second.below
  anchor : first.anchor = second.anchor

inductive Body.Progress.Alike (sieve : Sieve) : Progress → Progress → Prop where
  | more {first second : Body} (alike : first.Alike sieve second) :
      Alike sieve (.more first) (.more second)
  | closed {first second : Node} (alike : first.Alike sieve second) :
      Alike sieve (.closed first) (.closed second)

namespace Body

variable {sieve : Sieve} {first second : Body}

theorem Alike.symm (alike : first.Alike sieve second) : second.Alike sieve first :=
  ⟨alike.top.symm, List.Forall₂.flip (alike.below.imp fun _ _ => OpenGroup.Alike.symm),
    alike.anchor.symm⟩

theorem Alike.withTop (alike : first.Alike sieve second) {top top' : OpenGroup}
    (same : top.Alike sieve top') :
    Alike sieve { first with top } { second with top := top' } :=
  ⟨same, alike.below, alike.anchor⟩

theorem Alike.startLine (alike : first.Alike sieve second) :
    first.startLine.Alike sieve second.startLine := by
  refine ⟨{ alike.top with text := ?_, lineBrackets := alike.top.brackets }, alike.below, rfl⟩
  simp only [Body.startLine, alike.top.structured, alike.top.text]

theorem Alike.anchorComment (alike : first.Alike sieve second) (comment : Text)
    (number number' : Nat) :
    (first.anchorComment comment number).Alike sieve (second.anchorComment comment number') := by
  obtain ⟨top, below, anchor⟩ := first
  obtain ⟨top', below', anchor'⟩ := second
  obtain ⟨tops, around, same⟩ := alike
  cases same
  cases anchor with
  | nothing =>
    refine ⟨tops.append ?_, around, rfl⟩
    rw [tops.level, tops.brackets]
    exact (Node.alike_ofComment ..).coreAll_single
  | opening =>
    have both : bothComments top.node.openingComment (some comment) =
        bothComments top'.node.openingComment (some comment) :=
      congrArg (bothComments · (some comment)) tops.node.openingComment
    refine ⟨{ tops with node := ?_ }, around, rfl⟩
    simp only [Body.anchorComment, both]
    exact tops.node.withOpening _
  | member => exact ⟨tops.commentLast comment number number', around, rfl⟩

theorem Alike.endLine (alike : first.Alike sieve second) (comment : Option Text)
    (number number' : Nat) :
    (first.endLine comment number).Alike sieve (second.endLine comment number') := by
  unfold Body.endLine
  simp only [alike.top.structured, alike.top.text]
  split
  · exact alike.withTop (alike.top.keepLine comment number number')
  by_cases structured : second.top.structured = true
  · simp only [structured, if_true]
    cases comment with
    | none => exact alike
    | some comment =>
      simp only [alike.top.text]
      split
      · exact alike.anchorComment comment number number'
      · exact alike.withTop { alike.top with
          text := rfl, comment := congrArg (bothComments · (some comment)) alike.top.comment }
  · have cut : Alike sieve { first with top := { first.top with text := [] } }
        { second with top := { second.top with text := [] } } :=
      alike.withTop { alike.top with text := rfl }
    simp only [structured, Bool.false_eq_true, if_false]
    cases comment with
    | none => exact cut
    | some comment => exact cut.anchorComment comment number number'

theorem Alike.endMember (alike : first.Alike sieve second) (number number' : Nat) :
    (first.endMember number).Alike sieve (second.endMember number') := by
  refine ⟨alike.top.endMember number number', alike.below, ?_⟩
  simp only [Body.endMember, alike.top.endsMember, alike.anchor]

theorem Alike.enterGroup (alike : first.Alike sieve second) {limit : Int} {number : Nat}
    (number' : Nat) {next : Body} (entered : first.enterGroup limit number = .ok next) :
    ∃ next', second.enterGroup limit number' = .ok next' ∧ next.Alike sieve next' := by
  obtain ⟨notPending, room, rfl⟩ := Body.enterGroup_eq_ok.mp entered
  refine ⟨_, Body.enterGroup_eq_ok.mpr ⟨alike.top.pending ▸ notPending, ?_, rfl⟩, ?_,
    .cons alike.top.withoutHeader alike.below, rfl⟩
  · rwa [← alike.below.length_eq]
  · exact ⟨alike.top.groupNode number number', rfl, rfl, rfl, rfl, rfl, rfl⟩

theorem alike_closeDefinition {node node' closed : Node} (alike : node.Alike sieve node')
    {rest : Text} {comment : Option Text} {number : Nat} (number' : Nat)
    (done : closeDefinition node rest comment number = .ok closed) :
    ∃ closed', closeDefinition node' rest comment number' = .ok closed' ∧
      closed.Alike sieve closed' := by
  obtain ⟨balanced, rfl⟩ := closeDefinition_eq_ok.mp done
  exact ⟨_, closeDefinition_eq_ok.mpr ⟨balanced, rfl⟩, alike.withClosing _ _⟩

/-- What one of two alike bodies makes of a line, the other makes of it too. -/
theorem Alike.readCode (alike : first.Alike sieve second) {limit : Int} {comment : Option Text}
    {number : Nat} (number' : Nat) {q : Quoting} {code : Text} {progress : Progress}
    (read : Body.readCode limit comment number q first code = .ok progress) :
    ∃ progress', Body.readCode limit comment number' q second code = .ok progress' ∧
      progress.Alike sieve progress' := by
  induction code generalizing q first second with
  | nil =>
    cases read
    exact ⟨_, rfl, .more (alike.endLine comment number number')⟩
  | cons c rest ih =>
    simp only [Body.readCode] at read ⊢
    rw [← alike.top.brackets, ← alike.top.structured]
    by_cases hidden : (!q.exposes c) = true
    · rw [if_pos hidden] at read ⊢
      exact ih (alike.withTop (alike.top.take c)) read
    rw [if_neg hidden] at read ⊢
    by_cases closes : c = '}' ∧ first.top.brackets = 0
    · rw [if_pos closes] at read ⊢
      have closed := alike.top.close number number'
      obtain ⟨top, below, anchor⟩ := first
      obtain ⟨top', below', anchor'⟩ := second
      obtain ⟨-, around, -⟩ := alike
      cases around with
      | nil =>
        cases done : closeDefinition (top.close number).node rest comment number with
        | error fault =>
          simp only [done] at read
          cases read
        | ok node =>
          simp only [done] at read
          cases read
          obtain ⟨node', done', same⟩ := alike_closeDefinition closed.node number' done
          exact ⟨.closed node', congrArg (Except.map Progress.closed) done', .closed same⟩
      | @cons outer outer' below below' outers around =>
        have left : Alike sieve
            { top := outer.adopt (top.close number).node, below, anchor := .member }
            { top := outer'.adopt (top'.close number').node, below := below', anchor := .member } :=
          ⟨outers.adopt closed.node, around, rfl⟩
        exact ih left read
    rw [if_neg closes] at read ⊢
    by_cases opens : c = '{' ∧ first.top.brackets = 0 ∧ first.top.structured = true ∧
        Text.groupEnd? rest = none
    · rw [if_pos opens] at read ⊢
      split at read
      · cases read
      · rename_i next entered
        obtain ⟨next', entered', same⟩ := alike.enterGroup number' entered
        rw [entered']
        exact ih same read
    rw [if_neg opens] at read ⊢
    by_cases ends : c = ',' ∧ first.top.brackets = 0 ∧ first.top.structured = true
    · rw [if_pos ends] at read ⊢
      exact ih (alike.endMember number number') read
    · rw [if_neg ends] at read ⊢
      exact ih (alike.withTop (alike.top.takeCode c)) read

theorem Alike.readLine (alike : first.Alike sieve second) {limit : Int} {line : CodeLine}
    {number : Nat} (number' : Nat) {progress : Progress}
    (read : first.readLine limit line number = .ok progress) :
    ∃ progress', second.readLine limit line number' = .ok progress' ∧
      progress.Alike sieve progress' :=
  alike.startLine.readCode number' read

/-- Comment lines of the same cores leave the same trace. -/
theorem Alike.readComment (alike : first.Alike sieve second) {line line' : Text} {blockLine : Bool}
    {number number' : Nat}
    (same : ∀ level : Int, Node.coreAll sieve [Node.ofComment line blockLine level number] =
      Node.coreAll sieve [Node.ofComment line' blockLine level number']) :
    (first.readComment line blockLine number).Alike sieve
      (second.readComment line' blockLine number') := by
  unfold Body.readComment
  simp only [alike.top.structured, alike.top.text, alike.top.level, alike.top.brackets]
  split
  · refine alike.withTop { alike.top with text := rfl, brackets := rfl, waiting := ?_ }
    rw [Node.coreAll_append, Node.coreAll_append, alike.top.waiting, same]
  · exact alike.withTop (alike.top.append (same _))

/-- A comment line that is passed over leaves no trace. -/
theorem Alike.skipComment (alike : first.Alike sieve second) {line : Text}
    (dropped : sieve.drops line = true) (blockLine : Bool) (number : Nat) :
    (first.readComment line blockLine number).Alike sieve second := by
  have faint : ∀ level : Int,
      Node.coreAll sieve [Node.ofComment line blockLine level number] = [] :=
    fun level => Node.coreAll_faint (Node.isFaint_ofComment dropped blockLine level number)
  unfold Body.readComment
  simp only
  split
  · refine ⟨{ alike.top with waiting := ?_ }, alike.below, alike.anchor⟩
    rw [Node.coreAll_append, faint, List.append_nil, alike.top.waiting]
  · refine ⟨{ alike.top with node := ⟨alike.top.node.frame, ?_⟩ }, alike.below, alike.anchor⟩
    rw [OpenGroup.append, Node.coreAll_append, faint, List.append_nil, alike.top.node.children]

theorem start_alike {node node' : Node} (alike : node.Alike sieve node') {limit : Int} {code : Text}
    {progress : Progress} (started : start node limit code = .ok progress) :
    ∃ progress', start node' limit code = .ok progress' ∧ progress.Alike sieve progress' := by
  unfold start at started ⊢
  split at started
  · cases started
  rename_i deep
  rw [if_neg deep]
  split at started
  · rename_i blank
    cases started
    rw [if_pos blank]
    exact ⟨_, rfl, .more ⟨⟨alike, rfl, rfl, rfl, rfl, rfl, rfl⟩, .nil, rfl⟩⟩
  · rename_i seen
    have begun : Alike sieve
        { top := { node := { node with openingComment := none } }, anchor := .opening }
        { top := { node := { node' with openingComment := none } }, anchor := .opening } :=
      ⟨⟨alike.withOpening none, rfl, rfl, rfl, rfl, rfl, rfl⟩, .nil, rfl⟩
    rw [if_neg seen, ← alike.openingComment]
    exact begun.readCode node'.line started

end Body

end AsnLayout
