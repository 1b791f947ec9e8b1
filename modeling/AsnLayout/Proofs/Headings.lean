import AsnLayout.Proofs.BodyRows

/-!
# Texts of a body

The header of a group decides its kind when the group is opened, and neither changes while the group
is read.  The header of an inner group is cut at no comma, nor is a member: a comma outside of
brackets would have ended a member before it.  The lines of a group that keeps them stand at the
levels that the brackets open before them ask for.
-/

set_option autoImplicit false

namespace AsnLayout

/-! ## Texts that no comma cuts -/

namespace Text

/-- How many brackets are open behind signs, `depth` of which are open before them. -/
def openAfter (depth : Nat) : Text → Nat
  | [] => depth
  | c :: rest =>
    openAfter (if isOpener c then depth + 1 else if isCloser c then depth - 1 else depth) rest

theorem openAfter_append (depth : Nat) (front back : Text) :
    openAfter depth (front ++ back) = openAfter (openAfter depth front) back := by
  induction front generalizing depth with
  | nil => rfl
  | cons c rest ih => exact ih _

theorem openAfter_sign (depth : Nat) (c : Char) :
    openAfter depth (if isDivider c then [c] else []) =
      if isOpener c then depth + 1 else if isCloser c then depth - 1 else depth := by
  split
  · rfl
  · rename_i other
    simp only [isDivider, isBracket, Bool.or_eq_true, not_or, Bool.not_eq_true] at other
    simp [openAfter, other.1.1, other.1.2]

theorem commasInside_append (depth : Nat) (front back : Text) :
    commasInside depth (front ++ back) =
      (commasInside depth front && commasInside (openAfter depth front) back) := by
  induction front generalizing depth with
  | nil => rfl
  | cons c rest ih =>
    rw [List.cons_append, commasInside_cons, commasInside_cons, ih, openAfter, Bool.and_assoc]

theorem commasInside_snoc {depth : Nat} {t : Text} {c : Char}
    (inside : commasInside depth t = true) (noCut : ¬(c = ',' ∧ openAfter depth t = 0)) :
    commasInside depth (t ++ [c]) = true := by
  rw [commasInside_append, inside, commasInside_cons]
  simp [noCut, commasInside]

section Signs

variable {test : Char → Bool} {t : Text} {c : Char}

theorem signs_snoc_hidden (covered : (Quoting.after {} t).exposes c = false) :
    signs test (t ++ [c]) = signs test t := by
  rw [signs, Quoting.signs_append, Quoting.signs_cons, covered]
  exact List.append_nil _

theorem signs_snoc (shown : (Quoting.after {} t).exposes c = true) :
    signs test (t ++ [c]) = signs test t ++ if test c then [c] else [] := by
  rw [signs, Quoting.signs_append, Quoting.signs_cons, shown]
  exact congrArg (_ ++ ·) (List.append_nil _)

end Signs

/-- A text that is cut at no comma, and how many of its brackets are open behind it. -/
structure Uncut (t : Text) (brackets : Nat) : Prop where
  inside : isUncut t = true
  count : openAfter 0 (signs isDivider t) = brackets

namespace Uncut

variable {t : Text} {brackets : Nat}

theorem nil : Uncut [] 0 := ⟨rfl, rfl⟩

theorem of_signs {t' : Text} (uncut : Uncut t brackets)
    (same : signs isDivider t' = signs isDivider t) : Uncut t' brackets := by
  obtain ⟨inside, count⟩ := uncut
  rw [isUncut, ← same] at inside
  rw [← same] at count
  exact ⟨inside, count⟩

theorem hidden {c : Char} (uncut : Uncut t brackets)
    (covered : (Quoting.after {} t).exposes c = false) : Uncut (t ++ [c]) brackets :=
  uncut.of_signs (signs_snoc_hidden covered)

theorem space (uncut : Uncut t brackets) (closed : (Quoting.after {} t).inside = false) :
    Uncut (t ++ [' ']) brackets :=
  uncut.of_signs ((signs_blank tellsApart_isDivider closed (by decide)).trans (List.append_nil _))

theorem code {c : Char} (uncut : Uncut t brackets)
    (shown : (Quoting.after {} t).exposes c = true) (noCut : ¬(c = ',' ∧ brackets = 0)) :
    Uncut (t ++ [c])
      (if isOpener c then brackets + 1 else if isCloser c then brackets - 1 else brackets) := by
  obtain ⟨inside, count⟩ := uncut
  have grown : signs isDivider (t ++ [c]) = signs isDivider t ++ if isDivider c then [c] else [] :=
    signs_snoc shown
  rw [← count] at noCut ⊢
  rw [isUncut] at inside
  refine ⟨?_, ?_⟩
  · rw [isUncut, grown]
    split
    · exact commasInside_snoc inside noCut
    · rwa [List.append_nil]
  · rw [grown, openAfter_append, openAfter_sign]

end Uncut

theorem openAfter_bracket (depth : Nat) (c : Char) :
    openAfter depth (if isBracket c then [c] else []) =
      if isOpener c then depth + 1 else if isCloser c then depth - 1 else depth := by
  split
  · rfl
  · rename_i other
    simp only [isBracket, Bool.or_eq_true, not_or, Bool.not_eq_true] at other
    simp [openAfter, other.1, other.2]

/-! ## Members -/

theorem isUncut_memberForm {t : Text} (uncut : isUncut t = true) :
    isUncut (memberForm t) = true := by
  obtain ⟨dropped, whole⟩ : ∃ dropped, neat t = memberForm t ++ dropped :=
    ⟨_, (List.rdropWhile_append_rtakeWhile ..).symm⟩
  have signed : signs isDivider t =
      signs isDivider (memberForm t) ++
        (Quoting.after {} (memberForm t)).signs isDivider dropped := by
    rw [← signs_neat tellsApart_isDivider, whole]
    exact Quoting.signs_append ..
  rw [isUncut, signed, commasInside_append, Bool.and_eq_true] at uncut
  exact uncut.1

/-- A text that stands for one member: its own form, with every comma inside of brackets. -/
structure IsMemberText (t : Text) : Prop where
  filled : t ≠ []
  form : memberForm t = t
  uncut : isUncut t = true

end Text

/-! ## Nodes -/

namespace Node

def lineCode (node : Node) : Text :=
  if node.kind = .comment then [] else (Text.codeLine (Text.trim node.content)).code

def openBehind (lines : List Node) : Nat :=
  Text.openAfter 0 (lines.flatMap fun line => Text.brackets line.lineCode)

/-- The children of a node are lines at the levels that the brackets open before them ask for. -/
def Stepped (node : Node) : Prop :=
  ∀ front child back, node.children = front ++ child :: back →
    child.level = node.level + 1 + (openBehind front - Text.closersAtStart child.lineCode : Nat)

theorem openBehind_concat (lines : List Node) (line : Node) : openBehind (lines ++ [line]) =
    Text.openAfter (openBehind lines) (Text.brackets line.lineCode) := by
  simp [openBehind, Text.openAfter_append]

theorem lineCode_of_comment {node : Node} (comment : node.kind = .comment) : node.lineCode = [] :=
  if_pos comment

theorem openBehind_comments {lines : List Node} (comments : ∀ line ∈ lines, line.kind = .comment) :
    openBehind lines = 0 := by
  have none : (lines.flatMap fun line => Text.brackets line.lineCode) = [] := by
    refine List.flatMap_eq_nil_iff.mpr fun line member => ?_
    rw [lineCode_of_comment (comments line member)]
    rfl
  rw [openBehind, none]
  rfl

theorem stepped_of_comments {node : Node}
    (comments : ∀ child ∈ node.children, child.kind = .comment ∧ child.level = node.level + 1) :
    node.Stepped := by
  intro front child back whole
  have all : ∀ line ∈ front ++ child :: back, line.kind = .comment ∧
      line.level = node.level + 1 := by
    rw [← whole]
    exact comments
  obtain ⟨kind, level⟩ := all child (by simp)
  rw [level, openBehind_comments fun line member => (all line (List.mem_append_left _ member)).1]
  simp

theorem Stepped.concat {node child : Node} (stepped : node.Stepped)
    (level : child.level =
      node.level + 1 + (openBehind node.children - Text.closersAtStart child.lineCode : Nat)) :
    Stepped { node with children := node.children ++ [child] } := by
  intro front line back whole
  rcases List.eq_nil_or_concat back with rfl | ⟨early, last, rfl⟩
  · obtain ⟨rfl, same⟩ := List.append_inj' whole rfl
    obtain rfl := List.singleton_inj.mp same
    exact level
  · have whole : node.children ++ [child] = (front ++ line :: early) ++ [last] := by simpa using whole
    exact stepped front line early (List.append_inj' whole rfl).1

/-- The texts of a node are spelled as members and headers are, and its group, if it takes several
lines, is of the kind that its header says. -/
structure Phrased (node : Node) : Prop where
  kind : node.spansLines = true → node.groupKind = some (GroupKind.ofHeader (node.header.getD []))
  uncut : node.spansLines = true → Text.isUncut (node.header.getD []) = true
  neat : node.spansLines = true → Text.neat (node.header.getD []) = node.header.getD []
  member : node.isField = true → node.spansLines = false → node.content.IsMemberText
  trailer : node.isField = true →
    Text.memberForm node.trailer = node.trailer ∧ Text.isUncut node.trailer = true

inductive Titled : Node → Prop where
  | intro {node : Node} (phrased : node.Phrased)
      (lines : node.oneLine = some false → node.isStructured = false → node.Stepped)
      (children : ∀ child ∈ node.children, Titled child) : Titled node

theorem Titled.children {node : Node} (titled : node.Titled) :
    ∀ child ∈ node.children, child.Titled := by
  cases titled with
  | intro phrased lines children => exact children

theorem Titled.phrased {node : Node} (titled : node.Titled) : node.Phrased := by
  cases titled with
  | intro phrased lines children => exact phrased

theorem Titled.lines {node : Node} (titled : node.Titled) (several : node.oneLine = some false)
    (unstructured : node.isStructured = false) : node.Stepped := by
  cases titled with
  | intro phrased lines children => exact lines several unstructured

theorem Titled.of_unstructured {node : Node} (titled : node.Titled)
    (spans : node.spansLines = true) (unstructured : node.isStructured = false) :
    (GroupKind.ofHeader (node.header.getD [])).isStructured = false ∧
      Text.isUncut (node.header.getD []) = true := by
  have phrased := titled.phrased
  rw [Node.isStructured, phrased.kind spans] at unstructured
  exact ⟨unstructured, phrased.uncut spans⟩

theorem titled_of_kind {node : Node} (other : node.kind ≠ .field) (bare : node.children = []) :
    node.Titled := by
  have noField : node.isField = false := by simp [Node.isField, other]
  have single : node.spansLines = false := by simp [Node.spansLines, noField]
  refine .intro ⟨?_, ?_, ?_, ?_, ?_⟩ (fun _ _ => stepped_of_comments (by simp [bare]))
    (by simp [bare])
  · simp [single]
  · simp [single]
  · simp [single]
  · simp [noField]
  · simp [noField]

theorem titled_ofMember {text : Text} (isMember : text.IsMemberText) (level : Int) (number : Nat) :
    (ofMember text level number).Titled :=
  .intro ⟨nofun, nofun, nofun, fun _ _ => isMember, fun _ => ⟨rfl, rfl⟩⟩ nofun
    (by simp [ofMember])

theorem Titled.withChildren {node : Node} (titled : node.Titled)
    (structured : node.isStructured = true) {children : List Node}
    (all : ∀ child ∈ children, child.Titled) : Titled { node with children } := by
  obtain ⟨kind, uncut, neat, member, trailer⟩ := titled.phrased
  refine .intro ⟨kind, uncut, neat, member, trailer⟩ (fun _ unstructured => ?_) all
  exact absurd (structured.symm.trans unstructured) (by simp)

theorem Titled.addComment {node : Node} (titled : node.Titled) (comment : Text) :
    (node.addComment comment).Titled := by
  cases titled with
  | intro phrased lines children =>
    obtain ⟨kind, uncut, neat, member, trailer⟩ := phrased
    unfold Node.addComment
    split <;> exact .intro ⟨kind, uncut, neat, member, trailer⟩ lines children

theorem titled_ofComment (line : Text) (inBlock : Bool) (level : Int) (number : Nat) :
    (ofComment line inBlock level number).Titled := titled_of_kind (by simp [ofComment]) rfl

theorem titled_modifyLastField {change : Node → Node} {nodes : List Node}
    (keeps : ∀ node : Node, node.Titled → (change node).Titled)
    (titled : ∀ node ∈ nodes, node.Titled) :
    ∀ node ∈ modifyLastField change nodes, node.Titled := by
  induction nodes with
  | nil => exact titled
  | cons node later ih =>
    obtain ⟨here, there⟩ := List.forall_mem_cons.mp titled
    rw [modifyLastField]
    split
    · exact List.forall_mem_cons.mpr ⟨keeps node here, there⟩
    · exact List.forall_mem_cons.mpr ⟨here, ih there⟩

end Node

/-! ## Open groups -/

namespace OpenGroup

/-- An open group of the kind that its header says, with such groups among its children.  Where it
keeps its lines, it counts the brackets that these and the text behind them leave open. -/
structure Titled (group : OpenGroup) : Prop where
  kind : group.node.groupKind = some (GroupKind.ofHeader (group.node.header.getD []))
  node : group.node.Titled
  waiting : ∀ child ∈ group.waiting, child.kind = .comment ∧ child.children = []
  text : group.structured = true → Text.Uncut group.text group.brackets
  kept : group.structured = false →
    Text.openAfter (Node.openBehind group.node.children) (Text.brackets group.text) = group.brackets

def Lined (group : OpenGroup) : Prop :=
  group.structured = false → group.lineBrackets = Node.openBehind group.node.children

variable {group : OpenGroup}

theorem Titled.append (titled : group.Titled) (structured : group.structured = true)
    {nodes : List Node} (all : ∀ child ∈ nodes, child.Titled) : (group.append nodes).Titled := by
  refine ⟨titled.kind, titled.node.withChildren structured ?_, titled.waiting, titled.text,
    fun unstructured => absurd (structured.symm.trans unstructured) (by simp)⟩
  intro child member
  rcases List.mem_append.mp member with before | behind
  · exact titled.node.children child before
  · exact all child behind

theorem Titled.keep (titled : group.Titled) (unstructured : group.structured = false) {line : Node}
    (isTitled : line.Titled) (level : line.level = group.level +
      (Node.openBehind group.node.children - Text.closersAtStart line.lineCode : Nat))
    (count : Text.openAfter (Node.openBehind group.node.children) (Text.brackets line.lineCode) =
      group.brackets) : Titled { group.append [line] with text := [] } := by
  have none : ∀ {P : Prop}, group.structured = true → P := fun structured =>
    absurd (structured.symm.trans unstructured) (by simp)
  obtain ⟨kind, node, waiting, -, -⟩ := titled
  refine ⟨kind, ?_, waiting, none, fun _ => ?_⟩
  · cases node with
    | intro phrased lines children =>
      obtain ⟨kind, uncut, neat, member, trailer⟩ := phrased
      refine .intro ⟨kind, uncut, neat, member, trailer⟩
        (fun several unstructured => (lines several unstructured).concat level) ?_
      intro child member
      rcases List.mem_append.mp member with before | behind
      · exact children child before
      · rwa [List.mem_singleton.mp behind]
  · exact (Node.openBehind_concat group.node.children line).trans count

theorem Titled.keepComment (titled : group.Titled) (unstructured : group.structured = false)
    (clean : group.text = []) (line : Text) (inBlock : Bool) (number : Nat) :
    (group.append [Node.ofComment line inBlock (group.level + group.brackets) number]).Titled := by
  have count := titled.kept unstructured
  rw [clean] at count
  have count : Node.openBehind group.node.children = group.brackets := count
  have code : ∀ level, (Node.ofComment line inBlock level number).lineCode = [] :=
    fun _ => Node.lineCode_of_comment rfl
  have kept := @Titled.keep group titled unstructured
    (Node.ofComment line inBlock (group.level + group.brackets) number) (Node.titled_ofComment ..)
    (by rw [code, count]; rfl) (by rw [code]; exact count)
  rw [← clean] at kept
  exact kept

theorem Titled.commentLast (titled : group.Titled) (structured : group.structured = true)
    (comment : Text) (number : Nat) : (group.commentLast comment number).Titled := by
  unfold OpenGroup.commentLast
  split
  · exact ⟨titled.kind, titled.node.withChildren structured (Node.titled_modifyLastField
      (fun _ titled => titled.addComment comment) titled.node.children), titled.waiting,
      titled.text, fun unstructured => absurd (structured.symm.trans unstructured) (by simp)⟩
  · exact titled.append structured (List.forall_mem_singleton.mpr (Node.titled_ofComment ..))

theorem Titled.withMember (titled : group.Titled) (structured : group.structured = true)
    (number : Nat) : ∀ child ∈ group.withMember number, child.Titled := by
  have uncut := Text.isUncut_memberForm (titled.text structured).inside
  unfold OpenGroup.withMember
  simp only
  split
  · refine Node.titled_modifyLastField ?_ titled.node.children
    rintro node ⟨⟨kind, header, neat, member, -⟩, lines, children⟩
    exact .intro ⟨kind, header, neat, member, fun _ => ⟨Text.memberForm_memberForm _, uncut⟩⟩ lines
      children
  · split
    · exact titled.node.children
    · rename_i filled
      intro child member
      rcases List.mem_append.mp member with before | behind
      · exact titled.node.children child before
      · rw [List.mem_singleton.mp behind]
        exact Node.titled_ofMember ⟨filled, Text.memberForm_memberForm _, uncut⟩ ..

theorem titled_withRemark (group : OpenGroup) {nodes : List Node} (number : Nat)
    (all : ∀ child ∈ nodes, child.Titled) :
    ∀ child ∈ group.withRemark number nodes, child.Titled := by
  unfold OpenGroup.withRemark
  split
  · exact all
  · split
    · exact Node.titled_modifyLastField (fun _ titled => titled.addComment _) all
    · intro child member
      rcases List.mem_append.mp member with before | behind
      · exact all child before
      · rw [List.mem_singleton.mp behind]
        exact Node.titled_ofComment ..

theorem Titled.endMember (titled : group.Titled) (structured : group.structured = true)
    (settled : group.brackets = 0) (number : Nat) : (group.endMember number).Titled := by
  rw [endMember_eq]
  refine ⟨titled.kind, titled.node.withChildren structured ?_, by simp, fun _ => ?_,
    fun unstructured => absurd (structured.symm.trans unstructured) (by simp)⟩
  · intro child member
    rcases List.mem_append.mp member with before | behind
    · exact titled_withRemark group number (titled.withMember structured number) child before
    · obtain ⟨kind, bare⟩ := titled.waiting child behind
      exact Node.titled_of_kind (by simp [kind]) bare
  · rw [settled]
    exact .nil

/-- The text of a line that is kept, which counts from the brackets open where the line began. -/
theorem Titled.keepLine (titled : group.Titled) (lined : group.Lined)
    (unstructured : group.structured = false) {held : Text} (hides : Text.Hides group.text held)
    {comment : Option Text} (noted : IsNoted comment) (number : Nat) :
    (group.keepLine comment number).Titled := by
  have count := titled.kept unstructured
  have signed := Text.brackets_neat group.text
  rw [keepLine_eq]
  split
  · rename_i empty
    rw [empty] at signed
    rw [← signed] at count
    obtain ⟨kind, node, waiting, -, -⟩ := titled
    refine ⟨kind, ?_, waiting, fun structured => Bool.noConfusion (unstructured.symm.trans structured),
      fun _ => ?_⟩
    · cases node with
      | intro phrased lines children =>
        obtain ⟨kind, uncut, neat, member, trailer⟩ := phrased
        refine .intro ⟨kind, uncut, neat, member, trailer⟩
          (fun several unstructured => ?_) (by simpa [OpenGroup.append] using children)
        have stepped := lines several unstructured
        simpa [Node.Stepped, OpenGroup.append] using stepped
    · simpa [OpenGroup.append] using count
  · have code : (group.lineNode (Text.neat group.text) comment number).lineCode =
        Text.neat group.text := by
      rw [Node.lineCode, if_neg (by simp [lineNode])]
      change (Text.codeLine (Text.trim (beside (Text.neat group.text) comment))).code = _
      rw [Layout.trim_beside, Text.code_remarked hides.neat noted]
      exact Text.trim_trim _
    refine titled.keep unstructured (Node.titled_of_kind (by simp [lineNode]) rfl) ?_ ?_
    · rw [code, ← lined unstructured]
      rfl
    · rw [code, signed]
      exact count

theorem Titled.close (titled : group.Titled) (lined : group.Lined) (settled : group.brackets = 0)
    {held : Text} (hides : Text.Hides group.text held) (number : Nat) :
    (group.close number).Titled := by
  unfold OpenGroup.close
  split
  · rename_i structured
    exact titled.endMember structured settled number
  · rename_i unstructured
    exact titled.keepLine lined (by simpa using unstructured) hides isNoted_none number

/-- The text before the brace of an inner group becomes its header. -/
theorem Titled.groupNode (titled : group.Titled) (structured : group.structured = true)
    (number : Nat) : Titled { node := group.groupNode number } ∧
      Lined { node := group.groupNode number } := by
  have comments : ∀ child ∈ (group.groupNode number).children, child.kind = .comment ∧
      child.children = [] ∧ child.level = group.level + 1 := by
    intro child member
    obtain ⟨waiting, inWaiting, rfl⟩ := List.mem_map.mp member
    obtain ⟨kind, bare⟩ := titled.waiting waiting inWaiting
    exact ⟨kind, bare, rfl⟩
  have none := Node.openBehind_comments fun child member => (comments child member).1
  have uncut := (titled.text structured).inside
  rw [Text.isUncut, ← Text.signs_neat Text.tellsApart_isDivider] at uncut
  refine ⟨⟨rfl, .intro ⟨fun _ => rfl, fun _ => uncut, fun _ => Text.neat_neat _, nofun,
    fun _ => ⟨rfl, rfl⟩⟩ (fun _ _ => Node.stepped_of_comments fun child member =>
      ⟨(comments child member).1, (comments child member).2.2⟩) fun child member =>
      Node.titled_of_kind (by simp [(comments child member).1]) (comments child member).2.1, by simp,
    fun _ => .nil, fun _ => none⟩, fun _ => none.symm⟩

theorem header_close (group : OpenGroup) (number : Nat) :
    (group.close number).node.header = group.node.header := by
  unfold OpenGroup.close
  split
  · rw [endMember_eq]
  · rw [keepLine_eq]
    rfl

end OpenGroup

/-! ## Bodies -/

namespace Body

def headers (body : Body) : List (Option Text) :=
  (body.top :: body.below).map (·.node.header)

structure Titled (definition : Node) (body : Body) : Prop where
  top : body.top.Titled
  below : ∀ group ∈ body.below, group.Titled ∧ group.structured = true
  outermost : [definition.header] <:+ body.headers
  anchor : body.top.structured = false → body.anchor ≠ .member

inductive Progress.Titled (definition : Node) : Progress → Prop where
  | more {body : Body} (titled : body.Titled definition) : Titled definition (.more body)
  | closed {node : Node} (same : node.header = definition.header)
      (kind : node.groupKind = some (GroupKind.ofHeader (node.header.getD [])))
      (children : ∀ child ∈ node.children, child.Titled)
      (lines : node.oneLine = some false → node.isStructured = false → node.Stepped)
      (balanced : Text.braceBalance node.trailer = 0)
      (neat : Text.neat node.trailer = node.trailer) : Titled definition (.closed node)

variable {limit : Int} {number : Nat} {q : Quoting} {body next : Body} {definition : Node}

theorem Titled.withTop (titled : body.Titled definition) (below : next.below = body.below)
    (header : next.top.node.header = body.top.node.header) (same : next.top.Titled)
    (anchor : next.top.structured = false → next.anchor ≠ .member) : next.Titled definition := by
  obtain ⟨-, outside, outermost, -⟩ := titled
  rw [headers, List.map_cons, ← header, ← below] at outermost
  rw [← below] at outside
  exact ⟨same, outside, outermost, anchor⟩

theorem Titled.step {c : Char} {rest : Text} (titled : body.Titled definition)
    (lined : body.top.Lined) (taken : Step limit number q body c rest next)
    (scan : Quoting.after {} body.top.text = q) {held : Text}
    (bears : body.Bears false (c :: rest) held) : next.Titled definition ∧ next.top.Lined := by
  subst scan
  have whole := titled.top
  obtain ⟨kind, node, waiting, text, kept⟩ := titled.top
  cases taken with
  | hidden covered =>
    refine ⟨titled.withTop rfl rfl ⟨kind, node, waiting, fun structured => ?_,
      fun unstructured => ?_⟩ titled.anchor, lined⟩
    · exact (text structured).hidden covered
    · exact (congrArg _ (Text.signs_snoc_hidden covered)).trans (kept unstructured)
  | @leave top outer below anchor _ code settled =>
    obtain ⟨⟨here, structured⟩, there⟩ := List.forall_mem_cons.mp titled.below
    obtain ⟨around, top, hides⟩ := bears
    obtain ⟨third, fourth, rfl, member, behind⟩ := hides.cut code (by decide)
    have closed := whole.close lined settled member number
    have none : ∀ {P : Prop}, outer.structured = false → P := fun unstructured =>
      absurd (structured.symm.trans unstructured) (by simp)
    obtain ⟨kind, node, waiting, text, kept⟩ :=
      here.append structured (List.forall_mem_singleton.mpr closed.node)
    refine ⟨⟨⟨kind, node, waiting, text, kept⟩, there, ?_, none⟩, none⟩
    rcases List.suffix_cons_iff.mp titled.outermost with alone | outermost
    · simp at alone
    · exact outermost
  | enter code settled structured leftOpen entered =>
    obtain ⟨-, -, rfl⟩ := Body.enterGroup_eq_ok.mp entered
    have outside : body.top.withoutHeader.Titled := by
      refine ⟨kind, node, by simp [OpenGroup.withoutHeader], fun _ => ?_,
        fun unstructured => absurd (structured.symm.trans unstructured) (by simp)⟩
      rw [show body.top.withoutHeader.brackets = body.top.brackets from rfl, settled]
      exact .nil
    obtain ⟨inner, begun⟩ := whole.groupNode structured number
    exact ⟨⟨inner, List.forall_mem_cons.mpr ⟨⟨outside, structured⟩, titled.below⟩,
      titled.outermost.trans (List.suffix_cons ..), by simp⟩, begun⟩
  | comma code settled structured =>
    have ended := body.top.endMember_eq number
    have same : (body.endMember number).top.structured = true := by
      rw [Body.endMember, ended]
      exact structured
    have none : ∀ {P : Prop}, (body.endMember number).top.structured = false → P :=
      fun unstructured => absurd (same.symm.trans unstructured) (by simp)
    exact ⟨titled.withTop rfl (congrArg (·.node.header) ended)
      (whole.endMember structured settled number) none, none⟩
  | keep code noClose noGroup noComma =>
    refine ⟨titled.withTop rfl rfl ⟨kind, node, waiting, fun structured => ?_,
      fun unstructured => ?_⟩ titled.anchor, lined⟩
    · exact (text structured).code code fun comma => noComma ⟨comma.1, comma.2, structured⟩
    · change Text.openAfter (Node.openBehind body.top.node.children)
        (Text.signs isBracket (body.top.text ++ [c])) = _
      rw [Text.signs_snoc code, Text.openAfter_append, Text.openAfter_bracket]
      have count := kept unstructured
      rw [Text.brackets, Quoting.brackets, ← Text.signs] at count
      rw [count]
      rfl

theorem Titled.anchorComment (titled : body.Titled definition)
    (clean : body.top.structured = false → body.top.text = []) (comment : Text) (number : Nat) :
    (body.anchorComment comment number).Titled definition := by
  have whole := titled.top
  obtain ⟨kind, node, waiting, text, kept⟩ := titled.top
  have anchored := titled.anchor
  unfold Body.anchorComment
  simp only
  split
  · refine titled.withTop rfl rfl ?_ anchored
    cases structured : body.top.structured with
    | true => exact whole.append structured (List.forall_mem_singleton.mpr (Node.titled_ofComment ..))
    | false => exact whole.keepComment structured (clean structured) ..
  · refine titled.withTop rfl rfl ⟨kind, ?_, waiting, text, kept⟩ anchored
    cases node with
    | intro phrased lines children =>
      obtain ⟨kind, uncut, neat, member, trailer⟩ := phrased
      exact .intro ⟨kind, uncut, neat, member, trailer⟩ lines children
  · rename_i found
    have structured : body.top.structured = true := by
      by_contra unstructured
      exact anchored (by simpa using unstructured) found
    refine titled.withTop rfl ?_ (whole.commentLast structured ..) fun unstructured => ?_
    · unfold OpenGroup.commentLast
      split <;> rfl
    · have same : (body.top.commentLast comment number).structured = body.top.structured := by
        unfold OpenGroup.commentLast
        split <;> rfl
      exact absurd (structured.symm.trans (same.symm.trans unstructured)) (by simp)

theorem Titled.endLine (titled : body.Titled definition) (lined : body.top.Lined)
    {held : Text} (hides : Text.Hides body.top.text held) {comment : Option Text}
    (noted : IsNoted comment) (number : Nat) : (body.endLine comment number).Titled definition := by
  have whole := titled.top
  have anchored := titled.anchor
  obtain ⟨kind, node, waiting, text, kept⟩ := titled.top
  unfold Body.endLine
  simp only
  cases structured : body.top.structured with
  | true =>
    simp only [Bool.not_true, Bool.false_and, Bool.false_eq_true, if_false, if_true]
    cases comment with
    | none => exact titled
    | some comment =>
      simp only
      split
      · exact titled.anchorComment (fun unstructured =>
          absurd (structured.symm.trans unstructured) (by simp)) ..
      · exact titled.withTop rfl rfl ⟨kind, node, waiting, text, kept⟩ anchored
  | false =>
    simp only [Bool.not_false, Bool.true_and, Bool.false_eq_true, if_false]
    split
    · have same : (body.top.keepLine comment number).structured = body.top.structured := by
        rw [OpenGroup.keepLine_eq]
        rfl
      refine titled.withTop rfl ?_ (whole.keepLine lined structured hides noted number) fun _ =>
        anchored structured
      rw [OpenGroup.keepLine_eq]
      rfl
    · rename_i empty
      have cleared : Titled definition { body with top := { body.top with text := [] } } := by
        refine titled.withTop rfl rfl ⟨kind, node, waiting, fun isStructured => ?_, fun _ => ?_⟩
          anchored
        · exact Bool.noConfusion (structured.symm.trans isStructured)
        · have signed := Text.brackets_neat body.top.text
          rw [show Text.neat body.top.text = [] by simpa using empty] at signed
          have count := kept structured
          rw [← signed] at count
          exact count
      cases comment with
      | none => exact cleared
      | some comment =>
        simp only
        split
        · exact cleared.anchorComment (fun _ => rfl) ..
        · obtain ⟨kind, node, waiting, text, kept⟩ := cleared.top
          exact cleared.withTop rfl rfl ⟨kind, node, waiting, text, kept⟩ anchored

theorem Titled.startLine (titled : body.Titled definition) (clean : body.Clean)
    (closed : (Quoting.after {} body.top.text).inside = false) :
    body.startLine.Titled definition ∧ body.startLine.top.Lined := by
  obtain ⟨kind, node, waiting, text, kept⟩ := titled.top
  refine ⟨titled.withTop rfl rfl ⟨kind, node, waiting, fun structured => ?_,
    fun unstructured => ?_⟩ (by simp [Body.startLine]), fun unstructured => ?_⟩
  · unfold Body.startLine
    simp only
    split
    · exact (text structured).space closed
    · exact text structured
  · have unstructured : body.top.structured = false := unstructured
    simpa [Body.startLine, unstructured] using kept unstructured
  · have count := kept unstructured
    rw [clean unstructured] at count
    exact count.symm

theorem Titled.readComment (titled : body.Titled definition) (clean : body.Clean) (line : Text)
    (inBlock : Bool) (number : Nat) : (body.readComment line inBlock number).Titled definition := by
  have anchored := titled.anchor
  unfold Body.readComment
  simp only
  split
  · obtain ⟨kind, node, waiting, text, kept⟩ := titled.top
    refine titled.withTop rfl rfl ⟨kind, node, ?_, text, kept⟩ anchored
    intro child member
    rcases List.mem_append.mp member with before | behind
    · exact waiting child before
    · rw [List.mem_singleton.mp behind]
      exact ⟨rfl, rfl⟩
  · refine titled.withTop rfl rfl ?_ anchored
    cases structured : body.top.structured with
    | true =>
      exact titled.top.append structured (List.forall_mem_singleton.mpr (Node.titled_ofComment ..))
    | false => exact titled.top.keepComment structured (clean structured) ..

theorem titled_lineRun {comment : Option Text} {code held : Text} {progress : Progress}
    (run : LineRun limit comment number q body code progress) (titled : body.Titled definition)
    (lined : body.top.Lined) (scan : Quoting.after {} body.top.text = q)
    (bears : body.Bears false code held) (sound : body.Sound blind definition)
    (noted : IsNoted comment) : progress.Titled definition := by
  -- That the scan of the line stands where the scan of the text does is seen from what it bears.
  induction run with
  | finish =>
    obtain ⟨around, top, hides⟩ := bears
    rw [List.append_nil] at hides
    exact .more (titled.endLine lined hides noted number)
  | @close q top anchor rest node code settled closed =>
    subst scan
    obtain ⟨around, bearing, hides⟩ := bears
    obtain ⟨third, fourth, rfl, member, behind⟩ := hides.cut code (by decide)
    have whole := titled.top.close lined settled member number
    have header : [definition.header] = [top.node.header] := List.sublist_singleton.mp
      titled.outermost.sublist |>.resolve_left (by simp)
    obtain ⟨balanced, rfl⟩ := Body.closeDefinition_eq_ok.mp closed
    refine .closed ?_ whole.kind whole.node.children whole.node.lines ?_
      (Text.neat_neat _)
    · exact (top.header_close number).trans (List.singleton_inj.mp header).symm
    · rw [Text.braceBalance_eq, Text.brackets_neat, ← Text.braceBalance_eq]
      exact balanced
  | step taken later ih =>
    obtain ⟨bears', scan'⟩ := bears.step taken scan sound
    obtain ⟨titled', lined'⟩ := titled.step lined taken scan bears
    exact ih titled' lined' scan' bears' (Tally.body_step taken sound).2

theorem titled_readLine {line : CodeLine} {progress : Progress} {held held' : Text}
    (read : body.readLine limit line number = .ok progress) (titled : body.Titled definition)
    (bears : body.Bears false [] held) (clean : body.Clean)
    (hides : Text.Hides line.code held') (noted : IsNoted line.comment)
    (sound : body.Sound blind definition) : progress.Titled definition := by
  have closed : (Quoting.after {} body.top.text).inside = false := by
    obtain ⟨-, -, text⟩ := bears
    rw [List.append_nil] at text
    exact text.tame.closed
  obtain ⟨started, scan⟩ := bears.startLine clean hides
  obtain ⟨titled', lined⟩ := titled.startLine clean closed
  exact titled_lineRun (lineRun_of_readCode _ _ _ _ _ _ _ read) titled' lined scan started
    (Tally.body_startLine body sound).2 noted

end Body

end AsnLayout
