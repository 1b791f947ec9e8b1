import AsnLayout.Proofs.Conservation
import AsnLayout.Proofs.Nesting

/-!
# The order that formatting keeps

Where a schema has neither string literals nor comments and its brackets are well nested, formatting
keeps its characters in their order, braces included.  While a body is read, the brackets that the
text is waiting for are those open in the innermost member and one brace for each open group, so
each member that is cut out is well nested by itself.
-/

set_option autoImplicit false

namespace AsnLayout

/-! ## Members that have been read -/

namespace Node

theorem membersIn_of_same {good : Text → Prop} {node other : Node} (sound : node.MembersIn good)
    (spans : other.spansLines = node.spansLines) (field : other.isField = node.isField)
    (structured : other.isStructured = node.isStructured) (content : other.content = node.content)
    (children : other.children = node.children) : other.MembersIn good := by
  cases several : node.spansLines with
  | true =>
    rw [membersIn_of_spansLines good _ (spans.trans several), structured, children]
    exact (membersIn_of_spansLines good node several).mp sound
  | false =>
    rw [membersIn_of_single good _ (spans.trans several), field, content]
    exact (membersIn_of_single good node several).mp sound

theorem membersIn_addComment {good : Text → Prop} (node : Node) (comment : Text)
    (sound : node.MembersIn good) : (node.addComment comment).MembersIn good := by
  unfold addComment
  split <;> exact membersIn_of_same sound rfl rfl rfl rfl rfl

theorem membersIn_of_not_isField {good : Text → Prop} (node : Node)
    (noField : node.isField = false) : node.MembersIn good := by
  have single : node.spansLines = false := by simp [spansLines, noField]
  rw [membersIn_of_single good node single]
  simp [noField]

theorem allMembersIn_append {good : Text → Prop} (front back : List Node) :
    AllMembersIn good (front ++ back) ↔ AllMembersIn good front ∧ AllMembersIn good back := by
  simp only [allMembersIn_iff, List.mem_append]
  constructor
  · intro all
    exact ⟨fun node member => all node (.inl member), fun node member => all node (.inr member)⟩
  · rintro ⟨left, right⟩ node (member | member)
    · exact left node member
    · exact right node member

theorem allMembersIn_modifyLastField {good : Text → Prop} (change : Node → Node)
    (kept : ∀ node : Node, node.MembersIn good → (change node).MembersIn good)
    (nodes : List Node) (sound : AllMembersIn good nodes) :
    AllMembersIn good (modifyLastField change nodes) := by
  induction nodes with
  | nil => exact sound
  | cons node later ih =>
    obtain ⟨here, rest⟩ := sound
    unfold modifyLastField
    split
    · exact ⟨kept node here, rest⟩
    · exact ⟨here, ih rest⟩

end Node

namespace OpenGroup

/-- What holds of an open group whose text has been read without comments. -/
structure Regular (group : OpenGroup) : Prop where
  quiet : group.waiting = []
  unquoted : '"' ∉ group.text
  members : group.structured = true → Node.AllMembersIn Text.Regular group.node.children

theorem Regular.withMember {group : OpenGroup} (regular : group.Regular) (number : Nat)
    (structured : group.structured = true) (nested : Text.WellNested group.text) :
    Node.AllMembersIn Text.Regular (group.withMember number) := by
  have members := regular.members structured
  unfold OpenGroup.withMember
  simp only
  split
  · apply Node.allMembersIn_modifyLastField _ _ _ members
    intro node sound
    exact Node.membersIn_of_same sound rfl rfl rfl rfl rfl
  split
  · exact members
  · rw [Node.allMembersIn_append]
    refine ⟨members, ?_, trivial⟩
    rw [Node.membersIn_of_single _ _ rfl]
    intro _
    constructor
    · exact unquoted_of_text (solidTally.text_memberForm group.text) regular.unquoted
    · exact (nest_eq_of_text (nesting.text_memberForm group.text) []).trans nested

theorem Regular.endMember {group : OpenGroup} (regular : group.Regular) (number : Nat)
    (structured : group.structured = true) (nested : Text.WellNested group.text) :
    (group.endMember number).Regular := by
  have member := regular.withMember number structured nested
  rw [endMember_eq]
  refine ⟨rfl, by simp, ?_⟩
  intro _
  simp only [regular.quiet, List.append_nil]
  unfold OpenGroup.withRemark
  split
  · exact member
  · split
    · apply Node.allMembersIn_modifyLastField _ _ _ member
      intro node sound
      exact Node.membersIn_addComment node _ sound
    · rw [Node.allMembersIn_append]
      exact ⟨member, Node.membersIn_of_not_isField _ rfl, trivial⟩

theorem Regular.keepLine {group : OpenGroup} (regular : group.Regular) (comment : Option Text)
    (number : Nat) (unstructured : group.structured = false) :
    (group.keepLine comment number).Regular := by
  rw [keepLine_eq]
  refine ⟨regular.quiet, by simp, ?_⟩
  intro structured
  have structured : group.structured = true := structured
  rw [unstructured] at structured
  cases structured

end OpenGroup

/-! ## Brackets of a body -/

namespace Body

/-- The brackets waited for while a body is read: those open in the innermost group, and one brace
for each group. -/
structure Nested (outside waiting : List Char) (body : Body) (inner : List Char) : Prop where
  /-- The brackets of the innermost group stand before the braces of the groups. -/
  waiting : waiting = inner ++ List.replicate (body.below.length + 1) '}' ++ outside
  count : inner.length = body.top.brackets
  member : body.top.structured = true → Text.nest [] body.top.text = some inner
  top : body.top.Regular
  /-- The groups around it are regular, and read no member meanwhile. -/
  below : ∀ group ∈ body.below, group.Regular ∧ group.text = [] ∧ group.brackets = 0

theorem Nested.wellNested {outside waiting inner : List Char} {body : Body}
    (nested : body.Nested outside waiting inner) (settled : body.top.brackets = 0)
    (structured : body.top.structured = true) : Text.WellNested body.top.text := by
  have none : inner = [] := List.eq_nil_of_length_eq_zero (nested.count.trans settled)
  exact (nested.member structured).trans (congrArg some none)

theorem Nested.take {outside waiting inner : List Char} {body : Body} {c : Char}
    {next : List Char} (nested : body.Nested outside waiting inner) (noQuote : c ≠ '"')
    (step : nestChar waiting c = some next) (noClose : ¬(c = '}' ∧ body.top.brackets = 0)) :
    ∃ inner', Nested outside next { body with top := body.top.takeCode c } inner' := by
  obtain ⟨shape, count, member, top, below⟩ := nested
  have unquoted : '"' ∉ body.top.text ++ [c] := by
    simp [top.unquoted, Ne.symm noQuote]
  have regular : (body.top.takeCode c).Regular := ⟨top.quiet, unquoted, top.members⟩
  have grown : ∀ inner', nestChar inner c = some inner' → body.top.structured = true →
      Text.nest [] (body.top.text ++ [c]) = some inner' := by
    intro inner' stepped structured
    rw [Text.nest_append, member structured]
    simp [stepped]
  obtain ⟨closer, opens, -, stepped⟩ | ⟨noOpener, closes, stepped⟩ |
    ⟨noOpener, noCloser, stepped⟩ := nestChar_cases c
  · refine ⟨closer :: inner, ?_, ?_, grown _ (stepped inner), regular, below⟩
    · rw [stepped, shape] at step
      cases step
      rfl
    · simp [OpenGroup.takeCode, opens, count]
  · have same := (stepped _ _).mp step
    rw [shape] at same
    cases inner with
    | nil =>
      simp only [List.nil_append, List.replicate_succ, List.cons_append, List.cons.injEq] at same
      exact absurd ⟨same.1.symm, count.symm⟩ noClose
    | cons innermost inner =>
      simp only [List.cons_append, List.cons.injEq] at same
      obtain ⟨rfl, rfl⟩ := same
      refine ⟨inner, rfl, ?_, grown _ ((stepped _ _).mpr rfl), regular, below⟩
      rw [List.length_cons] at count
      simp [OpenGroup.takeCode, noOpener, closes, ← count]
  · refine ⟨inner, ?_, ?_, grown _ (stepped inner), regular, below⟩
    · rw [stepped] at step
      cases step
      exact shape
    · simp [OpenGroup.takeCode, noOpener, noCloser, count]

theorem Nested.enterGroup {outside waiting inner : List Char} {body next : Body} {limit : Int}
    {number : Nat} {after : List Char} (nested : body.Nested outside waiting inner)
    (step : nestChar waiting '{' = some after) (settled : body.top.brackets = 0)
    (entered : body.enterGroup limit number = .ok next) : Nested outside after next [] := by
  obtain ⟨shape, count, member, top, below⟩ := nested
  have none : inner = [] := List.eq_nil_of_length_eq_zero (count.trans settled)
  subst none
  obtain ⟨-, -, rfl⟩ := Body.enterGroup_eq_ok.mp entered
  cases step
  refine ⟨?_, rfl, fun _ => rfl, ⟨rfl, by simp, ?_⟩, ?_⟩
  · simp [shape, List.replicate_succ]
  · intro _
    have noChildren : (body.top.groupNode number).children = [] := by
      simp [OpenGroup.groupNode, top.quiet]
    rw [noChildren]
    trivial
  · intro group inBelow
    rcases List.mem_cons.mp inBelow with rfl | inBelow
    · exact ⟨⟨rfl, by simp [OpenGroup.withoutHeader], top.members⟩, rfl, settled⟩
    · exact below group inBelow

theorem Nested.close {outside waiting inner : List Char} {body : Body}
    (nested : body.Nested outside waiting inner) (settled : body.top.brackets = 0) (number : Nat) :
    (body.top.close number).node.isStructured = true →
      Node.AllMembersIn Text.Regular (body.top.close number).node.children := by
  intro structured
  unfold OpenGroup.close at structured ⊢
  by_cases known : body.top.structured = true
  · rw [if_pos known] at structured ⊢
    exact (nested.top.endMember number known (nested.wellNested settled known)).members structured
  · rw [if_neg known] at structured ⊢
    exact (nested.top.keepLine none number (by simpa using known)).members structured

theorem Nested.leave {outside waiting inner : List Char} {top outer : OpenGroup}
    {below : List OpenGroup} {anchor : Anchor} {number : Nat} {after : List Char}
    (nested : Nested outside waiting ⟨top, outer :: below, anchor⟩ inner)
    (step : nestChar waiting '}' = some after) (settled : top.brackets = 0)
    (spans : top.node.spansLines = true) :
    Nested outside after ⟨outer.adopt (top.close number).node, below, .member⟩ [] := by
  have members := nested.close settled number
  obtain ⟨shape, count, -, -, around⟩ := nested
  have none : inner = [] := List.eq_nil_of_length_eq_zero (count.trans settled)
  subst none
  obtain ⟨regular, noText, noBrackets⟩ := around outer (List.mem_cons_self ..)
  have later : after = List.replicate (below.length + 1) '}' ++ outside := by
    obtain ⟨closer, opens, -⟩ | ⟨-, -, stepped⟩ | ⟨-, noCloser, -⟩ := nestChar_cases '}'
    · cases opens
    · have same := (stepped _ _).mp step
      rw [shape] at same
      simp only [List.nil_append, List.length_cons, List.replicate_succ, List.cons_append,
        List.cons.injEq, true_and] at same
      simp [← same, List.replicate_succ]
    · cases noCloser
  refine ⟨later, ?_, ?_, ⟨regular.quiet, ?_, ?_⟩, ?_⟩
  · exact noBrackets.symm
  · intro _
    rw [show (outer.adopt (top.close number).node).text = outer.text from rfl, noText]
    rfl
  · rw [show (outer.adopt (top.close number).node).text = outer.text from rfl, noText]
    simp
  · intro structured
    refine (Node.allMembersIn_append _ _).mpr ⟨regular.members structured, ?_, trivial⟩
    rw [Node.membersIn_of_spansLines]
    · exact members
    · rw [Node.spansLines_of_head (top.head_close number)]
      exact spans
  · intro group inBelow
    exact around group (List.mem_cons_of_mem outer inBelow)

theorem Nested.endMember {outside waiting inner : List Char} {body : Body}
    (nested : body.Nested outside waiting inner) (number : Nat) (settled : body.top.brackets = 0)
    (structured : body.top.structured = true) :
    Nested outside waiting (body.endMember number) [] := by
  have regular :=
    nested.top.endMember number structured (nested.wellNested settled structured)
  obtain ⟨shape, count, -, -, below⟩ := nested
  have none : inner = [] := List.eq_nil_of_length_eq_zero (count.trans settled)
  subst none
  refine ⟨shape, ?_, ?_, regular, below⟩
  · rw [Body.endMember, OpenGroup.endMember_eq]
    exact settled.symm
  · intro _
    rw [Body.endMember, OpenGroup.endMember_eq]
    rfl

/-- Each character changes the brackets of the body as it does those of the text. -/
theorem Nested.step {limit : Int} {number : Nat} {q : Quoting} {body next : Body} {c : Char}
    {rest : Text} {outside waiting inner after : List Char} {definition : Node}
    (taken : Step limit number q body c rest next) (nested : body.Nested outside waiting inner)
    (outOfQuotes : q.inside = false) (noQuote : c ≠ '"')
    (step : nestChar waiting c = some after)
    (sound : body.Sound solidTally definition) :
    ∃ inner', next.Nested outside after inner' := by
  cases taken with
  | hidden covered =>
    simp [Quoting.exposes, Quoting.isQuote, noQuote, outOfQuotes] at covered
  | leave code settled => exact ⟨[], nested.leave step settled sound.stacked.1⟩
  | enter code settled structured leftOpen entered =>
    exact ⟨[], nested.enterGroup step settled entered⟩
  | comma code settled structured =>
    cases step
    exact ⟨[], nested.endMember number settled structured⟩
  | keep code noClose noGroup noComma => exact nested.take noQuote step noClose

theorem Nested.startLine {outside waiting inner : List Char} {body : Body}
    (nested : body.Nested outside waiting inner) : body.startLine.Nested outside waiting inner := by
  obtain ⟨shape, count, member, top, below⟩ := nested
  refine ⟨shape, count, ?_, ⟨top.quiet, ?_, top.members⟩, below⟩
  · intro structured
    have same : nesting.text body.startLine.top.text = nesting.text body.top.text := by
      simp only [Body.startLine]
      split
      · simp
      · rfl
    rw [nest_eq_of_text same]
    exact member structured
  · have same : solidTally.text body.startLine.top.text = solidTally.text body.top.text := by
      simp only [Body.startLine]
      split
      · simp
      · rfl
    exact unquoted_of_text same top.unquoted

theorem Nested.endLine {outside waiting inner : List Char} {body : Body}
    (nested : body.Nested outside waiting inner) (number : Nat) :
    (body.endLine none number).Nested outside waiting inner := by
  cases structured : body.top.structured with
  | true =>
    have same : body.endLine none number = body := by
      simp [Body.endLine, structured]
    rw [same]
    exact nested
  | false =>
    obtain ⟨shape, count, -, top, below⟩ := nested
    simp only [Body.endLine, structured]
    split
    · refine ⟨shape, ?_, ?_, top.keepLine none number structured, below⟩
      · rw [OpenGroup.keepLine_eq]
        exact count
      · intro structured'
        rw [OpenGroup.keepLine_eq] at structured'
        have structured' : body.top.structured = true := structured'
        rw [structured] at structured'
        cases structured'
    · refine ⟨shape, count, ?_, ⟨top.quiet, by simp, top.members⟩, below⟩
      intro structured'
      have structured' : body.top.structured = true := structured'
      rw [structured] at structured'
      cases structured'

def Progress.Nested (outside waiting : List Char) : Progress → Prop
  | .more body => ∃ inner, body.Nested outside waiting inner
  | .closed node => node.isStructured = true → Node.AllMembersIn Text.Regular node.children

theorem nested_of_lineRun {limit : Int} {number : Nat} {q : Quoting} {body : Body} {code : Text}
    {progress : Progress} {outside waiting inner after : List Char} {definition : Node}
    (run : LineRun limit none number q body code progress)
    (nested : body.Nested outside waiting inner) (outOfQuotes : q.inside = false)
    (unquoted : '"' ∉ code) (step : Text.nest waiting code = some after)
    (sound : body.Sound solidTally definition) : progress.Nested outside after := by
  induction run generalizing waiting inner with
  | finish =>
    cases step
    exact ⟨inner, nested.endLine number⟩
  | @close q top anchor rest node shown settled closed =>
    have members := nested.close settled number
    obtain ⟨-, rfl⟩ := Body.closeDefinition_eq_ok.mp closed
    exact members
  | @step q body next c rest progress taken later ih =>
    simp only [List.mem_cons, not_or] at unquoted
    obtain ⟨between, here, onward⟩ := Option.bind_eq_some_iff.mp step
    obtain ⟨inner', nested'⟩ :=
      nested.step taken outOfQuotes (Ne.symm unquoted.1) here sound
    have outOfQuotes' : (q.next c).inside = false := by
      simp [Quoting.next, Quoting.isQuote, Ne.symm unquoted.1, outOfQuotes]
    exact ih nested' outOfQuotes' unquoted.2 onward (Tally.body_step taken sound).2

end Body

/-! ## Lines without literals and comments -/

namespace Tally

variable {M : Type} [Monoid M] (tally : Tally M)

theorem text_code_of_uncommented (line : Text) (uncommented : line.Uncommented) :
    tally.text (Text.codeLine (Text.trim line)).code = tally.text line := by
  have whole := tally.text_codeLine (Text.trim line)
  rw [uncommented.2.2, remark_none, mul_one, text_trim] at whole
  exact whole

theorem orderly_of_bare {lines : List Text} (bare : ∀ line ∈ lines, line.Bare) :
    tally.Orderly false lines :=
  .inr ⟨rfl, fun line member => (bare line member).2⟩

end Tally

theorem regular_of_bodyRun {limits : Limits} {reader after : Reader} {body : Body} {number : Nat}
    {lines : List Text} {node definition : Node} {count : Nat} {outside waiting inner : List Char}
    (run : Reader.BodyRun limits reader body number lines node count after)
    (noBlock : reader.inBlock = false) (bare : ∀ line ∈ lines, line.Bare)
    (nested : body.Nested outside waiting inner)
    (fits : (Text.nest waiting lines.flatten).isSome = true)
    (sound : body.Sound solidTally definition) :
    node.isStructured = true → Node.AllMembersIn Text.Regular node.children := by
  -- The brackets behind a line of code, and what the body is there.
  have line_step : ∀ (body : Body) (line : Text) (rest : List Text) (number : Nat)
      (progress : Body.Progress) (waiting inner : List Char), line.Bare →
      body.Nested outside waiting inner → body.Sound solidTally definition →
      (Text.nest waiting (line ++ rest.flatten)).isSome = true →
      body.readLine limits.depth (Text.codeLine (Text.trim line)) number = .ok progress →
      ∃ later, progress.Nested outside later ∧ (Text.nest later rest.flatten).isSome = true ∧
        progress.Sound solidTally definition := by
    intro body line rest number progress waiting inner bare nested sound fits read
    have noComment := bare.2.2.2
    rw [Text.nest_append] at fits
    obtain ⟨result, ended⟩ := Option.isSome_iff_exists.mp fits
    obtain ⟨later, here, onward⟩ := Option.bind_eq_some_iff.mp ended
    have code := nest_eq_of_text (nesting.text_code_of_uncommented line bare.2) waiting
    have unquoted := unquoted_of_text (solidTally.text_code_of_uncommented line bare.2) bare.1
    have kept := Tally.progress_readLine body _ _ number progress sound (by
      rw [noComment]
      exact Tally.moves_nil) read
    have started := Tally.body_startLine body sound
    rw [Body.readLine, noComment] at read
    refine ⟨later, ?_, by rw [onward]; rfl, kept.2⟩
    exact Body.nested_of_lineRun (Body.lineRun_of_readCode _ _ _ _ _ _ _ read) nested.startLine rfl
      unquoted (code.trans here) started.2
  induction run generalizing waiting inner with
  | @comment reader body number line rest node count after room isComment later ih =>
    have remark := (LineKind.ofLine_eq_comment ..).mp isComment
    rw [noBlock, isRemark_of_bare (bare line (List.mem_cons_self ..))] at remark
    cases remark
  | @blank reader body number line rest node count after room kind isBlank later ih =>
    have here := bare line (List.mem_cons_self ..)
    have skipped : Text.nest waiting line = some waiting := by
      have worthless : nesting.text line = nesting.text [] := nesting.text_of_isBlankText line isBlank
      exact nest_eq_of_text worthless waiting
    refine ih ?_ (fun other member => bare other (List.mem_cons_of_mem line member)) nested ?_ sound
    · have passed : (reader.counted.pass line).inBlock = LineKind.blockAfter reader.inBlock line :=
        rfl
      rw [passed, noBlock, blockAfter_of_bare here]
    · rw [List.flatten_cons, Text.nest_append, skipped] at fits
      exact fits
  | @code reader body next number line rest node count after room kind noBlank read later ih =>
    have here := bare line (List.mem_cons_self ..)
    obtain ⟨waiting', ⟨inner', nested'⟩, fits', sound'⟩ :=
      line_step body line rest number _ waiting inner here nested sound fits read
    refine ih ?_ (fun other member => bare other (List.mem_cons_of_mem line member)) nested' fits'
      sound'
    have passed : (reader.counted.pass line).inBlock = LineKind.blockAfter reader.inBlock line := rfl
    rw [passed, noBlock, blockAfter_of_bare here]
  | @close reader body number line rest node room kind noBlank read =>
    obtain ⟨waiting', members, -⟩ := line_step body line rest number _ waiting inner
      (bare line (List.mem_cons_self ..)) nested sound fits read
    exact members

/-! ## Types and definitions -/

theorem codeRun_of_bare {limits : Limits} {reader after : Reader} {number count : Nat}
    {lines : List Text} {code : CodeLine}
    (run : Reader.CodeRun limits reader number lines code count after)
    (noBlock : reader.inBlock = false) (bare : ∀ line ∈ lines, line.Bare) :
    code.comment = none ∧ after.inBlock = false := by
  induction run with
  | @comment reader number line rest code count after room isComment later ih =>
    rw [noBlock, isRemark_of_bare (bare line (List.mem_cons_self ..))] at isComment
    cases isComment
  | @blank reader number line rest code count after room noComment isBlank later ih =>
    exact ih noBlock fun other member => bare other (List.mem_cons_of_mem line member)
  | @code reader number line rest room noComment noBlank noSign =>
    exact ⟨(bare line (List.mem_cons_self ..)).2.2.2, noBlock⟩

theorem readType_of_bare {limits : Limits} {definition : Nat} {type result : Reader.TypeText}
    {rest : List Text} {before after : Reader}
    (read : Reading.Yields (Reader.readType limits definition type rest) before result after)
    (noBlock : before.inBlock = false) (bare : ∀ line ∈ rest, line.Bare)
    (noComment : type.comment = none) : result.comment = none ∧ after.inBlock = false := by
  have step : ∀ (given grown : Reader.TypeText) (reader later : Reader) (wanted : Bool),
      given.comment = none → reader.inBlock = false →
      (if wanted then ∃ line count, Reader.CodeRun limits reader (definition + 1 + given.count)
          (rest.drop given.count) line count later ∧ given.extend line count = grown
        else grown = given ∧ later = reader) →
      grown.comment = none ∧ later.inBlock = false := by
    intro given grown reader later wanted noComment noBlock stepped
    split at stepped
    · obtain ⟨line, count, run, rfl⟩ := stepped
      obtain ⟨noComment', noBlock'⟩ := codeRun_of_bare run noBlock
        fun other member => bare other (List.mem_of_mem_drop member)
      refine ⟨?_, noBlock'⟩
      simp [Reader.TypeText.extend, noComment, noComment', bothComments]
    · obtain ⟨rfl, rfl⟩ := stepped
      exact ⟨noComment, noBlock⟩
  rw [Reader.yields_readType] at read
  obtain ⟨first, between, toCode, toBrace⟩ := read
  obtain ⟨noComment', noBlock'⟩ := step type first before between (decide (type.code = []))
    noComment noBlock (by simpa using toCode)
  exact step first result between after _ noComment' noBlock' toBrace

/-- Lines of code whose brackets are well nested behind those that are open before them. -/
def Nestable (lines : List Text) : Prop :=
  (∀ line ∈ lines, line.Bare) ∧ ∃ waiting, (Text.nest waiting lines.flatten).isSome = true

theorem Nestable.tail {line : Text} {rest : List Text} (nestable : Nestable (line :: rest)) :
    Nestable rest := by
  obtain ⟨bare, waiting, nested⟩ := nestable
  rw [List.flatten_cons, Text.nest_append] at nested
  obtain ⟨result, ended⟩ := Option.isSome_iff_exists.mp nested
  obtain ⟨later, -, onward⟩ := Option.bind_eq_some_iff.mp ended
  exact ⟨fun other member => bare other (List.mem_cons_of_mem line member), later, by
    rw [onward]
    rfl⟩

theorem solidTally_ordered {inBlock : Bool} {lines : List Text}
    (orderly : solidTally.Orderly inBlock lines) : inBlock = false := by
  rcases orderly with moves | ⟨noBlock, -⟩
  · have swapped := congrArg FreeMonoid.toList (moves ['a'] (solidTally.text ['b']))
    exact absurd swapped (by decide)
  · exact noBlock

theorem nestable_readType {limits : Limits} {number : Nat} {line : Text} {rest : List Text}
    {before after : Reader} {type : Reader.TypeText} (nestable : Nestable (line :: rest))
    (begins : solidTally.Begins before line rest)
    (read : Reading.Yields (Reader.readType limits number (Reader.firstType line) rest) before type
      after) :
    '"' ∉ type.code ∧ type.comment = none ∧ after.inBlock = false ∧ ∃ waiting,
      (Text.nest waiting (type.code ++ (rest.drop type.count).flatten)).isSome = true := by
  obtain ⟨bare, waiting, nested⟩ := nestable
  have here := bare line (List.mem_cons_self ..)
  have behind : ∀ other ∈ rest, Text.Bare other :=
    fun other member => bare other (List.mem_cons_of_mem line member)
  have noBlock := solidTally_ordered begins.orderly
  have noComment : (Reader.firstType line).comment = none := here.2.2.2
  obtain ⟨noComment', noBlock'⟩ := readType_of_bare read noBlock behind noComment
  -- What any tally makes of the type, the comments put aside before it.
  have typed : ∀ {M : Type} [Monoid M] (tally : Tally M),
      tally.text (Reader.definitionName line ++ "::=".toList ++ Node.contents after.setAside ++
          type.code) = tally.text (line ++ (rest.take type.count).flatten) := by
    intro M _ tally
    have orderly : tally.Orderly before.inBlock rest := by
      rw [noBlock]
      exact tally.orderly_of_bare behind
    have moves : tally.TypeMoves before (Reader.firstType line) := by
      rw [Tally.TypeMoves, begins.noneAside, noComment]
      refine ⟨?_, Tally.moves_nil⟩
      intro node member
      cases member
    obtain ⟨-, kept, -⟩ := Tally.typeRead_readType read orderly moves
    have fromStart : (Reader.firstType line).count = 0 := rfl
    simp only [Tally.typeRead, begins.noneAside, noComment, noComment', fromStart, List.drop_zero,
      Nat.sub_zero, Node.contents, List.flatMap_nil, Tally.text_nil, one_mul, Tally.remark_none,
      mul_one] at kept
    have first := tally.text_definitionLine line begins.defines
    rw [noComment, Tally.remark_none, mul_one] at first
    simp only [Tally.text_append, ← first, mul_assoc]
    rw [Node.contents, kept]
    rfl
  refine ⟨?_, noComment', noBlock', ?_⟩
  · have unquoted := unquoted_of_text (typed solidTally) (by
      rw [List.mem_append, List.mem_flatten]
      rintro (quoted | ⟨other, member, quoted⟩)
      · exact here.1 quoted
      · exact (behind other (List.mem_of_mem_take member)).1 quoted)
    intro quoted
    exact unquoted (List.mem_append_right _ quoted)
  · have whole : (line :: rest).flatten =
        line ++ (rest.take type.count).flatten ++ (rest.drop type.count).flatten := by
      rw [List.append_assoc, ← List.flatten_append, List.take_append_drop, List.flatten_cons]
    have reordered := nest_eq_of_text (typed nesting) waiting
    rw [whole, Text.nest_append, ← reordered, ← Text.nest_append, List.append_assoc,
      Text.nest_append] at nested
    obtain ⟨result, ended⟩ := Option.isSome_iff_exists.mp nested
    obtain ⟨later, -, onward⟩ := Option.bind_eq_some_iff.mp ended
    exact ⟨later, by
      rw [onward]
      rfl⟩

theorem isSome_of_nest_append {waiting : List Char} {front back : Text}
    (nested : (Text.nest waiting (front ++ back)).isSome = true) :
    ∃ later, Text.nest waiting front = some later ∧ (Text.nest later back).isSome = true := by
  rw [Text.nest_append] at nested
  obtain ⟨result, ended⟩ := Option.isSome_iff_exists.mp nested
  obtain ⟨later, here, onward⟩ := Option.bind_eq_some_iff.mp ended
  exact ⟨later, here, by
    rw [onward]
    rfl⟩

theorem nested_start {node : Node} {limit : Int} {first : Text} {progress : Body.Progress}
    {outside behind : List Char} (started : Body.start node limit first = .ok progress)
    (bare : node.children = [] ∧ node.trailer = [] ∧ node.closingComment = none)
    (noComment : node.openingComment = none) (unquoted : '"' ∉ first)
    (nested : Text.nest ('}' :: outside) first = some behind) :
    progress.Nested outside behind := by
  obtain ⟨noChildren, noTrailer, noClosing⟩ := bare
  have opened : ∀ (opened : Node) (anchor : Anchor), opened.children = [] →
      Body.Nested outside ('}' :: outside) { top := { node := opened }, anchor } [] := by
    intro opened anchor none
    refine ⟨rfl, rfl, fun _ => rfl, ⟨rfl, by simp, ?_⟩, ?_⟩
    · intro _
      rw [none]
      trivial
    · intro group member
      cases member
  rcases Body.lineRun_of_start started with ⟨blank, rfl⟩ | run
  · have worthless : nesting.text first = nesting.text [] := nesting.text_of_isBlankText first blank
    rw [nest_eq_of_text worthless] at nested
    cases nested
    exact ⟨[], opened node _ noChildren⟩
  · rw [noComment] at run
    have begins : Body.Sound solidTally node
        { top := { node := { node with openingComment := none } }, anchor := .opening } :=
      Tally.sound_opened _ _ noTrailer noClosing rfl (by simp)
    exact Body.nested_of_lineRun run
      (opened _ .opening noChildren) rfl unquoted nested begins

theorem itemIn_plainNode {node : Node} {type : Reader.TypeText} {waiting : List Char}
    (unquoted : '"' ∉ type.code) (nested : (Text.nest waiting type.code).isSome = true) :
    (Reader.plainNode node type).ItemIn Text.Regular := by
  intro _
  have plain : (Reader.plainNode node type).isPlain = true := rfl
  rw [if_pos plain]
  apply groupIn_of_nest _ _ waiting
  · rw [show (Reader.plainNode node type).header.getD [] = Text.neat type.code from rfl,
      nest_eq_of_text (nesting.text_neat type.code)]
    exact nested
  · exact unquoted_of_text (solidTally.text_neat type.code) unquoted

theorem itemIn_inlineNode {node : Node} {type : Reader.TypeText} {header inside trailer : Text}
    (regular : Text.Regular inside) (structured : (GroupKind.ofHeader header).isStructured = true) :
    (Reader.inlineNode node type header inside trailer).ItemIn Text.Regular := by
  intro _
  have noPlain : (Reader.inlineNode node type header inside trailer).isPlain = false := by
    simp [Node.isPlain, Reader.inlineNode, Node.isStructured, structured]
  have oneLine : (Reader.inlineNode node type header inside trailer).oneLine = some true := rfl
  rw [if_neg (by simp [noPlain]), if_pos oneLine]
  exact solidTally_cuttable.member inside regular

/-- A definition whose group was left open on its first line, read to its end. -/
theorem itemIn_of_opened {limits : Limits} {number count : Nat} {rest : List Text}
    {before after : Reader} {node result : Node} {type : Reader.TypeText} {header first : Text}
    {progress : Body.Progress} {outside behind : List Char}
    (run : match progress with
      | .closed closed => closed = result ∧ type.count = count ∧ before = after
      | .more body => ∃ later, Reader.BodyRun limits before body (number + 1 + type.count)
          (rest.drop type.count) result later after ∧ type.count + later = count)
    (started : Body.start (Reader.openedNode node type header) limits.depth first = .ok progress)
    (bare : node.children = [] ∧ node.trailer = [] ∧ node.closingComment = none)
    (noComment : type.comment = none) (unquoted : '"' ∉ first)
    (nested : Text.nest ('}' :: outside) first = some behind) (noBlock : before.inBlock = false)
    (bareLines : ∀ line ∈ rest, Text.Bare line)
    (onward : (Text.nest behind (rest.drop type.count).flatten).isSome = true) :
    result.ItemIn Text.Regular := by
  have moves : solidTally.RemarkMoves type.comment := by
    rw [noComment]
    exact Tally.moves_nil
  have sound :=
    (Tally.progress_start (Reader.openedNode node type header) _ _ progress bare moves started).2
  have nested' := nested_start started bare noComment unquoted nested
  have several : ∀ other : Node, other.head = (Reader.openedNode node type header).head →
      (other.isStructured = true → Node.AllMembersIn Text.Regular other.children) →
      other.ItemIn Text.Regular := by
    intro other same members _
    have oneLine : other.oneLine = some false := congrArg (·.2.2) same
    rw [if_neg (by simp [Node.isPlain, oneLine]), if_neg (by simp [oneLine])]
    exact members
  cases progress with
  | closed closed =>
    obtain ⟨rfl, -, -⟩ := run
    exact several closed sound nested'
  | more body =>
    obtain ⟨more, run, -⟩ := run
    obtain ⟨inner, nested'⟩ := nested'
    have bare' : ∀ line ∈ rest.drop type.count, Text.Bare line :=
      fun line member => bareLines line (List.mem_of_mem_drop member)
    have orderly : solidTally.Orderly before.inBlock (rest.drop type.count) := by
      rw [noBlock]
      exact solidTally.orderly_of_bare bare'
    have same := (Tally.text_bodyRun run orderly sound).2.1
    exact several result same (regular_of_bodyRun run noBlock bare' nested' onward sound)

theorem itemIn_of_groupRun {limits : Limits} {number : Nat} {rest : List Text}
    {reader before after : Reader} {line : Text} {type : Reader.TypeText} {result : Node}
    {count : Nat} {waiting : List Char}
    (run : Reader.GroupRun limits number rest (Reader.definitionNode reader number line type) type
      before result count after)
    (noBlock : before.inBlock = false) (bare : ∀ other ∈ rest, Text.Bare other)
    (unquoted : '"' ∉ type.code) (noComment : type.comment = none)
    (nested : (Text.nest waiting (type.code ++ (rest.drop type.count).flatten)).isSome = true) :
    result.ItemIn Text.Regular := by
  obtain ⟨behind, code, onward⟩ := isSome_of_nest_append nested
  have paired : (Text.nest waiting type.code).isSome = true := by
    rw [code]
    rfl
  unfold Reader.GroupRun at run
  split at run
  · obtain ⟨rfl, -, -⟩ := run
    exact itemIn_plainNode unquoted paired
  · rename_i header first shape
    obtain ⟨front, split, -, rfl, -⟩ := Reader.shapeOf_eq_opened _ _ _ shape
    obtain ⟨progress, started, later⟩ := run
    rw [split, Text.nest_append] at code
    obtain ⟨outside, -, opened⟩ := Option.bind_eq_some_iff.mp code
    have unquoted' : '"' ∉ first := by
      intro quoted
      rw [split] at unquoted
      exact unquoted (List.mem_append_right _ (List.mem_cons_of_mem _ quoted))
    exact itemIn_of_opened later started ⟨rfl, rfl, rfl⟩ noComment unquoted' opened noBlock bare
      onward
  · rename_i header inside trailer shape
    obtain ⟨front, split, opens, -, closes, structured⟩ := Reader.shapeOf_eq_inline _ _ _ _ shape
    obtain ⟨rfl, -, -⟩ := run
    exact itemIn_inlineNode (groupIn_of_nest type.code unquoted waiting paired front inside trailer
      split opens closes) structured
  · exact run.elim

theorem solidTally_fits : solidTally.Fits Text.Regular Nestable where
  tail := by
    intro line rest nestable
    exact nestable.tail
  inlineIn := by
    intro limits number line rest before type after nestable begins read header inside trailer shape
    obtain ⟨unquoted, -, -, waiting, nested⟩ := nestable_readType nestable begins read
    obtain ⟨behind, code, -⟩ := isSome_of_nest_append nested
    obtain ⟨front, split, opens, -, closes, -⟩ := Reader.shapeOf_eq_inline _ _ _ _ shape
    refine groupIn_of_nest type.code unquoted waiting ?_ front inside trailer split opens closes
    rw [code]
    rfl
  itemIn := by
    intro limits number line rest before node count after nestable begins read
    rw [Reader.yields_readDefinition] at read
    obtain ⟨-, type, between, readType, run⟩ := read
    obtain ⟨unquoted, noComment, noBlock, waiting, nested⟩ :=
      nestable_readType nestable begins readType
    exact itemIn_of_groupRun run noBlock nestable.tail.1 unquoted noComment nested

/-! ## Sources without literals and comments -/

/-- Formatting a source without literals and comments whose brackets are well nested keeps every
character but blanks and commas, in the same order. -/
theorem filter_isSolid_format (source : Text) (configuration : Configuration)
    (unquoted : '"' ∉ source) (noLineComment : ¬['-', '-'] <:+: source)
    (noBlockComment : ¬['-', '*'] <:+: source) (nested : source.WellNested) :
    (Format.text source configuration).result.filter isSolid = source.filter isSolid := by
  have nestable : ∀ width : Int, 1 ≤ width →
      Nestable (Text.lines (Text.plainSource source width)) := by
    intro width wide
    constructor
    · intro line member
      constructor
      · have plain := unquoted_of_text (solidTally.text_plainSource source width) unquoted
        intro quoted
        exact plain ((Text.infix_of_mem_lines _ line member).subset quoted)
      · apply uncommented_of_infix
        · intro pair
          exact noLineComment (Text.pair_infix_of_mem_lines '-' '-' (by decide) (by decide) source
            line width wide member pair)
        · intro pair
          exact noBlockComment (Text.pair_infix_of_mem_lines '-' '*' (by decide) (by decide) source
            line width wide member pair)
    · have same : nesting.text (Text.lines (Text.plainSource source width)).flatten =
          nesting.text source :=
        (nesting.texts_lines _).trans (nesting.text_plainSource source width)
      refine ⟨[], ?_⟩
      rw [nest_eq_of_text same, nested]
      rfl
  have kept := Tally.text_format solidTally_cuttable solidTally_fits source configuration nestable
    fun width wide => solidTally.orderly_of_bare (nestable width wide).1
  rw [solidTally_text, solidTally_text] at kept
  exact FreeMonoid.ofList.injective kept

/-- A group that spans lines, inside of it one that does not, and brackets of all kinds. -/
theorem filter_isSolid_format_nested_groups :
    let source : Text := ("T ::= SEQUENCE \x7b\n a [0] CHOICE \x7b x NULL, " ++
      "y BIT STRING \x7b r(0) \x7d \x7d,\n\x7d").toList
    '"' ∉ source ∧ ¬['-', '-'] <:+: source ∧ ¬['-', '*'] <:+: source ∧ source.WellNested ∧
      (Format.text source .absent).result.filter isSolid = source.filter isSolid := by
  intro source
  have unquoted : '"' ∉ source := by decide
  have noLineComment : ¬['-', '-'] <:+: source := by decide +kernel
  have noBlockComment : ¬['-', '*'] <:+: source := by decide +kernel
  have nested : source.WellNested := by decide
  exact ⟨unquoted, noLineComment, noBlockComment, nested,
    filter_isSolid_format source .absent unquoted noLineComment noBlockComment nested⟩

end AsnLayout
