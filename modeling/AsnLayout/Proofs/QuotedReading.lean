import AsnLayout.Proofs.Comments
import AsnLayout.Proofs.QuotedBody

/-!
# Literals along a run

The nodes of a schema bear what the code of its lines hides, in the same order.
-/

set_option autoImplicit false

namespace AsnLayout

/-! ## Lines -/

namespace Text

structure IsRemark (inBlock : Bool) (line : Text) (after : Bool) : Prop where
  isRemark : Reader.isRemark inBlock line = true
  single : '\n' ∉ line
  behind : LineKind.blockAfter inBlock line = after

structure IsCode (line held : Text) : Prop where
  noRemark : Reader.isRemark false line = false
  single : '\n' ∉ line
  hides : Hides (codeLine (trim line)).code held

/-- A line of code whose assignment sign, if it defines a type, is code. -/
structure IsSource (line held : Text) : Prop extends IsCode line held where
  assigned : LineKind.ofLine false line = .typeDefinition →
    (Quoting.after {} (Reader.definitionSides line).1).inside = false

abbrev SourceLines : Bool → List Text → Text → Bool → Prop := Series IsRemark IsSource

theorem trim_comment {line comment : Text} (found : (codeLine line).comment = some comment) :
    trim comment = comment := by
  unfold codeLine at found
  split at found
  · cases found
  · cases found
    exact trim_trim _

theorem isNoted_codeLine {line : Text} (single : '\n' ∉ line) :
    IsNoted (codeLine (trim line)).comment := by
  intro comment found
  obtain ⟨inside, hyphens⟩ := comment_of_codeLine found
  exact ⟨hyphens, fun newline => single ((inside.trans (trim_isInfix line)).subset newline),
    trim_comment found⟩

theorem IsCode.isNoted {line held : Text} (code : IsCode line held) :
    IsNoted (codeLine (trim line)).comment := isNoted_codeLine code.single

namespace SourceLines

variable {inBlock state : Bool} {line : Text} {rest lines : List Text} {held : Text}

theorem of_nil (lines : SourceLines inBlock [] held state) : held = [] ∧ inBlock = state := by
  cases lines
  exact ⟨rfl, rfl⟩

theorem of_remark (lines : SourceLines inBlock (line :: rest) held state)
    (remark : Reader.isRemark inBlock line = true) :
    '\n' ∉ line ∧ SourceLines (LineKind.blockAfter inBlock line) rest held state := by
  cases lines with
  | comment isRemark later =>
    obtain ⟨-, single, rfl⟩ := isRemark
    exact ⟨single, later⟩
  | code bearing later =>
    rw [bearing.noRemark] at remark
    cases remark

theorem of_code (lines : SourceLines inBlock (line :: rest) held state)
    (noRemark : Reader.isRemark inBlock line = false) :
    inBlock = false ∧ ∃ first second, held = first ++ second ∧ IsSource line first ∧
      SourceLines false rest second state := by
  cases lines with
  | comment isRemark later =>
    rw [isRemark.isRemark] at noRemark
    cases noRemark
  | code bearing later => exact ⟨rfl, _, _, rfl, bearing, later⟩

theorem of_blank (lines : SourceLines inBlock (line :: rest) held state)
    (noRemark : Reader.isRemark inBlock line = false) (blank : isBlankText line = true) :
    inBlock = false ∧ SourceLines false rest held state := by
  obtain ⟨outside, first, second, rfl, source, later⟩ := lines.of_code noRemark
  have hides := source.hides
  rw [trim_of_blank blank] at hides
  have none := hides.eq_nil
  subst none
  exact ⟨outside, later⟩

end SourceLines

end Text

namespace Reader

variable {limits : Limits}

theorem isRemark_of_ofLine {inBlock : Bool} {line : Text} {kind : LineKind}
    (same : LineKind.ofLine inBlock line = kind) (code : kind ≠ .comment) :
    isRemark inBlock line = false := by
  rw [Bool.eq_false_iff]
  intro remark
  exact code (same.symm.trans ((LineKind.ofLine_eq_comment ..).mpr remark))

theorem isRemark_of_mayStandInBody {inBlock : Bool} {line : Text}
    (kind : mayStandInBody (LineKind.ofLine inBlock line) = true) :
    isRemark inBlock line = false := by
  rw [Bool.eq_false_iff]
  intro remark
  rw [(LineKind.ofLine_eq_comment inBlock line).mpr remark] at kind
  cases kind

theorem inBlock_pass {reader : Reader} {line : Text}
    (noRemark : isRemark reader.inBlock line = false) (outside : reader.inBlock = false) :
    (reader.counted.pass line).inBlock = false :=
  (LineKind.blockAfter_of_not_isRemark noRemark).trans outside

/-! ## Types -/

/-- What is known where a line of code has been read outside of block comments: the code that was
read hides `first`, and the lines behind it hide the rest. -/
structure CodeRead (reader : Reader) (code : Text) (comment : Option Text) (lines : List Text)
    (state : Bool) (first second : Text) : Prop where
  outside : reader.inBlock = false
  aside : Node.Comments false reader.setAside [] false
  code : Text.Hides code first
  noted : IsNoted comment
  later : Text.SourceLines false lines second state

theorem codeRead_codeRun {reader after : Reader} {number count : Nat} {lines : List Text}
    {line : CodeLine} {held : Text} {state : Bool}
    (run : CodeRun limits reader number lines line count after)
    (source : Text.SourceLines reader.inBlock lines held state)
    (aside : Node.Comments false reader.setAside [] reader.inBlock) :
    ∃ first second, held = first ++ second ∧
      CodeRead after line.code line.comment (lines.drop count) state first second := by
  induction run with
  | @comment reader number line rest code count after room isComment later ih =>
    obtain ⟨single, source'⟩ := source.of_remark isComment
    exact ih source' (aside.append (Node.comments_ofComment isComment single _ _))
  | blank room noComment isBlank later ih =>
    obtain ⟨outside, source'⟩ := source.of_blank noComment isBlank
    rw [← outside] at source'
    exact ih source' aside
  | code room noComment noBlank noSign =>
    obtain ⟨outside, first, second, rfl, code, source'⟩ := source.of_code noComment
    rw [outside] at aside
    exact ⟨first, second, rfl, outside, aside, code.hides, code.isNoted, source'⟩

theorem codeRead_extend {reader after : Reader} {type : TypeText} {number count : Nat}
    {line : CodeLine} {rest : List Text} {state : Bool} {held : Text}
    (known : ∃ first second, held = first ++ second ∧
      CodeRead reader type.code type.comment (rest.drop type.count) state first second)
    (run : CodeRun limits reader number (rest.drop type.count) line count after) :
    ∃ first second, held = first ++ second ∧ CodeRead after (type.extend line count).code
      (type.extend line count).comment (rest.drop (type.extend line count).count) state first
      second := by
  obtain ⟨first, second, rfl, outside, aside, code, noted, later⟩ := known
  obtain ⟨early, late, rfl, outside', aside', code', noted', later'⟩ :=
    codeRead_codeRun run (by rw [outside]; exact later) (by rw [outside]; exact aside)
  refine ⟨first ++ early, late, (List.append_assoc ..).symm, outside', aside', ?_,
    noted.both noted', ?_⟩
  · change Text.Hides (if type.code = [] then line.code else type.code ++ ' ' :: line.code) _
    split
    · rename_i empty
      rw [empty] at code
      rw [← code.hidden]
      exact code'
    · exact code.space code'
  · rwa [List.drop_drop] at later'

theorem codeRead_readType {definition : Nat} {type result : TypeText} {rest : List Text}
    {before after : Reader} {state : Bool} {held : Text}
    (read : Reading.Yields (readType limits definition type rest) before result after)
    (known : ∃ first second, held = first ++ second ∧
      CodeRead before type.code type.comment (rest.drop type.count) state first second) :
    ∃ first second, held = first ++ second ∧
      CodeRead after result.code result.comment (rest.drop result.count) state first second :=
  @readType_induct limits (fun reader type => ∃ first second, held = first ++ second ∧
    CodeRead reader type.code type.comment (rest.drop type.count) state first second) _ _ _ _ _ _
    read known fun _ _ _ _ _ _ known run => codeRead_extend known run

/-! ## Bodies -/

/-- A definition that has been read to its end bears what its lines hide. -/
theorem bears_bodyRun {reader after : Reader} {body : Body} {number count : Nat}
    {lines : List Text} {node definition : Node} {held held' : Text} {state : Bool}
    (run : BodyRun limits reader body number lines node count after)
    (source : Text.SourceLines reader.inBlock lines held' state)
    (bears : body.Bears reader.inBlock [] held) (clean : body.Clean)
    (sound : body.Sound blind definition) :
    ∃ first second, held' = first ++ second ∧
      (Body.Progress.closed node).Bears (held ++ first) ∧ after.inBlock = false ∧
      Text.SourceLines false (lines.drop count) second state := by
  -- Along the run the body bears all that was read, so each line adds what it hides at the end.
  induction run generalizing held held' with
  | @comment reader body number line rest node count after room isComment later ih =>
    have remark := (LineKind.ofLine_eq_comment reader.inBlock line).mp isComment
    obtain ⟨single, source'⟩ := source.of_remark remark
    exact ih source' (bears.readComment remark single number) (clean.readComment _ _ _)
      (Tally.body_readComment _ _ _ _ sound (fun _ => rfl)).2
  | @blank reader body number line rest node count after room kind isBlank later ih =>
    have noRemark := isRemark_of_mayStandInBody kind
    obtain ⟨outside, source'⟩ := source.of_blank noRemark isBlank
    have same := inBlock_pass noRemark outside
    rw [outside] at bears
    rw [← same] at source' bears
    exact ih source' bears clean sound
  | @code reader body next number line rest node count after room kind noBlank read later ih =>
    have noRemark := isRemark_of_mayStandInBody kind
    obtain ⟨outside, first, second, rfl, code, source'⟩ := source.of_code noRemark
    have same := inBlock_pass noRemark outside
    rw [outside] at bears
    cases Body.bears_readLine read bears clean code.hides code.isNoted sound with
    | more bears' clean' =>
      have sound' := (Tally.progress_readLine _ _ _ _ _ sound (fun _ => rfl) read).2
      rw [← same] at source' bears'
      obtain ⟨early, late, rfl, closed, outside', behind⟩ := ih source' bears' clean' sound'
      refine ⟨first ++ early, late, (List.append_assoc ..).symm, ?_, outside', behind⟩
      rwa [List.append_assoc] at closed
  | @close reader body number line rest node room kind noBlank read =>
    have noRemark := isRemark_of_mayStandInBody kind
    obtain ⟨outside, first, second, rfl, code, source'⟩ := source.of_code noRemark
    have same := inBlock_pass noRemark outside
    rw [outside] at bears
    exact ⟨first, second, rfl,
      Body.bears_readLine read bears clean code.hides code.isNoted sound, same, source'⟩

end Reader

/-! ## Items -/

inductive Node.ItemBears : Node → Text → Prop where
  | line {node : Node} {code held : Text} {comment : Option Text}
      (single : node.kind ≠ .typeDefinition ∧ node.kind ≠ .comment)
      (content : node.content = beside code comment) (hides : Text.Hides code held)
      (noted : IsNoted comment) (settled : Text.neat code = code) : ItemBears node held
  | plain {node : Node} {first second : Text} (defines : node.kind = .typeDefinition)
      (plain : node.isPlain = true) (name : Text.Hides node.name first)
      (header : Text.Hides (node.header.getD []) second) (opening : IsNoted node.openingComment) :
      ItemBears node (first ++ second)
  | inline {node : Node} {first second third fourth : Text} (defines : node.kind = .typeDefinition)
      (inline : node.isPlain = false ∧ node.oneLine = some true) (name : Text.Hides node.name first)
      (header : Text.Hides (node.header.getD []) second) (opening : IsNoted node.openingComment)
      (members : Text.HidesAll (node.inlineMembers.getD []) third)
      (trailer : Text.Hides node.trailer fourth) (closing : IsNoted node.closingComment) :
      ItemBears node (first ++ (second ++ third ++ fourth))
  | group {node : Node} {first second third fourth : Text} (defines : node.kind = .typeDefinition)
      (several : node.oneLine = some false) (keeps : node.KeepsLines)
      (name : Text.Hides node.name first)
      (header : Text.Hides (node.header.getD []) second) (opening : IsNoted node.openingComment)
      (children : InSeries false node.children third false)
      (trailer : Text.Hides node.trailer fourth) (closing : IsNoted node.closingComment) :
      ItemBears node (first ++ (second ++ (third ++ fourth)))

theorem Body.Progress.Bears.itemBears {node definition : Node} {first held : Text}
    (closed : (Progress.closed node).Bears held) (same : node.head = definition.head)
    (defines : definition.kind = .typeDefinition) (several : definition.oneLine = some false)
    (name : Text.Hides definition.name first) : node.ItemBears (first ++ held) := by
  simp only [Node.head, Prod.mk.injEq] at same
  obtain ⟨sameKind, sameName, sameShape⟩ := same
  rw [← sameName] at name
  cases closed with
  | closed keeps header opening children trailer closing =>
    exact .group (sameKind.trans defines) (sameShape.trans several) keeps name header opening
      children trailer closing

namespace Reader

variable {limits : Limits}

theorem itemBears_groupRun {number count : Nat} {rest : List Text} {before after : Reader}
    {type : TypeText} {node result : Node} {state : Bool} {first second third : Text}
    (run : GroupRun limits number rest node type before result count after)
    (defines : node.kind = .typeDefinition)
    (bare : node.children = [] ∧ node.trailer = [] ∧ node.closingComment = none)
    (uncommented : node.openingComment = none) (name : Text.Hides node.name first)
    (known : CodeRead before type.code type.comment (rest.drop type.count) state second third) :
    ∃ early late, third = early ++ late ∧ result.ItemBears (first ++ (second ++ early)) ∧
      after.setAside = before.setAside ∧ after.inBlock = false ∧
      Text.SourceLines false (rest.drop count) late state := by
  obtain ⟨outside, aside, code, noted, later⟩ := known
  unfold GroupRun at run
  split at run
  · obtain ⟨rfl, rfl, rfl⟩ := run
    refine ⟨[], third, rfl, ?_, rfl, outside, later⟩
    rw [List.append_nil]
    exact .plain defines rfl name code.neat noted
  · rename_i header inside shape
    obtain ⟨progress, started, run⟩ := run
    obtain ⟨front, back, rfl, headerHides, insideHides⟩ := code.shapeOf_opened shape
    have bears := Body.bears_start started bare headerHides noted insideHides
    have sound : progress.Sound blind (openedNode node type header) :=
      (Tally.progress_start (openedNode node type header) _ _ progress bare (fun _ => rfl)
        started).2
    cases progress with
    | closed closed =>
      obtain ⟨rfl, rfl, rfl⟩ := run
      refine ⟨[], third, rfl, ?_, rfl, outside, later⟩
      rw [List.append_nil]
      exact bears.itemBears sound defines rfl name
    | more body =>
      obtain ⟨more, bodyRun, rfl⟩ := run
      obtain ⟨-, same, aside', -⟩ := Tally.text_bodyRun bodyRun (.inl fun _ _ => rfl) sound
      cases bears with
      | more bears clean =>
        rw [← outside] at bears later
        obtain ⟨early, late, rfl, closed, outside', behind⟩ :=
          bears_bodyRun bodyRun later bears clean sound
        refine ⟨early, late, rfl, ?_, aside', outside', ?_⟩
        · exact closed.itemBears same defines rfl name
        · rwa [List.drop_drop] at behind
  · rename_i header inside trailer shape
    obtain ⟨rfl, rfl, rfl⟩ := run
    obtain ⟨one, two, three, rfl, headerHides, members, trailing⟩ := code.shapeOf_inline shape
    obtain ⟨-, -, -, -, -, structured⟩ := shapeOf_eq_inline _ _ _ _ shape
    refine ⟨[], third, rfl, ?_, rfl, outside, later⟩
    rw [List.append_nil]
    refine .inline defines ⟨?_, rfl⟩ name headerHides ?_ members.members trailing.neat noted
    · simp [Node.isPlain, inlineNode, Node.isStructured, structured]
    · change IsNoted node.openingComment
      rw [uncommented]
      exact isNoted_none
  · exact run.elim

theorem itemBears_readDefinition {number count : Nat} {line : Text} {rest : List Text}
    {before after : Reader} {node : Node} {first held : Text} {state : Bool}
    (read : Reading.Yields (readDefinition limits number line rest) before (node, count) after)
    (settled : before.setAside = []) (outside : before.inBlock = false)
    (source : Text.IsSource line first) (defines : LineKind.ofLine false line = .typeDefinition)
    (later : Text.SourceLines false rest held state) :
    ∃ early late, first ++ held = early ++ late ∧ node.ItemBears early ∧
      Node.Comments false after.setAside [] false ∧ after.inBlock = false ∧
      Text.SourceLines false (rest.drop count) late state := by
  rw [yields_readDefinition] at read
  obtain ⟨-, type, between, readType, run⟩ := read
  obtain ⟨left, right, rfl, leftHides, rightHides⟩ :=
    source.hides.definitionSides (source.assigned defines)
  have known : CodeRead before (firstType line).code (firstType line).comment
      (rest.drop (firstType line).count) state right held :=
    ⟨outside, by rw [settled]; exact .done, rightHides.trim, source.isNoted, later⟩
  obtain ⟨typeHeld, behind, whole, read⟩ := codeRead_readType readType ⟨right, held, rfl, known⟩
  have name : Text.Hides (definitionNode between number line type).name left := by
    simp only [definitionNode]
    exact leftHides.memberForm
  obtain ⟨early, late, rfl, bears, aside, outside', later'⟩ :=
    itemBears_groupRun run rfl ⟨rfl, rfl, rfl⟩ rfl name read
  refine ⟨left ++ (typeHeld ++ early), late, ?_, bears, ?_, outside', later'⟩
  · simp only [List.append_assoc] at whole ⊢
    rw [whole]
  · rw [aside]
    exact read.aside

/-! ## Single lines -/

theorem itemBears_lineItem {reader : Reader} {line held : Text} (number : Nat)
    (source : Text.IsCode line held) (outside : reader.inBlock = false) :
    (reader.lineItem number line).1.ItemBears held := by
  have noRemark := source.noRemark
  have neat := source.hides.neat
  have kind : LineKind.ofLine reader.inBlock line ≠ .comment := by
    rw [outside, ne_eq, LineKind.ofLine_eq_comment, noRemark]
    simp
  unfold lineItem
  cases found : LineKind.ofLine reader.inBlock line with
  | comment => exact absurd found kind
  | moduleHeader =>
    simp only
    split <;>
      exact .line ⟨by simp [itemNode], by simp [itemNode]⟩ rfl neat source.isNoted (Text.neat_neat _)
  | blockBegin | blockEnd | typeDefinition | field | other =>
    exact .line ⟨by simp [itemNode], by simp [itemNode]⟩ rfl neat source.isNoted (Text.neat_neat _)

/-! ## Schemas -/

theorem series_readItem {number count : Nat} {line : Text} {rest : List Text}
    {before after : Reader} {node : Node} {held : Text} {state : Bool}
    (read : Reading.Yields (readItem limits number line rest) before (node, count) after)
    (settled : before.setAside = [])
    (source : Text.SourceLines before.inBlock (line :: rest) held state) :
    ∃ early late, held = early ++ late ∧
      Series Node.IsComment Node.ItemBears before.inBlock (after.setAside ++ [node]) early
        after.inBlock ∧
      Text.SourceLines after.inBlock (rest.drop count) late state := by
  rw [yields_readItem] at read
  obtain ⟨-, read⟩ := read
  split at read
  · rename_i defines
    have noRemark := isRemark_of_ofLine defines (by decide)
    obtain ⟨outside, first, second, rfl, code, later⟩ := source.of_code noRemark
    have passed := inBlock_pass noRemark outside
    rw [outside] at defines ⊢
    obtain ⟨early, late, same, bears, aside, outside', later'⟩ :=
      itemBears_readDefinition read settled passed code defines later
    refine ⟨early, late, same, ?_, ?_⟩
    · rw [outside']
      exact aside.series.append (.single_code bears)
    · rw [outside']
      exact later'
  · obtain ⟨item, rfl⟩ := read
    obtain ⟨-, -, aside, passed⟩ := Tally.lineItem_kept blind before.counted number line
    rw [item] at aside passed
    have aside : after.setAside = [] := aside.trans settled
    have passed : after.inBlock = LineKind.blockAfter before.inBlock line := passed
    rw [aside, List.nil_append, List.drop_zero]
    by_cases remark : isRemark before.inBlock line = true
    · have comment : node = Node.ofComment line before.inBlock before.level number := by
        have kind := (LineKind.ofLine_eq_comment before.inBlock line).mpr remark
        have same : before.counted.lineItem number line =
            (Node.ofComment line before.inBlock before.level number, before.counted.pass line) := by
          unfold lineItem
          rw [show before.counted.inBlock = before.inBlock from rfl, kind]
          rfl
        exact (congrArg Prod.fst item).symm.trans (congrArg Prod.fst same)
      obtain ⟨single, later⟩ := source.of_remark remark
      rw [passed, comment]
      exact ⟨[], held, rfl, (Node.comments_ofComment remark single _ _).series, later⟩
    · have noRemark : isRemark before.inBlock line = false := by simpa using remark
      obtain ⟨outside, first, second, rfl, code, later⟩ := source.of_code noRemark
      have bears := @itemBears_lineItem before.counted _ _ number code.toIsCode outside
      rw [item] at bears
      rw [passed, LineKind.blockAfter_of_not_isRemark noRemark, outside]
      exact ⟨first, second, rfl, .single_code bears, later⟩

/-- The items of a schema bear what its lines hide. -/
theorem series_itemsRun {before after : Reader} {number skip : Nat} {lines : List Text}
    {nodes : List Node} {held : Text} {state : Bool}
    (run : ItemsRun limits before number skip lines nodes after) (settled : before.setAside = [])
    (source : Text.SourceLines before.inBlock (lines.drop skip) held state) :
    Series Node.IsComment Node.ItemBears before.inBlock nodes held state := by
  induction run generalizing held with
  | done reader number skip =>
    rw [List.drop_nil] at source
    obtain ⟨rfl, same⟩ := source.of_nil
    rw [same]
    exact .done
  | skip later ih => exact ih settled source
  | item read later ih =>
    -- The comments set aside stand before the item, which leaves none of them behind.
    obtain ⟨early, late, rfl, items, source'⟩ := series_readItem read settled source
    have whole := items.append (ih rfl source')
    rwa [List.append_assoc] at whole

end Reader

end AsnLayout
