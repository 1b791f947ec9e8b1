import AsnLayout.Proofs.Blocks
import AsnLayout.Proofs.Spacing
import AsnLayout.Proofs.Trail

/-!
# Comments that are read

Every comment of a schema that has a tree is a cell of the tree, and comment lines that follow each
other are cells that follow each other.  A comment behind the opening brace of a definition is a
cell of that definition.
-/

set_option autoImplicit false

namespace AsnLayout

/-! ## Items -/

namespace Node

def itemTrail (node : Node) : List Cell :=
  if node.kind = .typeDefinition then
    if node.isPlain then [.slot (node.openingComment.getD [])]
    else if node.oneLine = some true then
      [.slot (node.openingComment.getD []), .slot (node.closingComment.getD [])]
    else node.groupTrail
  else [node.cell]

theorem itemTrail_of_several {node : Node} (defines : node.kind = .typeDefinition)
    (several : node.oneLine = some false) : node.itemTrail = node.groupTrail := by
  simp [itemTrail, isPlain, defines, several]

theorem itemTrail_of_line {node : Node} (single : node.kind ≠ .typeDefinition) :
    node.itemTrail = [node.cell] := if_neg single

@[simp]
theorem itemTrail_ofComment (line : Text) (blockLine : Bool) (level : Int) (number : Nat) :
    (ofComment line blockLine level number).itemTrail =
      [.note (if blockLine then line else Text.trimStart line) blockLine] := by
  rw [itemTrail_of_line (by simp [ofComment]), cell_ofComment]

end Node

/-! ## Lines of a body -/

namespace Body

namespace Progress

def Holds (cells : List Cell) : Progress → Prop
  | more body => body.Holds cells
  | closed node => Cell.Occur cells node.groupTrail

end Progress

/-- A line of code keeps what was read before it and adds its comment. -/
theorem holds_lineRun {limit : Int} {comment : Option Text} {number : Nat} {q : Quoting}
    {body : Body} {code : Text} {progress : Progress} {definition : Node}
    (run : LineRun limit comment number q body code progress)
    (sound : body.Sound blind definition) :
    (∀ cells, body.Holds cells → progress.Holds cells) ∧
      progress.Holds [.slot (comment.getD [])] := by
  induction run with
  | finish => exact keeps_endLine _ comment number sound
  | @close q top anchor rest node code settled closed =>
    obtain ⟨-, rfl⟩ := Body.closeDefinition_eq_ok.mp closed
    refine ⟨?_, .of_mem (.refl _) (List.mem_append_right _ (List.mem_singleton_self _))⟩
    rintro cells ⟨place, member, occur⟩
    have inTop : place ∈ top.places := by simpa [places] using member
    obtain ⟨other, inClosed, occur'⟩ := top.keptIn_close number sound.top place inTop
    rw [List.mem_singleton.mp inClosed] at occur'
    exact (occur.trans occur').widen (List.prefix_append _ _).isInfix
  | step taken later ih =>
    obtain ⟨kept, added⟩ := ih (Tally.body_step taken sound).2
    exact ⟨fun cells holds => kept cells (keeps_step taken sound cells holds), added⟩

theorem keeps_startLine (body : Body) : body.Keeps body.startLine :=
  keeps_top (OpenGroup.keptIn_of_occur (.refl _) (.refl _) (.refl _))

theorem holds_readLine {body : Body} {limit : Int} {line : CodeLine} {number : Nat}
    {progress : Progress} {definition : Node} (sound : body.Sound blind definition)
    (read : body.readLine limit line number = .ok progress) :
    (∀ cells, body.Holds cells → progress.Holds cells) ∧
      progress.Holds [.slot (line.comment.getD [])] := by
  obtain ⟨kept, added⟩ := holds_lineRun (lineRun_of_readCode _ _ _ _ _ _ _ read)
    (Tally.body_startLine body sound).2
  exact ⟨fun cells holds => kept cells (body.keeps_startLine cells holds), added⟩

end Body

/-! ## Passages -/

namespace Reader

def noteCells (inBlock : Bool) : List Text → List Cell
  | [] => []
  | line :: rest =>
    .note (if inBlock then line else Text.trimStart line) inBlock ::
      noteCells (LineKind.blockAfter inBlock line) rest

def allRemarks (inBlock : Bool) : List Text → Bool
  | [] => true
  | line :: rest => isRemark inBlock line && allRemarks (LineKind.blockAfter inBlock line) rest

/-- Lines that follow each other, and the cells that are to be read from them: comment lines, or a
line of code with its comment. -/
inductive Passage : Bool → List Text → List Cell → Prop where
  | remarks {inBlock : Bool} {first : Text} {later : List Text}
      (all : allRemarks inBlock (first :: later) = true) :
      Passage inBlock (first :: later) (noteCells inBlock (first :: later))
  | code {line : Text} (noComment : isRemark false line = false) :
      Passage false [line] [.slot ((Text.codeLine (Text.trim line)).comment.getD [])]

theorem Passage.ne_nil {inBlock : Bool} {passage : List Text} {cells : List Cell}
    (found : Passage inBlock passage cells) : passage ≠ [] := by
  cases found <;> simp

theorem comment_of_isBlankText {line : Text} (blank : Text.isBlankText line = true) :
    (Text.codeLine (Text.trim line)).comment = none := by
  rw [Text.trim_of_blank blank]
  rfl

theorem occur_slot_nil (node : Node) : Cell.Occur [.slot []] node.groupTrail :=
  (OpenGroup.occur_slot_nil node).widen (List.prefix_append _ _).isInfix

variable {limits : Limits}

/-! ### In a body -/

theorem occur_of_bodyRun {reader after : Reader} {body : Body} {number count : Nat}
    {lines : List Text} {node definition : Node} {cells : List Cell}
    (run : BodyRun limits reader body number lines node count after)
    (sound : body.Sound blind definition) (holds : body.Holds cells) :
    Cell.Occur cells node.groupTrail := by
  induction run with
  | comment room isComment later ih =>
    exact ih (Tally.body_readComment _ _ _ _ sound (fun _ => rfl)).2
      (Body.keeps_readComment _ _ _ _ cells holds)
  | blank room kind isBlank later ih => exact ih sound holds
  | code room kind noBlank read later ih =>
    have sound' := (Tally.progress_readLine _ _ _ _ _ sound (fun _ => rfl) read).2
    exact ih sound' ((Body.holds_readLine sound read).1 cells holds)
  | close room kind noBlank read => exact (Body.holds_readLine sound read).1 cells holds

theorem bodyRun_remarks {block behind : List Text} {reader after : Reader} {body : Body}
    {number count : Nat} {node definition : Node}
    (run : BodyRun limits reader body number (block ++ behind) node count after)
    (sound : body.Sound blind definition) (all : allRemarks reader.inBlock block = true) :
    ∃ reader' body' number' count', BodyRun limits reader' body' number' behind node count' after ∧
      body'.Sound blind definition ∧
      body'.nextPlace = body.nextPlace ++ noteCells reader.inBlock block := by
  induction block generalizing reader body number count with
  | nil => exact ⟨reader, body, number, count, run, sound, (List.append_nil _).symm⟩
  | cons line rest ih =>
    simp only [allRemarks, Bool.and_eq_true] at all
    have isComment := (LineKind.ofLine_eq_comment reader.inBlock line).mpr all.1
    have noCode : ∀ kind, LineKind.ofLine reader.inBlock line = kind →
        mayStandInBody kind = true → False := by
      rintro kind rfl stands
      rw [isComment] at stands
      cases stands
    cases run with
    | comment room _ later =>
      obtain ⟨reader', body', number', count', run', sound', place⟩ :=
        ih later (Tally.body_readComment _ _ _ _ sound (fun _ => rfl)).2 all.2
      refine ⟨reader', body', number', count', run', sound', ?_⟩
      rw [place, Body.nextPlace_readComment, List.append_assoc]
      rfl
    | blank room kind _ _ => exact (noCode _ rfl kind).elim
    | code room kind _ _ _ => exact (noCode _ rfl kind).elim
    | close room kind _ _ => exact (noCode _ rfl kind).elim

/-- A passage of a body is read into the definition. -/
theorem occur_passage_bodyRun {front passage behind : List Text} {reader after : Reader}
    {body : Body} {number count : Nat} {node definition : Node} {cells : List Cell}
    (run : BodyRun limits reader body number (front ++ (passage ++ behind)) node count after)
    (sound : body.Sound blind definition) (inside : front.length < count)
    (found : Passage (LineKind.blockAfterAll reader.inBlock front) passage cells) :
    Cell.Occur cells node.groupTrail := by
  induction front generalizing reader body number count with
  | nil =>
    rw [List.nil_append] at run
    change Passage reader.inBlock passage cells at found
    generalize state : reader.inBlock = inBlock at found
    cases found with
    | remarks all =>
      subst state
      obtain ⟨reader', body', number', count', run', sound', place⟩ := bodyRun_remarks run sound all
      refine occur_of_bodyRun run' sound' ⟨body'.nextPlace, body'.nextPlace_mem, ?_⟩
      rw [place]
      exact Cell.occur_of_isInfix (List.suffix_append _ _).isInfix
    | @code line noComment =>
      cases run with
      | comment room isComment later =>
        rw [LineKind.ofLine_eq_comment, state, noComment] at isComment
        cases isComment
      | blank room kind isBlank later =>
        rw [comment_of_isBlankText isBlank]
        exact occur_slot_nil node
      | code room kind noBlank read later =>
        have sound' := (Tally.progress_readLine _ _ _ _ _ sound (fun _ => rfl) read).2
        exact occur_of_bodyRun later sound' (Body.holds_readLine sound read).2
      | close room kind noBlank read => exact (Body.holds_readLine sound read).2
  | cons first rest ih =>
    simp only [List.length_cons] at inside
    cases run with
    | comment room isComment later =>
      exact ih later (Tally.body_readComment _ _ _ _ sound (fun _ => rfl)).2 (by omega) found
    | blank room kind isBlank later => exact ih later sound (by omega) found
    | code room kind noBlank read later =>
      have sound' := (Tally.progress_readLine _ _ _ _ _ sound (fun _ => rfl) read).2
      exact ih later sound' (by omega) found
    | close room kind noBlank read => omega

/-! ### Before a type -/

theorem prefix_setAside_codeRun {reader after : Reader} {number count : Nat} {lines : List Text}
    {code : CodeLine} (run : CodeRun limits reader number lines code count after) :
    reader.setAside.flatMap Node.itemTrail <+: after.setAside.flatMap Node.itemTrail := by
  induction run with
  | comment room isComment later ih =>
    refine List.IsPrefix.trans ?_ ih
    change _ <+: (_ ++ [_]).flatMap Node.itemTrail
    rw [List.flatMap_append]
    exact List.prefix_append _ _
  | blank room noComment isBlank later ih => exact ih
  | code room noComment noBlank noSign => exact List.prefix_refl _

theorem codeRun_remarks {block behind : List Text} {reader after : Reader} {number count : Nat}
    {code : CodeLine} (run : CodeRun limits reader number (block ++ behind) code count after)
    (all : allRemarks reader.inBlock block = true) :
    ∃ reader' number' count', CodeRun limits reader' number' behind code count' after ∧
      reader'.setAside.flatMap Node.itemTrail =
        reader.setAside.flatMap Node.itemTrail ++ noteCells reader.inBlock block := by
  induction block generalizing reader number count with
  | nil => exact ⟨reader, number, count, run, (List.append_nil _).symm⟩
  | cons line rest ih =>
    simp only [allRemarks, Bool.and_eq_true] at all
    cases run with
    | comment room isComment later =>
      obtain ⟨reader', number', count', run', aside⟩ := ih later all.2
      refine ⟨reader', number', count', run', ?_⟩
      rw [aside]
      change (_ ++ [_]).flatMap Node.itemTrail ++ _ = _
      rw [List.flatMap_append, List.append_assoc, List.flatMap_singleton, Node.itemTrail_ofComment]
      rfl
    | blank room noComment isBlank later =>
      rw [all.1] at noComment
      cases noComment
    | code room noComment noBlank noSign =>
      rw [all.1] at noComment
      cases noComment

/-- A passage before the next line of code is put aside, or is the comment of that line. -/
theorem occur_passage_codeRun {front passage behind : List Text} {reader after : Reader}
    {number count : Nat} {code : CodeLine} {cells : List Cell}
    (run : CodeRun limits reader number (front ++ (passage ++ behind)) code count after)
    (inside : front.length < count)
    (found : Passage (LineKind.blockAfterAll reader.inBlock front) passage cells) :
    Cell.Occur cells (after.setAside.flatMap Node.itemTrail) ∨
      Cell.Occur cells [.slot (code.comment.getD [])] := by
  induction front generalizing reader number count with
  | nil =>
    rw [List.nil_append] at run
    change Passage reader.inBlock passage cells at found
    generalize state : reader.inBlock = inBlock at found
    cases found with
    | remarks all =>
      subst state
      obtain ⟨reader', number', count', run', aside⟩ := codeRun_remarks run all
      have grown := prefix_setAside_codeRun run'
      rw [aside] at grown
      exact .inl (Cell.occur_of_isInfix ((List.suffix_append _ _).isInfix.trans grown.isInfix))
    | @code line noComment =>
      cases run with
      | comment room isComment later =>
        rw [state, noComment] at isComment
        cases isComment
      | blank room _ isBlank later =>
        rw [comment_of_isBlankText isBlank]
        exact .inr (.of_mem (.slot (Text.shows_nil _)) (List.mem_singleton_self _))
      | code room _ noBlank noSign => exact .inr (.refl _)
  | cons first rest ih =>
    simp only [List.length_cons] at inside
    cases run with
    | comment room isComment later => exact ih later (by omega) found
    | blank room noComment isBlank later =>
      refine ih later (by omega) ?_
      rwa [LineKind.blockAfterAll, List.foldl_cons,
        LineKind.blockAfter_of_not_isRemark noComment] at found
    | code room noComment noBlank noSign => omega

def TypeKept (inBlock : Bool) (rest : List Text) (reader : Reader) (type : TypeText) : Prop :=
  ∀ front passage behind cells, rest = front ++ (passage ++ behind) → front.length < type.count →
    Passage (LineKind.blockAfterAll inBlock front) passage cells →
    Cell.Occur cells (reader.setAside.flatMap Node.itemTrail) ∨
      Cell.Occur cells [.slot (type.comment.getD [])]

theorem TypeKept.extend {inBlock : Bool} {rest : List Text} {before after : Reader}
    {type : TypeText} {number count : Nat} {line : CodeLine}
    (kept : TypeKept inBlock rest before type)
    (state : before.inBlock = LineKind.blockAfterAll inBlock (rest.take type.count))
    (run : CodeRun limits before number (rest.drop type.count) line count after) :
    TypeKept inBlock rest after (type.extend line count) := by
  intro front passage behind cells cut inside found
  have inside : front.length < type.count + count := inside
  by_cases early : front.length < type.count
  · rcases kept front passage behind cells cut early found with aside | comment
    · exact .inl (aside.widen (prefix_setAside_codeRun run).isInfix)
    · refine .inr (comment.trans (.of_mem (.slot ?_) (List.mem_singleton_self _)))
      exact Text.shows_bothComments_left _ _
  · -- The passage stands in the lines that were read now.
    have late : type.count ≤ front.length := Nat.le_of_not_lt early
    rw [cut, List.drop_append_of_le_length late] at run
    have state' := blockAfterAll_drop state cut late
    have inside' : (front.drop type.count).length < count := by
      rw [List.length_drop]
      omega
    rw [← state'] at found
    rcases occur_passage_codeRun run inside' found with aside | comment
    · exact .inl aside
    · refine .inr (comment.trans (.of_mem (.slot ?_) (List.mem_singleton_self _)))
      exact Text.shows_bothComments_right _ _

theorem typeKept_readType {definition : Nat} {type result : TypeText} {rest : List Text}
    {before after : Reader} {inBlock : Bool}
    (read : Reading.Yields (readType limits definition type rest) before result after)
    (state : before.inBlock = LineKind.blockAfterAll inBlock (rest.take type.count))
    (kept : TypeKept inBlock rest before type) :
    TypeKept inBlock rest after result ∧
      Text.Shows (result.comment.getD []) (type.comment.getD []) := by
  have along := readType_induct (motive := fun reader other =>
    reader.inBlock = LineKind.blockAfterAll inBlock (rest.take other.count) ∧
      TypeKept inBlock rest reader other ∧
      Text.Shows (other.comment.getD []) (type.comment.getD [])) read
    ⟨state, kept, Text.Shows.of_isInfix (List.infix_refl _)⟩ (by
      intro other reader between number count line ⟨state, kept, shown⟩ run
      refine ⟨inBlock_extend state run, kept.extend state run, shown.trans ?_⟩
      exact Text.shows_bothComments_left _ _)
  exact along.2

end Reader

/-! ### In a definition -/

theorem Body.holds_start {node : Node} {limit : Int} {first : Text} {progress : Body.Progress}
    (bare : node.children = [] ∧ node.trailer = [] ∧ node.closingComment = none)
    (started : Body.start node limit first = .ok progress) :
    progress.Holds [.slot (node.openingComment.getD [])] := by
  rcases Body.lineRun_of_start started with ⟨-, rfl⟩ | run
  · exact Body.holds_begun (.of_mem (.refl _) (List.mem_cons_self ..))
  · have begins : Body.Sound blind node
        { top := { node := { node with openingComment := none } }, anchor := .opening } :=
      Tally.sound_opened _ _ bare.2.1 bare.2.2 rfl (by simp)
    exact (Body.holds_lineRun run begins).2

namespace Reader

variable {limits : Limits}

/-- The group of a definition takes in the comment of its type and the passages of its body. -/
theorem occur_groupRun {number count : Nat} {rest : List Text} {reader before after : Reader}
    {line : Text} {type : TypeText} {result : Node} {inBlock : Bool}
    (run : GroupRun limits number rest (definitionNode reader number line type) type before result
      count after)
    (state : before.inBlock = LineKind.blockAfterAll inBlock (rest.take type.count)) :
    after.setAside = before.setAside ∧
      Cell.Occur [.slot (type.comment.getD [])] result.itemTrail ∧
      ∀ front passage behind cells, rest = front ++ (passage ++ behind) →
        type.count ≤ front.length → front.length < count →
        Passage (LineKind.blockAfterAll inBlock front) passage cells →
        Cell.Occur cells result.itemTrail := by
  unfold GroupRun at run
  split at run
  · obtain ⟨rfl, rfl, rfl⟩ := run
    refine ⟨rfl, .refl _, ?_⟩
    intro front passage behind cells cut late inside found
    omega
  · rename_i header first shape
    obtain ⟨progress, started, later⟩ := run
    have sound : progress.Sound blind (openedNode (definitionNode reader number line type) type
        header) :=
      (Tally.progress_start _ _ _ progress ⟨rfl, rfl, rfl⟩ (fun _ => rfl) started).2
    have holds := Body.holds_start ⟨rfl, rfl, rfl⟩ started
    -- Reading the group leaves the node a definition of several lines.
    have whole : ∀ node : Node, node.head = (openedNode (definitionNode reader number line type)
        type header).head → node.itemTrail = node.groupTrail := by
      intro node same
      simp only [Node.head, Prod.mk.injEq] at same
      exact Node.itemTrail_of_several same.1 same.2.2
    cases progress with
    | closed node =>
      obtain ⟨rfl, rfl, rfl⟩ := later
      rw [whole node sound]
      refine ⟨rfl, holds, ?_⟩
      intro front passage behind cells cut late inside found
      omega
    | more body =>
      obtain ⟨more, bodyRun, rfl⟩ := later
      obtain ⟨-, same, aside, -⟩ := Tally.text_bodyRun bodyRun (.inl fun _ _ => rfl) sound
      rw [whole result same]
      refine ⟨aside, occur_of_bodyRun bodyRun sound holds, ?_⟩
      intro front passage behind cells cut late inside found
      rw [cut, List.drop_append_of_le_length late] at bodyRun
      refine occur_passage_bodyRun bodyRun sound ?_ ?_
      · rw [List.length_drop]
        omega
      · rwa [blockAfterAll_drop state cut late]
  · obtain ⟨rfl, rfl, rfl⟩ := run
    refine ⟨rfl, ?_, ?_⟩
    · rename_i header inside trailer shape
      obtain ⟨-, -, -, -, -, structured⟩ := shapeOf_eq_inline _ _ _ _ shape
      refine .of_mem (.refl _) ?_
      simp [Node.itemTrail, Node.isPlain, inlineNode, definitionNode, Node.isStructured, structured]
    · intro front passage behind cells cut late inside found
      omega
  · exact run.elim

/-- What is read of a definition holds its comments, apart from those that are put aside. -/
theorem occur_readDefinition {number count : Nat} {line : Text} {rest : List Text}
    {before after : Reader} {node : Node}
    (read : Reading.Yields (readDefinition limits number line rest) before (node, count) after) :
    Cell.Occur [.slot ((Text.codeLine (Text.trim line)).comment.getD [])] node.itemTrail ∧
      ∀ front passage behind cells, rest = front ++ (passage ++ behind) → front.length < count →
        Passage (LineKind.blockAfterAll before.inBlock front) passage cells →
        Cell.Occur cells (after.setAside.flatMap Node.itemTrail) ∨
          Cell.Occur cells node.itemTrail := by
  rw [yields_readDefinition] at read
  obtain ⟨-, type, between, readType, run⟩ := read
  have state := inBlock_readType readType (show before.inBlock =
    LineKind.blockAfterAll before.inBlock (rest.take (firstType line).count) from rfl)
  have start : TypeKept before.inBlock rest before (firstType line) := by
    intro front passage behind cells cut inside found
    cases inside
  obtain ⟨kept, shown⟩ := typeKept_readType readType rfl start
  obtain ⟨aside, comment, body⟩ := occur_groupRun run state
  rw [aside]
  refine ⟨.trans (.of_mem (.slot shown) (List.mem_singleton_self _)) comment, ?_⟩
  intro front passage behind cells cut inside found
  by_cases early : front.length < type.count
  · rcases kept front passage behind cells cut early found with set | behindType
    · exact .inl set
    · exact .inr (behindType.trans comment)
  · exact .inr (body front passage behind cells cut (Nat.le_of_not_lt early) inside found)

/-! ### Among the items -/

theorem cell_lineItem (reader : Reader) (number : Nat) (line : Text)
    (noComment : isRemark reader.inBlock line = false) :
    Cell.Occur [.slot ((Text.codeLine (Text.trim line)).comment.getD [])]
      [(reader.lineItem number line).1.cell] := by
  have kind : LineKind.ofLine reader.inBlock line ≠ .comment := by
    rw [ne_eq, LineKind.ofLine_eq_comment, noComment]
    simp
  have shown := Text.shows_beside (Text.neat (Text.codeLine (Text.trim line)).code)
    (Text.codeLine (Text.trim line)).comment
  refine .of_mem (.slot shown) (List.mem_singleton.mpr ?_)
  unfold lineItem
  cases found : LineKind.ofLine reader.inBlock line with
  | comment => exact absurd found kind
  | moduleHeader =>
    simp only
    split <;> simp [Node.cell, itemNode, Text.neatLine]
  | blockBegin | blockEnd | typeDefinition | field | other =>
    simp [Node.cell, itemNode, Text.neatLine]

theorem itemsRun_remarks {block behind : List Text} {reader after : Reader} {number : Nat}
    {nodes : List Node} (run : ItemsRun limits reader number 0 (block ++ behind) nodes after)
    (settled : reader.setAside = []) (all : allRemarks reader.inBlock block = true) :
    ∃ later, nodes.flatMap Node.itemTrail = noteCells reader.inBlock block ++ later := by
  induction block generalizing reader number nodes with
  | nil => exact ⟨_, rfl⟩
  | cons line rest ih =>
    simp only [allRemarks, Bool.and_eq_true] at all
    have isComment := (LineKind.ofLine_eq_comment reader.inBlock line).mpr all.1
    cases run with
    | item read later =>
      rw [yields_readItem, if_neg (by simp [isComment])] at read
      obtain ⟨-, item, rfl⟩ := read
      have comment : reader.counted.lineItem number line =
          (Node.ofComment line reader.inBlock reader.level number, reader.counted.pass line) := by
        have isComment' : LineKind.ofLine reader.counted.inBlock line = .comment := isComment
        unfold lineItem
        rw [isComment']
        rfl
      rw [comment] at item
      cases item
      obtain ⟨others, rest⟩ := ih later rfl all.2
      refine ⟨others, ?_⟩
      have aside : (reader.counted.pass line).setAside = [] := settled
      rw [aside, List.nil_append, List.flatMap_cons, rest, Node.itemTrail_ofComment]
      rfl

theorem occur_first_passage {lines passage behind : List Text} {before after : Reader}
    {number : Nat} {nodes : List Node} {cells : List Cell}
    (run : ItemsRun limits before number 0 lines nodes after) (cut : lines = passage ++ behind)
    (settled : before.setAside = []) (found : Passage before.inBlock passage cells) :
    Cell.Occur cells (nodes.flatMap Node.itemTrail) := by
  generalize state : before.inBlock = inBlock at found
  cases found with
  | remarks all =>
    subst state cut
    obtain ⟨later, first⟩ := itemsRun_remarks run settled all
    rw [first]
    exact Cell.occur_of_isInfix (List.prefix_append _ _).isInfix
  | @code line noComment =>
    subst cut
    cases run with
    | @item _ between _ _ count _ _ node others read later =>
      have occur : Cell.Occur [.slot ((Text.codeLine (Text.trim line)).comment.getD [])]
          node.itemTrail := by
        rw [yields_readItem] at read
        obtain ⟨-, read⟩ := read
        split at read
        · exact (occur_readDefinition read).1
        · obtain ⟨item, -⟩ := read
          have kept := Tally.lineItem_kept blind before.counted number line
          have shown := before.counted.cell_lineItem number line (by rw [← noComment, ← state]; rfl)
          rw [item] at kept shown
          rw [Node.itemTrail_of_line kept.1]
          exact shown
      rw [List.flatMap_append, List.flatMap_cons]
      exact occur.widen ((List.prefix_append _ _).isInfix.trans (List.suffix_append _ _).isInfix)

theorem occur_passage_itemsRun {lines front passage behind : List Text} {before after : Reader}
    {number skip : Nat} {nodes : List Node} {cells : List Cell}
    (run : ItemsRun limits before number skip lines nodes after)
    (cut : lines = front ++ (passage ++ behind)) (settled : before.setAside = [])
    (skipped : skip ≤ front.length)
    (found : Passage (LineKind.blockAfterAll before.inBlock (front.drop skip)) passage cells) :
    Cell.Occur cells (nodes.flatMap Node.itemTrail) := by
  induction run generalizing front with
  | done reader number skip =>
    have empty := (List.append_eq_nil_iff.mp cut.symm).2
    exact absurd (List.append_eq_nil_iff.mp empty).1 found.ne_nil
  | @skip before after number skip line rest nodes later ih =>
    cases front with
    | nil => cases skipped
    | cons first front =>
      cases cut
      exact ih rfl settled (Nat.le_of_succ_le_succ skipped) found
  | @item before between after number count line rest node nodes read later ih =>
    cases front with
    | nil =>
      rw [List.nil_append] at cut
      exact occur_first_passage (.item read later) cut settled found
    | cons first front =>
      cases cut
      rw [List.flatMap_append, List.flatMap_cons]
      by_cases late : count ≤ front.length
      · -- The passage stands behind the item.
        have state : LineKind.blockAfterAll between.inBlock (front.drop count) =
            LineKind.blockAfterAll before.inBlock (line :: front) := by
          have passed := inBlock_readItem read
          rw [← List.take_succ_cons] at passed
          have same := blockAfterAll_drop passed
            (show _ = (line :: front) ++ (passage ++ behind) from rfl) (Nat.succ_le_succ late)
          rwa [List.drop_succ_cons] at same
        rw [List.drop_zero, ← state] at found
        have occur := ih rfl rfl late found
        exact occur.widen ((List.suffix_append _ _).isInfix.trans (List.suffix_append _ _).isInfix)
      · rw [yields_readItem] at read
        obtain ⟨-, read⟩ := read
        split at read
        · rcases (occur_readDefinition read).2 front passage behind cells rfl (by omega) found with
            aside | inNode
          · exact aside.widen (List.prefix_append _ _).isInfix
          · exact inNode.widen
              ((List.prefix_append _ _).isInfix.trans (List.suffix_append _ _).isInfix)
        · omega

end Reader

end AsnLayout
