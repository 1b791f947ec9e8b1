import AsnLayout.Proofs.Bare
import AsnLayout.Proofs.Kept

/-!
# Formatting keeps the tally

The items of a schema have the tally of its lines, each line being read once, and so has the layout
of their tree; a schema without a tree is re-indented, which changes blanks only.
-/

set_option autoImplicit false

namespace AsnLayout

/-! ## Comments that may move -/

theorem LineKind.ofLine_eq_comment (inBlock : Bool) (line : Text) :
    LineKind.ofLine inBlock line = .comment ↔ Reader.isRemark inBlock line = true := by
  unfold LineKind.ofLine Reader.isRemark
  split
  · rename_i remark
    simp [remark]
  · rename_i code
    simp only [code]
    unfold Text.codeKind
    repeat' split
    all_goals simp

namespace Tally

variable {M : Type} [Monoid M] (tally : Tally M)

/-- The order of characters does not matter, or there is no comment among the lines. -/
def Orderly (inBlock : Bool) (lines : List Text) : Prop :=
  (∀ t, tally.Moves t) ∨ (inBlock = false ∧ ∀ line ∈ lines, Text.Uncommented line)

variable {tally} {inBlock : Bool} {line : Text} {rest : List Text}

theorem Orderly.tail (orderly : tally.Orderly inBlock (line :: rest)) :
    tally.Orderly inBlock rest := by
  rcases orderly with moves | ⟨closed, uncommented⟩
  · exact .inl moves
  · exact .inr ⟨closed, fun other member => uncommented other (List.mem_cons_of_mem line member)⟩

theorem Orderly.pass (orderly : tally.Orderly inBlock (line :: rest)) :
    tally.Orderly (LineKind.blockAfter inBlock line) rest := by
  rcases orderly with moves | ⟨rfl, uncommented⟩
  · exact .inl moves
  · refine .inr ⟨?_, fun other member => uncommented other (List.mem_cons_of_mem line member)⟩
    have noBlock := (uncommented line (List.mem_cons_self ..)).2.1
    simp [LineKind.blockAfter, Text.leavesBlockOpen, noBlock]

theorem Orderly.moves (orderly : tally.Orderly inBlock (line :: rest))
    (remark : Reader.isRemark inBlock line = true) : tally.Moves line := by
  rcases orderly with moves | ⟨rfl, uncommented⟩
  · exact moves line
  · obtain ⟨noComment, noBlock, -⟩ := uncommented line (List.mem_cons_self ..)
    simp [Reader.isRemark, noComment, noBlock] at remark

theorem Orderly.comment (orderly : tally.Orderly inBlock (line :: rest)) :
    tally.RemarkMoves (Text.codeLine (Text.trim line)).comment := by
  rcases orderly with moves | ⟨-, uncommented⟩
  · exact moves _
  · rw [(uncommented line (List.mem_cons_self ..)).2.2]
    exact moves_nil

/-! ## Bodies -/

theorem text_bodyRun {limits : Limits} {reader after : Reader} {body : Body} {number : Nat}
    {lines : List Text} {node definition : Node} {count : Nat}
    (run : Reader.BodyRun limits reader body number lines node count after)
    (orderly : tally.Orderly reader.inBlock lines) (sound : body.Sound tally definition) :
    tally.text (node.framed node.body) = tally.body body * tally.texts (lines.take count) ∧
      node.head = definition.head ∧ after.setAside = reader.setAside ∧
      tally.Orderly after.inBlock (lines.drop count) := by
  induction run with
  | @comment reader body number line rest node count after room isComment later ih =>
    have moves := orderly.moves ((LineKind.ofLine_eq_comment ..).mp isComment)
    obtain ⟨kept, sound'⟩ := body_readComment body line reader.inBlock number sound moves
    obtain ⟨ended, same, aside, orderly'⟩ := ih orderly.pass sound'
    refine ⟨?_, same, aside, orderly'⟩
    rw [ended, kept, List.take_succ_cons, texts_cons, mul_assoc]
  | @blank reader body number line rest node count after room kind isBlank later ih =>
    obtain ⟨ended, same, aside, orderly'⟩ := ih orderly.pass sound
    refine ⟨?_, same, aside, orderly'⟩
    rw [ended, List.take_succ_cons, texts_cons, tally.text_of_isBlankText line isBlank, one_mul]
  | @code reader body next number line rest node count after room kind noBlank read later ih =>
    obtain ⟨kept, sound'⟩ := progress_readLine body _ _ number _ sound orderly.comment read
    obtain ⟨ended, same, aside, orderly'⟩ := ih orderly.pass sound'
    refine ⟨?_, same, aside, orderly'⟩
    rw [mul_assoc, text_codeLine, text_trim] at kept
    have kept : tally.body next = tally.body body * tally.text line := kept
    rw [ended, kept, List.take_succ_cons, texts_cons, mul_assoc]
  | @close reader body number line rest node room kind noBlank read =>
    obtain ⟨kept, same⟩ := progress_readLine body _ _ number _ sound orderly.comment read
    refine ⟨?_, same, rfl, orderly.pass⟩
    rw [mul_assoc, text_codeLine, text_trim] at kept
    have kept : tally.text (node.framed node.body) = tally.body body * tally.text line := kept
    rw [kept, List.take_succ_cons, texts_cons]
    simp

/-! ## Types -/

variable (tally) in
def typeRead (reader : Reader) (type : Reader.TypeText) : M :=
  tally.text (Node.contents reader.setAside) * tally.text type.code * tally.remark type.comment

def TypeMoves (tally : Tally M) (reader : Reader) (type : Reader.TypeText) : Prop :=
  tally.Remarks reader.setAside ∧ tally.RemarkMoves type.comment

theorem text_codeRun {limits : Limits} {reader after : Reader} {number count : Nat}
    {lines : List Text} {code : CodeLine}
    (run : Reader.CodeRun limits reader number lines code count after)
    (orderly : tally.Orderly reader.inBlock lines) (remarks : tally.Remarks reader.setAside) :
    tally.text (Node.contents after.setAside) * tally.text code.code * tally.remark code.comment =
        tally.text (Node.contents reader.setAside) * tally.texts (lines.take count) ∧
      tally.Remarks after.setAside ∧ tally.RemarkMoves code.comment ∧
      tally.Orderly after.inBlock (lines.drop count) := by
  induction run with
  | @comment reader number line rest code count after room isComment later ih =>
    have moves := orderly.moves isComment
    have aside := moves.remarks_ofComment reader.inBlock reader.level number
    obtain ⟨kept, remarks', comment, orderly'⟩ := ih orderly.pass (remarks.append aside)
    refine ⟨?_, remarks', comment, orderly'⟩
    have put : Node.contents ((reader.counted.putAside line number).pass line).setAside =
        Node.contents reader.setAside ++
          (Node.ofComment line reader.inBlock reader.level number).content := by
      simp [Reader.pass, Reader.putAside, Reader.counted, Node.contents]
    rw [kept, put, text_append, text_content_ofComment, List.take_succ_cons, texts_cons, mul_assoc]
  | @blank reader number line rest code count after room noComment isBlank later ih =>
    obtain ⟨kept, remarks', comment, orderly'⟩ := ih orderly.tail remarks
    refine ⟨?_, remarks', comment, orderly'⟩
    rw [kept, List.take_succ_cons, texts_cons, tally.text_of_isBlankText line isBlank, one_mul]
    rfl
  | @code reader number line rest room noComment noBlank noSign =>
    refine ⟨?_, remarks, orderly.comment, orderly.tail⟩
    rw [mul_assoc, text_codeLine, text_trim, List.take_succ_cons, texts_cons]
    simp [Reader.counted]

theorem typeRead_extend {limits : Limits} {before after : Reader} {type : Reader.TypeText}
    {rest : List Text} {number count : Nat} {line : CodeLine}
    (run : Reader.CodeRun limits before number (rest.drop type.count) line count after)
    (orderly : tally.Orderly before.inBlock (rest.drop type.count))
    (moves : tally.TypeMoves before type) :
    tally.typeRead after (type.extend line count) =
        tally.typeRead before type * tally.texts ((rest.drop type.count).take count) ∧
      tally.TypeMoves after (type.extend line count) ∧
      tally.Orderly after.inBlock (rest.drop (type.extend line count).count) := by
  obtain ⟨kept, remarks, comment, orderly'⟩ := text_codeRun run orderly moves.1
  refine ⟨?_, ⟨remarks, moves.2.both comment⟩, ?_⟩
  · have code : tally.text (type.extend line count).code =
        tally.text type.code * tally.text line.code := by
      unfold Reader.TypeText.extend
      split
      · rename_i empty
        simp [empty]
      · simp
    have comments : tally.remark (type.extend line count).comment =
        tally.remark type.comment * tally.remark line.comment :=
      tally.remark_bothComments type.comment line.comment
    have aside : ∀ m : M, tally.text (Node.contents after.setAside) * m =
        m * tally.text (Node.contents after.setAside) := remarks.moves
    have given := moves.1.moves
    have behind : ∀ m : M, tally.remark type.comment * m = m * tally.remark type.comment := moves.2
    simp only [typeRead, code, comments]
    generalize tally.text (Node.contents after.setAside) = put at *
    calc put * (tally.text type.code * tally.text line.code) *
          (tally.remark type.comment * tally.remark line.comment)
        = put * tally.text type.code * (tally.text line.code * tally.remark type.comment) *
            tally.remark line.comment := by simp only [mul_assoc]
      _ = tally.text type.code * put * (tally.remark type.comment * tally.text line.code) *
            tally.remark line.comment := by rw [aside, behind]
      _ = tally.text type.code * (put * tally.remark type.comment) * tally.text line.code *
            tally.remark line.comment := by simp only [mul_assoc]
      _ = tally.text type.code * tally.remark type.comment *
            (put * tally.text line.code * tally.remark line.comment) := by
          rw [aside]
          simp only [mul_assoc]
      _ = tally.text type.code * tally.remark type.comment *
            tally.text (Node.contents before.setAside) *
            tally.texts ((rest.drop type.count).take count) := by
          rw [kept]
          simp only [mul_assoc]
      _ = tally.text (Node.contents before.setAside) * tally.text type.code *
            tally.remark type.comment * tally.texts ((rest.drop type.count).take count) := by
          rw [← given]
          simp only [mul_assoc]
  · rw [List.drop_drop] at orderly'
    exact orderly'

theorem typeRead_readType {limits : Limits} {definition : Nat} {type result : Reader.TypeText}
    {rest : List Text} {before after : Reader}
    (read : Reading.Yields (Reader.readType limits definition type rest) before result after)
    (orderly : tally.Orderly before.inBlock (rest.drop type.count))
    (moves : tally.TypeMoves before type) :
    type.count ≤ result.count ∧
      tally.typeRead after result = tally.typeRead before type *
        tally.texts ((rest.drop type.count).take (result.count - type.count)) ∧
      tally.TypeMoves after result ∧ tally.Orderly after.inBlock (rest.drop result.count) := by
  -- Each of the two steps reads on, or leaves the type as it is.
  have step : ∀ (given grown : Reader.TypeText) (from_ to_ : Reader) (wanted : Bool),
      type.count ≤ given.count →
      tally.typeRead from_ given = tally.typeRead before type *
        tally.texts ((rest.drop type.count).take (given.count - type.count)) →
      tally.TypeMoves from_ given → tally.Orderly from_.inBlock (rest.drop given.count) →
      (if wanted then ∃ line count, Reader.CodeRun limits from_ (definition + 1 + given.count)
          (rest.drop given.count) line count to_ ∧ given.extend line count = grown
        else grown = given ∧ to_ = from_) →
      type.count ≤ grown.count ∧
        tally.typeRead to_ grown = tally.typeRead before type *
          tally.texts ((rest.drop type.count).take (grown.count - type.count)) ∧
        tally.TypeMoves to_ grown ∧ tally.Orderly to_.inBlock (rest.drop grown.count) := by
    intro given grown from_ to_ wanted counted kept moves orderly stepped
    split at stepped
    · obtain ⟨line, count, run, rfl⟩ := stepped
      obtain ⟨kept', moves', orderly'⟩ := typeRead_extend run orderly moves
      have total : (given.extend line count).count = given.count + count := rfl
      refine ⟨?_, ?_, moves', orderly'⟩
      · omega
      · have sum : given.count + count - type.count = (given.count - type.count) + count := by
          omega
        have behind : (rest.drop type.count).drop (given.count - type.count) =
            rest.drop given.count := by
          rw [List.drop_drop, Nat.add_sub_cancel' counted]
        rw [kept', kept, total, sum, List.take_add, behind, texts_append, mul_assoc]
    · obtain ⟨rfl, rfl⟩ := stepped
      exact ⟨counted, kept, moves, orderly⟩
  rw [Reader.yields_readType] at read
  obtain ⟨first, between, toCode, toBrace⟩ := read
  obtain ⟨counted, kept, moves', orderly'⟩ := step type first before between
    (decide (type.code = [])) le_rfl (by simp) moves orderly (by simpa using toCode)
  exact step first result between after _ counted kept moves' orderly' toBrace

/-! ## Definitions -/

end Tally

namespace Reader

theorem shapeOf_eq_opened (code header first : Text) (shape : shapeOf code = .opened header first) :
    ∃ front, code = front ++ '{' :: first ∧
      Text.findExposed? code (· = '{') = some front.length ∧ header = Text.neat front ∧
      Text.groupEnd? first = none := by
  unfold shapeOf at shape
  split at shape
  · cases shape
  rename_i brace opens
  obtain ⟨front, c, rest, rfl, rfl, isBrace⟩ := Text.findExposed?_eq_some _ _ _ opens
  have isBrace : c = '{' := by simpa using isBrace
  subst isBrace
  have before : (front ++ '{' :: rest).take front.length = front := by simp
  have behind : (front ++ '{' :: rest).drop (front.length + 1) = rest := by simp
  simp only [before, behind] at shape
  split at shape
  · rename_i leftOpen
    cases shape
    exact ⟨front, rfl, opens, rfl, leftOpen⟩
  · split at shape
    · cases shape
    · split at shape <;> cases shape

theorem shapeOf_eq_inline (code header inside trailer : Text)
    (shape : shapeOf code = .inline header inside trailer) :
    ∃ front, code = front ++ '{' :: (inside ++ '}' :: trailer) ∧
      Text.findExposed? code (· = '{') = some front.length ∧ header = Text.neat front ∧
      Text.groupEnd? (inside ++ '}' :: trailer) = some inside.length ∧
      (GroupKind.ofHeader header).isStructured = true := by
  unfold shapeOf at shape
  split at shape
  · cases shape
  rename_i brace opens
  obtain ⟨front, c, rest, rfl, rfl, isBrace⟩ := Text.findExposed?_eq_some _ _ _ opens
  have isBrace : c = '{' := by simpa using isBrace
  subst isBrace
  have before : (front ++ '{' :: rest).take front.length = front := by simp
  have behind : (front ++ '{' :: rest).drop (front.length + 1) = rest := by simp
  simp only [before, behind] at shape
  split at shape
  · cases shape
  rename_i close closes
  obtain ⟨inside', after, rfl, rfl⟩ := Text.groupEnd?_eq_some _ _ closes
  have within : (inside' ++ '}' :: after).take inside'.length = inside' := by simp
  have beyond : (inside' ++ '}' :: after).drop (inside'.length + 1) = after := by simp
  simp only [within, beyond] at shape
  split at shape
  · cases shape
  split at shape
  · cases shape
  · rename_i structured
    cases shape
    refine ⟨front, rfl, opens, rfl, closes, ?_⟩
    simp only [Bool.or_eq_true, not_or] at structured
    simpa using structured.2

/-- The inside of a structured group that closes on the lines of its type is of a class. -/
def InlineIn (good : Text → Prop) (code : Text) : Prop :=
  ∀ header inside trailer, shapeOf code = .inline header inside trailer → good inside

end Reader

namespace Tally

variable {M : Type} [Monoid M] {tally : Tally M} {good : Text → Prop}

/-- A definition whose group spans lines is written as its name, the sign and the group. -/
theorem writtenItem_of_head (node : Node) (name : Text)
    (same : node.head = (.typeDefinition, name, some false)) :
    node.writtenItem = name ++ "::=".toList ++ node.framed node.body := by
  simp only [Node.head, Prod.mk.injEq] at same
  obtain ⟨kind, rfl, several⟩ := same
  have noPlain : node.isPlain = false := by simp [Node.isPlain, several]
  rw [Node.writtenItem, if_pos kind, if_neg (by simp [noPlain]), if_neg (by simp [several])]

theorem writtenItem_of_oneLine (node : Node) (kind : node.kind = .typeDefinition)
    (oneLine : node.oneLine = some true) :
    node.writtenItem = node.name ++ "::=".toList ++
      if node.isStructured then node.framed (node.inlineMembers.getD []).flatten
      else node.header.getD [] ++ node.openingComment.getD [] := by
  rw [Node.writtenItem, if_pos kind, if_pos oneLine]
  cases structured : node.isStructured with
  | true => simp [Node.isPlain, oneLine, structured]
  | false => simp [Node.isPlain, oneLine, structured]

theorem text_groupRun {limits : Limits} {number : Nat} {rest : List Text}
    {reader before after : Reader} {line : Text} {type : Reader.TypeText} {result : Node}
    {count : Nat}
    (run : Reader.GroupRun limits number rest (Reader.definitionNode reader number line type) type
      before result count after)
    (cuttable : tally.Cuttable good) (inlineIn : Reader.InlineIn good type.code)
    (orderly : tally.Orderly before.inBlock (rest.drop type.count))
    (moves : tally.RemarkMoves type.comment) :
    type.count ≤ count ∧ after.setAside = before.setAside ∧
      tally.Orderly after.inBlock (rest.drop count) ∧
      tally.text result.writtenItem =
        tally.text (Reader.definitionName line) * tally.text "::=".toList *
          (tally.text type.code * tally.remark type.comment *
            tally.texts ((rest.drop type.count).take (count - type.count))) := by
  unfold Reader.GroupRun at run
  split at run
  · obtain ⟨rfl, rfl, rfl⟩ := run
    refine ⟨le_rfl, rfl, orderly, ?_⟩
    have unstructured : (Reader.plainNode (Reader.definitionNode reader number line type)
        type).isStructured = false := rfl
    rw [writtenItem_of_oneLine _ rfl rfl, unstructured]
    simp [Reader.plainNode, Reader.definitionNode, remark, mul_assoc]
  · rename_i header first shape
    obtain ⟨front, code, -, rfl, -⟩ := Reader.shapeOf_eq_opened _ _ _ shape
    obtain ⟨progress, started, later⟩ := run
    obtain ⟨begun, sound⟩ := progress_start _ _ _ progress ⟨rfl, rfl, rfl⟩ moves started
    have begun : tally.progress progress = tally.text type.code * tally.remark type.comment := by
      rw [begun, code]
      simp [Reader.openedNode, mul_assoc]
    cases progress with
    | closed node =>
      obtain ⟨rfl, rfl, rfl⟩ := later
      refine ⟨le_rfl, rfl, orderly, ?_⟩
      have begun : tally.text (node.framed node.body) =
        tally.text type.code * tally.remark type.comment := begun
      rw [writtenItem_of_head node _ sound, text_append, text_append, begun]
      simp [Reader.openedNode, Reader.definitionNode]
    | more body =>
      obtain ⟨more, run, rfl⟩ := later
      obtain ⟨kept, same, aside, orderly'⟩ := text_bodyRun run orderly sound
      rw [List.drop_drop] at orderly'
      refine ⟨by omega, aside, orderly', ?_⟩
      have begun : tally.body body = tally.text type.code * tally.remark type.comment := begun
      rw [writtenItem_of_head result _ same, text_append, text_append, kept, begun,
        Nat.add_sub_cancel_left]
      simp only [Reader.openedNode, Reader.definitionNode]
  · rename_i header inside trailer shape
    obtain ⟨front, code, -, rfl, -, structured⟩ := Reader.shapeOf_eq_inline _ _ _ _ shape
    obtain ⟨rfl, rfl, rfl⟩ := run
    refine ⟨le_rfl, rfl, orderly, ?_⟩
    have members := cuttable.members_kept inside (inlineIn _ _ _ shape)
    have structured : (Reader.inlineNode (Reader.definitionNode reader number line type) type
        (Text.neat front) inside trailer).isStructured = true := by
      simpa [Reader.inlineNode, Node.isStructured] using structured
    rw [writtenItem_of_oneLine _ rfl rfl, if_pos structured, text_append, text_append, text_framed,
      ← texts, code]
    simp [Reader.inlineNode, Reader.definitionNode, members, mul_assoc]
  · exact run.elim

theorem text_definitionLine (line : Text)
    (defines : Text.contains (Text.codeLine (Text.trim line)).code Text.assignmentSign = true) :
    tally.text (Reader.definitionName line) * tally.text "::=".toList *
        (tally.text (Reader.firstType line).code * tally.remark (Reader.firstType line).comment) =
      tally.text line := by
  unfold Text.contains at defines
  obtain ⟨⟨left, right⟩, cut⟩ := Option.isSome_iff_exists.mp defines
  have sides : Reader.definitionSides line = (left, right) := by
    simp [Reader.definitionSides, cut]
  have whole := tally.text_cutAt? _ _ _ _ cut
  rw [← tally.text_trim line, ← tally.text_codeLine (Text.trim line), ← whole]
  simp [Reader.definitionName, Reader.firstType, sides, Text.assignmentSign, mul_assoc]

/-- The tally of a definition is that of its line, the comments inside its type and its lines. -/
theorem text_readDefinition {limits : Limits} {number : Nat} {line : Text} {rest : List Text}
    {before after : Reader} {node : Node} {count : Nat}
    (read : Reading.Yields (Reader.readDefinition limits number line rest) before (node, count)
      after)
    (defines : Text.contains (Text.codeLine (Text.trim line)).code Text.assignmentSign = true)
    (cuttable : tally.Cuttable good)
    (inlineIn : ∀ type between,
      Reading.Yields (Reader.readType limits number (Reader.firstType line) rest) before type
        between → Reader.InlineIn good type.code)
    (orderly : tally.Orderly before.inBlock rest) (remarks : tally.Remarks before.setAside)
    (comment : tally.RemarkMoves (Text.codeLine (Text.trim line)).comment) :
    tally.text (Node.contents after.setAside) * tally.text node.writtenItem =
        tally.text (Node.contents before.setAside) * tally.texts (line :: rest.take count) ∧
      tally.Remarks after.setAside ∧ tally.Orderly after.inBlock (rest.drop count) := by
  rw [Reader.yields_readDefinition] at read
  obtain ⟨-, type, between, readType, run⟩ := read
  obtain ⟨-, typed, ⟨remarks', comment'⟩, orderly'⟩ :=
    typeRead_readType readType orderly ⟨remarks, comment⟩
  obtain ⟨counted, aside, orderly'', kept⟩ :=
    text_groupRun run cuttable (inlineIn type between readType) orderly' comment'
  rw [aside]
  refine ⟨?_, remarks', orderly''⟩
  have put := remarks'.moves
  have given := remarks.moves
  have first := tally.text_definitionLine line defines
  have lines : tally.texts (rest.take count) =
      tally.texts (rest.take type.count) *
        tally.texts ((rest.drop type.count).take (count - type.count)) := by
    rw [← texts_append, ← List.take_add, Nat.add_sub_cancel' counted]
  have fromStart : (Reader.firstType line).count = 0 := rfl
  simp only [typeRead, fromStart, List.drop_zero, Nat.sub_zero] at typed
  generalize tally.texts ((rest.drop type.count).take (count - type.count)) = behind at kept lines
  generalize tally.text (Reader.definitionName line) * tally.text "::=".toList = front at kept first
  calc tally.text (Node.contents between.setAside) * tally.text node.writtenItem
      = front * (tally.text (Node.contents between.setAside) * tally.text type.code *
          tally.remark type.comment) * behind := by
        rw [kept, ← mul_assoc, put front]
        simp only [mul_assoc]
    _ = tally.text (Node.contents before.setAside) * tally.texts (line :: rest.take count) := by
        rw [typed, texts_cons, lines, ← first]
        simp only [← mul_assoc]
        rw [← given front]

/-! ## Items -/

theorem lineItem_kept (tally : Tally M) (reader : Reader) (number : Nat) (line : Text) :
    (reader.lineItem number line).1.kind ≠ .typeDefinition ∧
      tally.text (reader.lineItem number line).1.content = tally.text line ∧
      (reader.lineItem number line).2.setAside = reader.setAside ∧
      (reader.lineItem number line).2.inBlock = LineKind.blockAfter reader.inBlock line := by
  unfold Reader.lineItem
  cases LineKind.ofLine reader.inBlock line with
  | comment => exact ⟨by simp [Node.ofComment], text_content_ofComment .., rfl, rfl⟩
  | moduleHeader =>
    simp only
    split <;> exact ⟨by simp [Reader.itemNode], by simp [Reader.itemNode], rfl, rfl⟩
  | blockBegin | blockEnd | typeDefinition | field | other =>
    exact ⟨by simp [Reader.itemNode], by simp [Reader.itemNode], rfl, rfl⟩

theorem contains_of_typeDefinition (inBlock : Bool) (line : Text)
    (kind : LineKind.ofLine inBlock line = .typeDefinition) :
    Text.contains (Text.codeLine (Text.trim line)).code Text.assignmentSign = true := by
  unfold LineKind.ofLine at kind
  split at kind
  · cases kind
  unfold Text.codeKind at kind
  split at kind
  · cases kind
  split at kind
  · cases kind
  split at kind
  · cases kind
  split at kind
  · assumption
  · split at kind <;> cases kind

/-- A definition begins on a line, where the reader stands behind the line. -/
structure Begins (tally : Tally M) (reader : Reader) (line : Text) (rest : List Text) : Prop where
  defines : Text.contains (Text.codeLine (Text.trim line)).code Text.assignmentSign = true
  noneAside : reader.setAside = []
  /-- Comments on the lines behind it may move. -/
  orderly : tally.Orderly reader.inBlock rest

/-- Lines that may be cut: where a definition among them is read, the members in its groups are of a
class. -/
structure Fits (tally : Tally M) (good : Text → Prop) (fit : List Text → Prop) : Prop where
  tail : ∀ line rest, fit (line :: rest) → fit rest
  inlineIn : ∀ limits number line rest before type after, fit (line :: rest) →
    tally.Begins before line rest →
    Reading.Yields (Reader.readType limits number (Reader.firstType line) rest) before type after →
    Reader.InlineIn good type.code
  itemIn : ∀ limits number line rest before node count after, fit (line :: rest) →
    tally.Begins before line rest →
    Reading.Yields (Reader.readDefinition limits number line rest) before (node, count) after →
    node.ItemIn good

theorem Remarks.texts_writtenItem {nodes : List Node} (remarks : tally.Remarks nodes) :
    tally.texts (nodes.map Node.writtenItem) = tally.text (Node.contents nodes) := by
  have same : nodes.map Node.writtenItem = nodes.map Node.content := by
    apply List.map_congr_left
    intro node member
    rw [Node.writtenItem, if_neg (by simp [(remarks node member).1])]
  rw [same, texts, Node.contents, List.flatMap]

/-- An item has the tally of the lines that it takes, besides the comments that are put aside. -/
theorem text_item {limits : Limits} {before between : Reader} {number count : Nat} {line : Text}
    {rest : List Text} {node : Node} {fit : List Text → Prop}
    (read : Reading.Yields (Reader.readItem limits number line rest) before (node, count) between)
    (cuttable : tally.Cuttable good) (fits : tally.Fits good fit) (fitting : fit (line :: rest))
    (orderly : tally.Orderly before.inBlock (line :: rest)) (noneAside : before.setAside = []) :
    tally.text (Node.contents between.setAside) * tally.text node.writtenItem =
        tally.texts (line :: rest.take count) ∧
      tally.Remarks between.setAside ∧ tally.Orderly between.inBlock (rest.drop count) ∧
      node.ItemIn good := by
  rw [Reader.yields_readItem] at read
  obtain ⟨room, read⟩ := read
  split at read
  · rename_i kind
    have none : (before.counted.pass line).setAside = [] := noneAside
    have begins : tally.Begins (before.counted.pass line) line rest :=
      ⟨contains_of_typeDefinition _ line kind, none, orderly.pass⟩
    obtain ⟨kept, remarks, orderly'⟩ := text_readDefinition read begins.defines cuttable
      (fun type between typed => fits.inlineIn _ _ _ _ _ type between fitting begins typed)
      begins.orderly (by
        intro node member
        rw [none] at member
        cases member) orderly.comment
    rw [none] at kept
    refine ⟨?_, remarks, orderly', fits.itemIn _ _ _ _ _ _ _ _ fitting begins read⟩
    simpa [Node.contents] using kept
  · obtain ⟨same, rfl⟩ := read
    obtain ⟨noDefinition, content, aside, inBlock⟩ :=
      lineItem_kept tally before.counted number line
    rw [same] at noDefinition content aside inBlock
    have none : between.setAside = [] := aside.trans noneAside
    have written : node.writtenItem = node.content := by
      rw [Node.writtenItem, if_neg noDefinition]
    refine ⟨?_, ?_, ?_, ?_⟩
    · have content : tally.text node.content = tally.text line := content
      rw [none, written, content]
      simp [Node.contents]
    · rw [none]
      intro node member
      cases member
    · have inBlock : between.inBlock = LineKind.blockAfter before.inBlock line := inBlock
      rw [inBlock, List.drop_zero]
      exact orderly.pass
    · intro kind
      exact absurd kind noDefinition

/-- All lines of a schema are read once. -/
theorem texts_itemsRun {limits : Limits} {before after : Reader} {number skip : Nat}
    {lines : List Text} {nodes : List Node} {fit : List Text → Prop}
    (run : Reader.ItemsRun limits before number skip lines nodes after)
    (cuttable : tally.Cuttable good) (fits : tally.Fits good fit) (fitting : fit lines)
    (orderly : tally.Orderly before.inBlock (lines.drop skip)) (noneAside : before.setAside = []) :
    tally.texts (nodes.map Node.writtenItem) = tally.texts (lines.drop skip) ∧
      ∀ node ∈ nodes, node.ItemIn good := by
  induction run with
  | done reader number skip => simp
  | @skip before after number skip line rest nodes later ih =>
    exact ih (fits.tail line rest fitting) orderly noneAside
  | @item before between after number count line rest node nodes read later ih =>
    have fitting' := fits.tail line rest fitting
    rw [List.drop_zero] at orderly
    obtain ⟨kept, remarks, orderly', itemIn⟩ :=
      text_item read cuttable fits fitting orderly noneAside
    obtain ⟨rest', items⟩ := ih fitting' orderly' rfl
    constructor
    · rw [List.map_append, List.map_cons, texts_append, texts_cons, remarks.texts_writtenItem,
        ← mul_assoc, kept, rest', ← texts_append, List.cons_append, List.take_append_drop,
        List.drop_zero]
    · intro other member
      rcases List.mem_append.mp member with aside | member
      · intro kind
        rw [(remarks other aside).1] at kind
        cases kind
      · rcases List.mem_cons.mp member with rfl | member
        · exact itemIn
        · exact items other member

/-! ## Formatting -/

theorem text_realign (t : Text) (width : Int) : tally.text (Text.realign t width) = tally.text t := by
  have single : ∀ (width : Nat) (depth : Realign.Depth) (line : Text),
      tally.text (Realign.line width depth line).1 = tally.text line := by
    intro width depth line
    have trimmed := tally.text_trim line
    simp only [Realign.line]
    split
    · rename_i empty
      rw [empty] at trimmed
      split
      · rfl
      · exact trimmed
    · split
      · split
        · rfl
        · rw [text_append, text_spaces, one_mul, trimmed]
      · rw [text_append, text_spaces, one_mul, trimmed]
  have linewise : ∀ (width : Nat) (lines : List Text) (depth : Realign.Depth),
      tally.texts (Realign.lines width depth lines) = tally.texts lines := by
    intro width lines
    induction lines with
    | nil => exact fun _ => rfl
    | cons first later ih =>
      intro depth
      rw [Realign.lines, texts_cons, texts_cons, single, ih]
  rw [Text.realign, text_ofLines, linewise, texts_lines]

/-- The layout of a schema has the tally of the schema. -/
theorem text_layout {fit : List Text → Prop} (cuttable : tally.Cuttable good)
    (fits : tally.Fits good fit) (t : Text) (options : Options) (fitting : fit (Text.lines t))
    (orderly : tally.Orderly false (Text.lines t)) :
    tally.text (Format.layout t options).result = tally.text t := by
  simp only [Format.layout]
  split
  · rename_i result laid
    rw [bind_eq_ok] at laid
    obtain ⟨root, parsed, laid⟩ := laid
    have tree : Node.ofText t options = .ok root := by
      unfold Node.read at parsed
      split at parsed
      · cases parsed
      · rename_i root' tree
        cases parsed
        exact tree
    rw [Reader.ofText_eq_ok] at tree
    obtain ⟨nodes, after, run, rfl⟩ := tree
    obtain ⟨kept, items⟩ := texts_itemsRun run cuttable fits fitting orderly rfl
    have written := text_toText cuttable options _ items result laid
    rw [List.drop_zero, texts_lines] at kept
    exact written.trans kept
  · exact text_realign ..

theorem text_format {fit : List Text → Prop} (cuttable : tally.Cuttable good)
    (fits : tally.Fits good fit) (source : Text) (configuration : Configuration)
    (fitting : ∀ width : Int, 1 ≤ width → fit (Text.lines (Text.plainSource source width)))
    (orderly : ∀ width : Int, 1 ≤ width →
      tally.Orderly false (Text.lines (Text.plainSource source width))) :
    tally.text (Format.text source configuration).result = tally.text source := by
  unfold Format.text
  split
  · rename_i blank
    rw [tally.text_of_isBlankText source blank]
    rfl
  · have wide := (Format.options_positive configuration).1
    simp only
    rw [text_layout cuttable fits _ _ (fitting _ wide) (orderly _ wide), text_plainSource]

end Tally

end AsnLayout
