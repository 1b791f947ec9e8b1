import AsnLayout.Proofs.SchemaRows
import AsnLayout.Proofs.UprightItems

/-!
# Rows that are read as items again

The rows of a layout are read as items again.  A line of code and a comment become what they were, and
so do gaps: whatever gap an item asks for stands next to the gap that was read, and two gaps are one.
-/

set_option autoImplicit false

namespace AsnLayout

/-! ## Readers between items -/

structure Reader.At (reader : Reader) (inBlock : Bool) (level count : Nat) : Prop where
  block : reader.inBlock = inBlock
  level : reader.level = level
  setAside : reader.setAside = []
  linesRead : reader.linesRead = count

namespace LineKind

def nodeKind : LineKind → NodeKind
  | moduleHeader => .moduleHeader
  | blockBegin => .blockBegin
  | blockEnd => .blockEnd
  | typeDefinition => .typeDefinition
  | comment => .comment
  | field | other => .other

end LineKind

namespace Layout

variable {options : Options} {front back : List Node} {first second : List Piece}

theorem layNodes_append_ok (laid : layNodes options front = .ok first)
    (laid' : layNodes options back = .ok second) :
    layNodes options (front ++ back) = .ok (first ++ second) := by
  induction front generalizing first with
  | nil =>
    cases laid
    exact laid'
  | cons node later ih =>
    simp only [layNodes, bind_eq_ok] at laid
    obtain ⟨here, headLaid, rest, restLaid, done⟩ := laid
    cases done
    simp only [List.cons_append, layNodes, bind_eq_ok]
    exact ⟨here, headLaid, rest ++ second, ih restLaid, by rw [List.append_assoc]; rfl⟩

theorem layNodes_single {node : Node} (laid : layNode options node = .ok first) :
    layNodes options [node] = .ok first := by
  simp [layNodes, laid, bind, Except.bind, pure, Except.pure]

end Layout

namespace Piece

open Layout

/-! ## Rows in order -/

/-- The rows of some pieces are read as items whose layout is others.  Where `ends`, no brace may
follow the rows. -/
def Renews (options : Options) (limits : Limits) (width : Int) (ends before : Bool) (level : Nat)
    (kept pieces : List Piece) (after : Bool) (level' : Nat) : Prop :=
  ∀ (reader : Reader) (number count : Nat) (rest : List Text), reader.At before level count →
    (count + kept.length : Int) ≤ limits.lines → (ends = true → Reader.bracesNext rest = false) →
    ∃ (nodes : List Node) (reader' : Reader), layNodes options nodes = .ok pieces ∧
      reader'.At after level' (count + kept.length) ∧
      ∀ later last, Reader.ItemsRun limits reader' (number + kept.length) 0 rest later last →
        Reader.ItemsRun limits reader number 0 (kept.map (row width) ++ rest) (nodes ++ later) last

section

variable {options : Options} {limits : Limits} {width : Int} {ends ends' before between after : Bool}
  {level middle level' : Nat} {kept kept' pieces pieces' : List Piece}

theorem renews_nil : Renews options limits width ends before level [] [] before level :=
  fun reader _ _ _ stands _ _ => ⟨[], reader, rfl, stands, fun _ _ later => later⟩

theorem Renews.append (first : Renews options limits width ends before level kept pieces between middle)
    (second : Renews options limits width ends' between middle kept' pieces' after level')
    (onward : ∀ rest, (ends' = true → Reader.bracesNext rest = false) → ends = true →
      Reader.bracesNext (kept'.map (row width) ++ rest) = false) :
    Renews options limits width ends' before level (kept ++ kept') (pieces ++ pieces') after
      level' := by
  intro reader number count rest stands room unbraced
  rw [List.length_append] at room
  obtain ⟨nodes, reader', laid, stands', run⟩ := first reader number count
    (kept'.map (row width) ++ rest) stands (by omega) (onward rest unbraced)
  obtain ⟨nodes', reader'', laid', stands'', run'⟩ := second reader' (number + kept.length)
    (count + kept.length) rest stands' (by omega) unbraced
  refine ⟨nodes ++ nodes', reader'', layNodes_append_ok laid laid', ?_, fun later last behind => ?_⟩
  · rwa [List.length_append, ← Nat.add_assoc]
  · rw [List.length_append, ← Nat.add_assoc] at behind
    rw [List.map_append, List.append_assoc, List.append_assoc]
    exact run _ _ (run' _ _ behind)

theorem Renews.mono
    (renews : Renews options limits width ends before level kept pieces after level')
    (imp : ends = true → ends' = true) :
    Renews options limits width ends' before level kept pieces after level' :=
  fun reader number count rest stands room unbraced =>
    renews reader number count rest stands room fun isEnd => unbraced (imp isEnd)

theorem Renews.of_ends
    (renews : Renews options limits width false before level kept pieces after level') :
    Renews options limits width ends before level kept pieces after level' := renews.mono nofun

theorem renews_item {first : Piece} {more : List Piece}
    (read : ∀ (reader : Reader) (number count : Nat) (rest : List Text),
      reader.At before level count → (count + (more.length + 1) : Int) ≤ limits.lines →
      (ends = true → Reader.bracesNext rest = false) → ∃ node between,
        layNode options node = .ok pieces ∧ between.At after level' (count + (more.length + 1)) ∧
        Reading.Yields (Reader.readItem limits number (first.row width)
          (more.map (row width) ++ rest)) reader (node, more.length) between) :
    Renews options limits width ends before level (first :: more) pieces after level' := by
  intro reader number count rest stands room unbraced
  rw [List.length_cons] at room
  obtain ⟨node, between, laid, stands', item⟩ :=
    read reader number count rest stands (by omega) unbraced
  refine ⟨[node], between, layNodes_single laid, by rwa [List.length_cons], fun later last behind => ?_⟩
  have settled : { between with setAside := [] } = between := by
    cases between
    cases stands'.setAside
    rfl
  have dropped : (more.map (row width) ++ rest).drop more.length = rest := by
    rw [List.drop_append_of_le_length (by simp)]
    simp
  have skipped : Reader.ItemsRun limits between (number + 1) more.length
      (more.map (row width) ++ rest) later last := by
    refine Reader.itemsRun_skip.mpr ?_
    rw [dropped, Nat.add_assoc, Nat.add_comm 1]
    exact behind
  rw [← settled] at skipped
  have run := Reader.ItemsRun.item item skipped
  rw [stands'.setAside] at run
  exact run

theorem renews_single {piece : Piece} 
    (kind : LineKind.ofLine before (piece.row width) ≠ .typeDefinition)
    (item : ∀ (reader : Reader) (number count : Nat), reader.At before level count →
      layNode options (reader.lineItem number (piece.row width)).1 = .ok pieces ∧
      (reader.lineItem number (piece.row width)).2.At after level' count) :
    Renews options limits width false before level [piece] pieces after level' := by
  refine renews_item fun reader number count rest stands room _ => ?_
  have stands' : reader.counted.At before level (count + 1) :=
    ⟨stands.block, stands.level, stands.setAside, congrArg (· + 1) stands.linesRead⟩
  obtain ⟨laid, behind⟩ := item reader.counted number (count + 1) stands'
  refine ⟨_, _, laid, behind, (Reader.yields_readItem ..).mpr ⟨?_, ?_⟩⟩
  · rw [Reader.MayRead, stands.linesRead]
    exact room
  · rw [stands.block, if_neg kind]
    exact ⟨rfl, rfl⟩

/-! ## Single rows -/

theorem bracesNext_gap_row (rest : List Text) :
    Reader.bracesNext (gap.row width :: rest) = Reader.bracesNext rest :=
  Reader.bracesNext_cons [] rest

theorem renews_gap : Renews options limits width false false level [gap] [gap] false level := by
  refine renews_single (by simp only [row]; decide) fun reader number count stands => ?_
  have kind : LineKind.ofLine reader.inBlock (gap.row width) = .other := by
    rw [stands.block, row]
    decide
  have item : reader.lineItem number (gap.row width) =
      (reader.itemNode .other (gap.row width) number, reader.pass (gap.row width)) := by
    rw [Reader.lineItem, kind]
  rw [item]
  refine ⟨rfl, ?_, stands.level, stands.setAside, stands.linesRead⟩
  rw [Reader.pass, stands.block]
  rfl

theorem Renews.gap (renews : Renews options limits width ends before level kept pieces false level') :
    Renews options limits width ends before level (kept ++ [.gap]) (pieces ++ [.gap]) false level' :=
  renews.append renews_gap.of_ends fun rest unbraced isEnd => by
    rw [List.map_singleton, List.singleton_append, bracesNext_gap_row]
    exact unbraced isEnd

theorem Renews.behind_gap
    (renews : Renews options limits width ends false level kept pieces after level') :
    Renews options limits width ends false level (.gap :: kept) (.gap :: pieces) after level' :=
  renews_gap.append renews fun _ _ => nofun

theorem renews_comment {node : Node} (isComment : node.IsComment before after) :
    Renews options limits width false before level [commentPiece node level]
      [commentPiece node level] after level := by
  have isRemark := @isRemark_commentPiece width before after node isComment level
  have kind := (LineKind.ofLine_eq_comment ..).mpr isRemark.isRemark
  refine renews_single (by simp [kind]) fun reader number count stands => ?_
  rw [Reader.lineItem_of_isRemark number (by rw [stands.block]; exact isRemark.isRemark),
    stands.block, stands.level]
  refine ⟨?_, ?_, stands.level, stands.setAside, stands.linesRead⟩
  · exact congrArg (Except.ok [·]) (commentPiece_ofComment isComment width level level level number)
  · rw [Reader.pass, stands.block]
    exact isRemark.behind

end

end Piece

namespace Reader

/-- A line of code becomes a node of its kind, with the line made neat. -/
theorem lineItem_same {reader : Reader} {line : Text} (number : Nat)
    (outside : reader.inBlock = false) (noComment : LineKind.ofLine false line ≠ .comment)
    (noDefinition : LineKind.ofLine false line ≠ .typeDefinition) :
    (reader.lineItem number line).1.kind = (LineKind.ofLine false line).nodeKind ∧
      (reader.lineItem number line).1.content = Text.neatLine (Text.trim line) := by
  unfold lineItem
  rw [outside]
  cases found : LineKind.ofLine false line with
  | comment => exact absurd found noComment
  | typeDefinition => exact absurd found noDefinition
  | moduleHeader =>
    simp only
    split <;> exact ⟨rfl, rfl⟩
  | blockBegin | blockEnd | field | other => exact ⟨rfl, rfl⟩

end Reader

namespace Piece

open Layout

variable {options : Options} {limits : Limits} {width : Int} {level : Nat} {pieces : List Piece}

theorem levels_of_same {node other : Node} (kind : other.kind = node.kind)
    (content : other.content = node.content) (level : Nat) :
    other.levelAt level = node.levelAt level ∧ other.levelBehind level = node.levelBehind level := by
  unfold Node.levelAt Node.levelBehind Node.endsWithBegin
  rw [kind, content]
  exact ⟨rfl, rfl⟩

/-- What a line of code is laid out on is seen from its kind, its level and its content. -/
theorem layNode_of_same {node other : Node}
    (single : node.kind ≠ .typeDefinition ∧ node.kind ≠ .comment) (kind : other.kind = node.kind)
    (level : other.level = node.level) (content : other.content = node.content) :
    layNode options other = layNode options node := by
  unfold layNode
  rw [kind, level, content]
  cases shape : node.kind with
  | typeDefinition => exact absurd shape single.1
  | comment => exact absurd shape single.2
  | _ => rfl

theorem neatLine_beside {code held : Text} {comment : Option Text} (hides : Text.Hides code held)
    (noted : IsNoted comment) (settled : Text.neat code = code) :
    Text.neatLine (Text.trim (beside code comment)) = beside code comment := by
  have trimmed : Text.trim code = code := by rw [← settled, Text.neat_eq, Text.trim_trim]
  rw [trim_beside, Text.neatLine, Text.codeLine_remarked hides noted, trimmed, settled]

theorem renews_line {node : Node} {code held : Text} {comment : Option Text}
    (single : node.kind ≠ .typeDefinition ∧ node.kind ≠ .comment)
    (content : node.content = beside code comment) (hides : Text.Hides code held)
    (noted : IsNoted comment) (settled : Text.neat code = code)
    (kind : (LineKind.ofLine false node.content).nodeKind = node.kind)
    (place : node.level = node.levelAt level) (laid : layNode options node = .ok pieces) :
    Renews options limits width false false level [.line node.level node.content] pieces false
      (node.levelBehind level) := by
  generalize whole : (line node.level node.content).row width = text
  have trimmed : Text.trim text = Text.trim node.content :=
    whole ▸ trim_row_line width node.level node.content
  have neat : Text.neatLine (Text.trim text) = node.content := by
    rw [trimmed, content, neatLine_beside hides noted settled]
  have same : LineKind.ofLine false text = LineKind.ofLine false node.content := by
    unfold LineKind.ofLine Text.isLineComment Text.startsBlock
    rw [trimmed]
  have noComment : LineKind.ofLine false text ≠ .comment := fun isComment => by
    rw [← same, isComment] at kind
    exact single.2 kind.symm
  have behind : LineKind.blockAfter false text = false :=
    LineKind.blockAfter_of_not_isRemark (by
      rw [← Bool.not_eq_true]
      exact fun remark => noComment ((LineKind.ofLine_eq_comment ..).mpr remark))
  have noDefinition : LineKind.ofLine false text ≠ .typeDefinition := fun defines => by
    rw [← same, defines] at kind
    exact single.1 kind.symm
  refine renews_single (whole ▸ noDefinition) fun reader number count stands => ?_
  rw [whole]
  obtain ⟨isKind, isContent⟩ :=
    Reader.lineItem_same number stands.block noComment noDefinition
  rw [same, kind] at isKind
  rw [neat] at isContent
  obtain ⟨isItem, onward, -⟩ := @Reader.readsItem_lineItem reader (reader.lineItem number text).2
    number text (reader.lineItem number text).1 rfl stands.setAside
  obtain ⟨here, there⟩ := levels_of_same isKind isContent level
  obtain ⟨block, lines⟩ := Reader.lineItem_passes reader number text
  refine ⟨(layNode_of_same single isKind ?_ isContent).trans laid, ?_, ?_, ?_, ?_⟩
  · rw [isItem.level, stands.level, here, place]
  · rw [block, stands.block, behind]
  · rw [onward, stands.level, there]
  · exact ((Tally.lineItem_kept blind reader number text).2.2.1).trans stands.setAside
  · rw [lines, stands.linesRead]

/-! ## Items that last -/

/-- What is left of the pieces of an item is read as items of which the same is left, whether anything
is left behind them or not. -/
structure Lasts (options : Options) (limits : Limits) (width : Int) (ends before : Bool)
    (level : Nat) (pieces : List Piece) (after : Bool) (level' : Nat) : Prop where
  whole : ∀ run, ∃ again,
    Renews options limits width ends before level (settle run pieces) again after level' ∧
      settle run again = settle run pieces ∧ runBehind run again = runBehind run pieces
  last : ∀ run, ∃ again,
    Renews options limits width ends before level (left run pieces) again after level' ∧
      left run again = left run pieces

variable {ends before after : Bool} {level' : Nat} {core : List Piece}

theorem left_of_seen {run : Nat} {front : List Piece} {piece : Piece}
    (whole : settle run pieces = front ++ [piece]) (seen : piece.isIdle = false) :
    left run pieces = settle run pieces := by
  rw [left, whole, List.rdropWhile_concat_neg _ _ _ (by simp [seen])]

theorem lasts_single {piece : Piece}
    (renews : Renews options limits width ends before level [piece] [piece] after level')
    (idle : piece.isIdle = true → before = after ∧ level = level') :
    Lasts options limits width ends before level [piece] after level' := by
  have none : piece.isIdle = true →
      Renews options limits width ends before level [] [] after level' := by
    intro isIdle
    obtain ⟨rfl, rfl⟩ := idle isIdle
    exact renews_nil
  refine ⟨fun run => ⟨settle run [piece], ?_, settle_settle run [piece]⟩, fun run => ?_⟩
  · rw [settle]
    split
    · rename_i empty
      split
      · exact renews
      · exact none (isIdle_of_isEmptyRow empty)
    · exact renews
  · cases isIdle : piece.isIdle with
    | true =>
      have nothing : left run [piece] = [] :=
        left_eq_nil_iff.mpr (List.forall_mem_singleton.mpr isIdle)
      rw [nothing]
      exact ⟨[], none isIdle, rfl⟩
    | false =>
      have noEmpty : piece.isEmptyRow ≠ true := fun empty => by
        rw [isIdle_of_isEmptyRow empty] at isIdle
        cases isIdle
      have all : settle run [piece] = [] ++ [piece] := by
        rw [settle, if_neg noEmpty]
        rfl
      have same := left_of_seen all isIdle
      rw [all] at same
      exact ⟨[piece], same ▸ renews, rfl⟩

theorem lasts_gap
    (renews : Renews options limits width ends before level (settle 0 core)
      (settle 0 core ++ [gap]) false level')
    (starts : ∀ run, settle run core = settle 0 core ∧ runBehind run core = 0)
    (closes : ∀ run, left run core = settle run core) :
    Lasts options limits width ends before level (core ++ [gap]) false level' := by
  have again : ∀ run, settle run (settle 0 core) = settle 0 core ∧
      runBehind run (settle 0 core) = 0 := by
    intro run
    obtain ⟨same, behind⟩ := settle_settle run core
    rw [(starts run).1] at same behind
    exact ⟨same, behind.trans (starts run).2⟩
  refine ⟨fun run => ⟨settle 0 core ++ [gap] ++ [gap], ?_, ?_, ?_⟩,
    fun run => ⟨settle 0 core ++ [gap], ?_, ?_⟩⟩
  · rw [settle_append, (starts run).1, (starts run).2]
    exact renews.gap
  · rw [List.append_assoc, settle_append run _ ([gap] ++ [gap]), settle_append run core,
      (again run).1, (again run).2, (starts run).1, (starts run).2]
    rfl
  · rw [List.append_assoc, runBehind_append run _ ([gap] ++ [gap]), runBehind_append run core,
      (again run).2, (starts run).2]
    rfl
  · have none : left (runBehind run core) [gap] = [] :=
      left_eq_nil_iff.mpr (List.forall_mem_singleton.mpr rfl)
    rw [left_append, if_pos none, closes, (starts run).1]
    exact renews
  · have none : ∀ run, left run [gap] = [] := fun run =>
      left_eq_nil_iff.mpr (List.forall_mem_singleton.mpr rfl)
    rw [left_append, if_pos (none _), left_append, if_pos (none _), left, (again run).1,
      ← (starts run).1]
    rfl

theorem lasts_behind_gap {place : Int} {text : Text}
    (renews : Renews options limits width ends false level [line place text] [gap, line place text]
      after level') (seen : Text.isBlankText text = false) :
    Lasts options limits width ends false level [gap, line place text] after level' := by
  have closes : ∀ run, left run [gap, line place text] = settle run [gap, line place text] := by
    intro run
    cases run with
    | zero => exact @left_of_seen _ 0 [gap] _ rfl seen
    | succ run => exact @left_of_seen _ (run + 1) [] _ rfl seen
  have all : ∀ run, ∃ again,
      Renews options limits width ends false level (settle run [gap, line place text]) again after
        level' ∧ settle run again = settle run [gap, line place text] ∧
        runBehind run again = runBehind run [gap, line place text] := by
    intro run
    cases run with
    | zero => exact ⟨_, renews.behind_gap, rfl, rfl⟩
    | succ run => exact ⟨_, renews, rfl, rfl⟩
  refine ⟨all, fun run => ?_⟩
  obtain ⟨again, renewed, same, -⟩ := all run
  refine ⟨again, (closes run).symm ▸ renewed, ?_⟩
  rw [left, same]
  rfl

end Piece

end AsnLayout
