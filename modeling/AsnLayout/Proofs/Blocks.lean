import AsnLayout.Proofs.Trail

/-!
# Block comments along a run

Wherever a reader stands, a block comment is open for it exactly if one is open behind the lines it
has read.
-/

set_option autoImplicit false

namespace AsnLayout

namespace LineKind

def blockAfterAll (inBlock : Bool) (lines : List Text) : Bool := lines.foldl blockAfter inBlock

theorem blockAfter_of_not_isRemark {inBlock : Bool} {line : Text}
    (noComment : Reader.isRemark inBlock line = false) : blockAfter inBlock line = inBlock := by
  simp only [Reader.isRemark, Bool.or_eq_false_iff] at noComment
  obtain ⟨⟨rfl, -⟩, noBlock⟩ := noComment
  simp [blockAfter, Text.leavesBlockOpen, noBlock]

end LineKind

namespace Reader

open Reading

variable {limits : Limits}

theorem inBlock_codeRun {reader after : Reader} {number count : Nat} {lines : List Text}
    {code : CodeLine} (run : CodeRun limits reader number lines code count after) :
    after.inBlock = LineKind.blockAfterAll reader.inBlock (lines.take count) := by
  induction run with
  | comment room isComment later ih => exact ih
  | blank room noComment isBlank later ih =>
    rw [List.take_succ_cons, LineKind.blockAfterAll, List.foldl_cons,
      LineKind.blockAfter_of_not_isRemark noComment]
    exact ih
  | code room noComment noBlank noSign =>
    exact (LineKind.blockAfter_of_not_isRemark noComment).symm

theorem inBlock_bodyRun {reader after : Reader} {body : Body} {number count : Nat}
    {lines : List Text} {node : Node}
    (run : BodyRun limits reader body number lines node count after) :
    after.inBlock = LineKind.blockAfterAll reader.inBlock (lines.take count) := by
  induction run with
  | comment room isComment later ih => exact ih
  | blank room kind isBlank later ih => exact ih
  | code room kind noBlank read later ih => exact ih
  | close room kind noBlank read => rfl

theorem blockAfterAll_take_add (inBlock : Bool) (lines : List Text) (first second : Nat) :
    LineKind.blockAfterAll inBlock (lines.take (first + second)) =
      LineKind.blockAfterAll (LineKind.blockAfterAll inBlock (lines.take first))
        ((lines.drop first).take second) := by
  rw [List.take_add, LineKind.blockAfterAll, List.foldl_append]
  rfl

theorem blockAfterAll_drop {state inBlock : Bool} {lines front back : List Text} {count : Nat}
    (start : state = LineKind.blockAfterAll inBlock (lines.take count))
    (cut : lines = front ++ back) (late : count ≤ front.length) :
    LineKind.blockAfterAll state (front.drop count) = LineKind.blockAfterAll inBlock front := by
  rw [start, cut, List.take_append_of_le_length late, LineKind.blockAfterAll,
    LineKind.blockAfterAll, ← List.foldl_append, List.take_append_drop]
  rfl

/-- What holds of a type as it begins and stays true as it goes on over lines of code holds of the
whole type. -/
theorem readType_induct {motive : Reader → TypeText → Prop} {definition : Nat}
    {type result : TypeText} {rest : List Text} {before after : Reader}
    (read : Yields (readType limits definition type rest) before result after)
    (start : motive before type)
    (extend : ∀ (type : TypeText) (reader between : Reader) (number count : Nat) (line : CodeLine),
      motive reader type → CodeRun limits reader number (rest.drop type.count) line count between →
      motive between (type.extend line count)) : motive after result := by
  rw [yields_readType] at read
  obtain ⟨first, between, begun, ended⟩ := read
  have middle : motive between first := by
    split at begun
    · obtain ⟨line, count, run, rfl⟩ := begun
      exact extend _ _ _ _ _ _ start run
    · obtain ⟨rfl, rfl⟩ := begun
      exact start
  split at ended
  · obtain ⟨line, count, run, rfl⟩ := ended
    exact extend _ _ _ _ _ _ middle run
  · obtain ⟨rfl, rfl⟩ := ended
    exact middle

theorem inBlock_extend {type : TypeText} {reader between : Reader} {number count : Nat}
    {line : CodeLine} {rest : List Text} {inBlock : Bool}
    (start : reader.inBlock = LineKind.blockAfterAll inBlock (rest.take type.count))
    (run : CodeRun limits reader number (rest.drop type.count) line count between) :
    between.inBlock =
      LineKind.blockAfterAll inBlock (rest.take (type.extend line count).count) := by
  rw [inBlock_codeRun run, start, TypeText.extend, blockAfterAll_take_add]

theorem inBlock_readType {definition : Nat} {type result : TypeText} {rest : List Text}
    {before after : Reader} {inBlock : Bool}
    (read : Yields (readType limits definition type rest) before result after)
    (start : before.inBlock = LineKind.blockAfterAll inBlock (rest.take type.count)) :
    after.inBlock = LineKind.blockAfterAll inBlock (rest.take result.count) :=
  readType_induct (motive := fun reader type =>
    reader.inBlock = LineKind.blockAfterAll inBlock (rest.take type.count)) read start
    fun _ _ _ _ _ _ start run => inBlock_extend start run

theorem inBlock_groupRun {number count : Nat} {rest : List Text} {node result : Node}
    {type : TypeText} {before after : Reader} {inBlock : Bool}
    (run : GroupRun limits number rest node type before result count after)
    (start : before.inBlock = LineKind.blockAfterAll inBlock (rest.take type.count)) :
    after.inBlock = LineKind.blockAfterAll inBlock (rest.take count) := by
  unfold GroupRun at run
  split at run
  · obtain ⟨-, rfl, rfl⟩ := run
    exact start
  · obtain ⟨progress, -, later⟩ := run
    cases progress with
    | closed closed =>
      obtain ⟨-, rfl, rfl⟩ := later
      exact start
    | more body =>
      obtain ⟨more, bodyRun, rfl⟩ := later
      rw [inBlock_bodyRun bodyRun, start, blockAfterAll_take_add]
  · obtain ⟨-, rfl, rfl⟩ := run
    exact start
  · exact run.elim

theorem inBlock_readItem {number count : Nat} {line : Text} {rest : List Text}
    {before after : Reader} {node : Node}
    (read : Yields (readItem limits number line rest) before (node, count) after) :
    after.inBlock = LineKind.blockAfterAll before.inBlock (line :: rest.take count) := by
  rw [yields_readItem] at read
  obtain ⟨-, read⟩ := read
  split at read
  · rw [yields_readDefinition] at read
    obtain ⟨-, type, between, readType, run⟩ := read
    exact inBlock_groupRun run (inBlock_readType readType rfl)
  · obtain ⟨item, rfl⟩ := read
    have passed := (Tally.lineItem_kept blind before.counted number line).2.2.2
    rw [item] at passed
    exact passed

end Reader

end AsnLayout
