import AsnLayout.Proofs.CommentLayout

/-!
# Comments are kept

The text of a tree holds every comment of the schema that was read, and a comment inside a
definition stands among the lines of that definition.  The lines of a block comment stay together;
only empty lines of it are lost, where more than two follow each other.
-/

set_option autoImplicit false

namespace AsnLayout

/-! ## Definitions of several lines -/

namespace Reading

theorem Yields.unique {α : Type} {step : Reading α} {before after after' : Reader}
    {result result' : α} (first : Yields step before result after)
    (second : Yields step before result' after') : result = result' ∧ after = after' := by
  have same := first.symm.trans second
  cases same
  exact ⟨rfl, rfl⟩

theorem exists_yields {α : Type} {step : Reading α} {before : Reader} {test : α → Bool}
    (success : (step.run.run before).1.toOption.any test = true) :
    ∃ result after, Yields step before result after ∧ test result = true := by
  cases found : step.run.run before with
  | mk outcome after =>
    rw [found] at success
    cases outcome with
    | error fault => cases success
    | ok result => exact ⟨result, after, found, success⟩

end Reading

namespace Reader

open Reading

/-- A reader has come to a line at which an item starts, behind the given nodes. -/
inductive Reaches (limits : Limits) (lines : List Text) : Nat → Reader → List Node → Prop where
  | start : Reaches limits lines 0 {} []
  | item {index next : Nat} {reader between : Reader} {above : List Node} {node : Node}
      (reached : Reaches limits lines index reader above)
      (read : Yields (readAt limits lines index) reader (some (node, next)) between) :
      Reaches limits lines next { between with setAside := [] }
        (above ++ (between.setAside ++ [node]))

/-- A definition of several lines stands behind the nodes `above`.  The line of its opening brace
and its last line are counted from zero. -/
inductive Spans (limits : Limits) (lines : List Text) : List Node → Node → Nat → Nat → Prop where
  | definition {index count : Nat} {reader between typed : Reader} {above : List Node} {node : Node}
      {line : Text} {rest : List Text} {type : TypeText}
      (reached : Reaches limits lines index reader above) (here : lines.drop index = line :: rest)
      (defines : LineKind.ofLine reader.inBlock line = .typeDefinition)
      (read : Yields (readItem limits (index + 1) line rest) reader (node, count) between)
      (several : node.oneLine = some false)
      (readType : Yields (readType limits (index + 1) (firstType line) rest)
        (reader.counted.pass line) type typed) :
      Spans limits lines (above ++ between.setAside) node (index + type.count) (index + count)

variable {limits : Limits}

theorem yields_readAt {lines : List Text} {index next : Nat} {before after : Reader} {node : Node} :
    Yields (readAt limits lines index) before (some (node, next)) after ↔
      ∃ line rest count, lines.drop index = line :: rest ∧
        Yields (readItem limits (index + 1) line rest) before (node, count) after ∧
        next = index + 1 + count := by
  unfold readAt
  cases lines.drop index with
  | nil =>
    simp only [yields_bind, yields_pure]
    constructor
    · rintro ⟨_, _, _, same, _⟩
      cases same
    · rintro ⟨_, _, _, cut, _⟩
      cases cut
  | cons line rest =>
    simp only [yields_bind, yields_pure]
    constructor
    · rintro ⟨⟨node', count⟩, between, read, same, rfl⟩
      cases same
      exact ⟨line, rest, count, rfl, read, rfl⟩
    · rintro ⟨_, _, count, cut, read, rfl⟩
      cases cut
      exact ⟨(node, count), after, read, rfl, rfl⟩

/-- A block comment is open for a reader if one is open behind the lines before the one it has come
to. -/
theorem Reaches.inBlock {lines : List Text} {index : Nat} {reader : Reader} {above : List Node}
    (reached : Reaches limits lines index reader above) :
    reader.inBlock = LineKind.blockAfterAll false (lines.take index) := by
  induction reached with
  | start => rfl
  | @item index next reader between above node reached read ih =>
    obtain ⟨line, rest, count, here, readItem, rfl⟩ := yields_readAt.mp read
    change between.inBlock = _
    rw [inBlock_readItem readItem, ih, Nat.add_assoc, blockAfterAll_take_add, here,
      Nat.add_comm 1 count, List.take_succ_cons]

/-- A reader that reads all items comes by every line that is reached. -/
theorem Reaches.itemsRun {lines : List Text} {index : Nat} {reader after : Reader}
    {above nodes : List Node} (reached : Reaches limits lines index reader above)
    (run : ItemsRun limits {} 1 0 lines nodes after) :
    ∃ below, nodes = above ++ below ∧
      ItemsRun limits reader (index + 1) 0 (lines.drop index) below after := by
  induction reached with
  | start => exact ⟨nodes, rfl, run⟩
  | @item index next reader between above node reached read ih =>
    obtain ⟨below, rfl, later⟩ := ih
    obtain ⟨line, rest, count, here, readItem, rfl⟩ := yields_readAt.mp read
    rw [here] at later
    cases later with
    | @item _ _ _ _ _ _ _ _ nodes readItem' later =>
      obtain ⟨same, rfl⟩ := readItem.unique readItem'
      cases same
      have cut : lines.drop (index + 1 + count) = rest.drop count := by
        rw [← List.drop_drop, ← List.drop_drop, here]
        rfl
      refine ⟨nodes, by simp, ?_⟩
      rw [cut]
      have behind := itemsRun_skip.mp later
      rwa [Nat.add_right_comm] at behind

/-- A definition takes in every passage between its opening brace and its last line. -/
theorem Spans.occur_passage {lines : List Text} {above nodes : List Node} {node : Node}
    {opening closing : Nat} {after : Reader} (spans : Spans limits lines above node opening closing)
    (run : ItemsRun limits {} 1 0 lines nodes after) :
    (∃ below, nodes = above ++ node :: below) ∧
      ∀ before line behind cells, lines = before ++ line :: behind → opening < before.length →
        before.length ≤ closing →
        Passage (LineKind.blockAfterAll false before) [line] cells →
        Cell.Occur cells node.itemTrail := by
  cases spans with
  | @definition index count reader between typed above node first rest type reached here defines
      read several readType =>
    obtain ⟨below, rfl, later⟩ := reached.itemsRun run
    rw [here] at later
    cases later with
    | @item _ _ _ _ _ _ _ _ others read' later' =>
      obtain ⟨same, rfl⟩ := read.unique read'
      cases same
      refine ⟨⟨others, by simp⟩, ?_⟩
      intro before line behind cells cut behindBrace inside found
      rw [yields_readItem, if_pos defines, yields_readDefinition] at read
      obtain ⟨-, -, type', between', readType', group⟩ := read
      obtain ⟨rfl, rfl⟩ := readType.unique readType'
      -- The passage stands among the lines behind the first of the definition.
      have behindFirst : rest = before.drop (index + 1) ++ ([line] ++ behind) := by
        have dropped : lines.drop (index + 1) = rest := by
          rw [← List.drop_drop, here]
          rfl
        rw [← dropped, cut, List.drop_append_of_le_length (by omega)]
        rfl
      have started : (reader.counted.pass first).inBlock =
          LineKind.blockAfterAll false (lines.take (index + 1)) := by
        rw [blockAfterAll_take_add, ← reached.inBlock, here]
        rfl
      have passage := (occur_groupRun group (inBlock_readType readType rfl)).2.2
        (before.drop (index + 1)) [line] behind cells behindFirst
      rw [List.length_drop, blockAfterAll_drop started cut (by omega)] at passage
      exact passage (by omega) (by omega) found

end Reader

/-! ## Comments in lines -/

namespace Text

theorem isBlankText_of_startsWith {line more : Text} {c : Char} (solid : isBlank c = false)
    (starts : startsWith (trim line) (c :: more) = true) :
    isBlankText (trimStart line) = false := by
  have start : c :: more <+: trim line := List.isPrefixOf_iff_prefix.mp starts
  obtain ⟨blank, -, whole⟩ := exists_blank_trimEnd (trimStart line)
  have inside : trim line <:+: trimStart line := by
    rw [whole]
    exact (List.prefix_append _ _).isInfix
  exact isBlankText_of_isInfix (start.isInfix.trans inside) (isBlankText_cons more solid)

theorem isBlankText_of_endsBlock {line : Text} (ends : endsBlock line = true) :
    isBlankText line = false := by
  have tail : ['*', '-'] <:+ trim line := List.isSuffixOf_iff_suffix.mp ends
  exact isBlankText_of_isInfix (tail.isInfix.trans (trim_isInfix line)) (by decide)

theorem comment_of_codeLine {line comment : Text} (found : (codeLine line).comment = some comment) :
    comment <:+: line ∧ ∃ rest, comment = '-' :: '-' :: rest := by
  unfold codeLine at found
  split at found
  · cases found
  · rename_i index starts
    obtain ⟨front, rest, rfl, rfl, -, -⟩ := Quoting.exists_of_commentIndex? starts
    cases found
    refine ⟨(trim_isInfix _).trans (List.drop_suffix _ _).isInfix, trimEnd rest, ?_⟩
    have solid : isBlank '-' = false := by decide
    rw [List.drop_left, trim, trimStart_of_not_blank solid]
    exact trimEnd_append_mark solid ['-'] rest

end Text

structure CommentKept (inBlock : Bool) (line : Text) (rows : List Text) : Prop where
  /-- A line comment outside of block comments is a row, apart from the blanks it starts with. -/
  whole : inBlock = false → Text.isLineComment line = true →
    ∃ width, Text.spaces width ++ Text.trimStart line ∈ rows
  /-- A comment behind code is a part of a row. -/
  behind : ∀ comment, Reader.isRemark inBlock line = false →
    (Text.codeLine (Text.trim line)).comment = some comment → ∃ row ∈ rows, comment <:+: row

theorem CommentKept.mono {inBlock : Bool} {line : Text} {few many : List Text}
    (kept : CommentKept inBlock line few) (more : ∀ row ∈ few, row ∈ many) :
    CommentKept inBlock line many := by
  constructor
  · intro outside isComment
    obtain ⟨width, member⟩ := kept.whole outside isComment
    exact ⟨width, more _ member⟩
  · intro comment noComment found
    obtain ⟨row, member, inside⟩ := kept.behind comment noComment found
    exact ⟨row, more row member, inside⟩

theorem commentKept_of_occur {options : Options} {nodes : List Node} {out line : Text}
    {inBlock : Bool} (laid : Layout.text options nodes = .ok out) (single : '\n' ∉ line)
    (occur : ∀ cells, Reader.Passage inBlock [line] cells →
      Cell.Occur cells (nodes.flatMap Node.itemTrail)) :
    CommentKept inBlock line (Text.seenLines out) := by
  have solid : Text.isBlank '-' = false := by decide
  constructor
  · rintro rfl isComment
    have seen := Text.isBlankText_of_startsWith solid isComment
    have shorter : Text.trimStart line <:+: line := (List.dropWhile_suffix _).isInfix
    have remark : Reader.allRemarks false [line] = true := by
      simp [Reader.allRemarks, Reader.isRemark, isComment]
    obtain ⟨width, inside⟩ := @Layout.infix_lines_of_notes options nodes out (Text.trimStart line)
      [] laid (occur _ (.remarks remark))
      (by simpa using fun newline => single (shorter.subset newline)) seen (by simp)
    refine ⟨width, List.mem_filter.mpr ⟨inside.subset (List.mem_cons_self ..), ?_⟩⟩
    simp [Text.isBlankText_of_isInfix (List.suffix_append (Text.spaces width) _).isInfix seen]
  · intro comment noComment found
    obtain ⟨inside, rest, rfl⟩ := Text.comment_of_codeLine found
    have outside : inBlock = false := by
      simp only [Reader.isRemark, Bool.or_eq_false_iff] at noComment
      exact noComment.1.1
    subst outside
    have occurs := occur _ (.code noComment)
    rw [found] at occurs
    refine Layout.exists_row_of_slot laid occurs solid ?_
    exact fun newline => single ((inside.trans (Text.trim_isInfix line)).subset newline)

/-! ## Main results -/

namespace Layout

theorem text_append {options : Options} {front back : List Node} {out : Text}
    (laid : text options (front ++ back) = .ok out) :
    ∃ upper lower, text options front = .ok upper ∧ text options back = .ok lower ∧
      Text.seenLines out = Text.seenLines upper ++ Text.seenLines lower := by
  obtain ⟨pieces, laidNodes, rfl⟩ := text_eq_ok.mp laid
  obtain ⟨upper, lower, laidUpper, laidLower, rfl⟩ := layNodes_append laidNodes
  refine ⟨_, _, text_eq_ok.mpr ⟨upper, laidUpper, rfl⟩, text_eq_ok.mpr ⟨lower, laidLower, rfl⟩, ?_⟩
  simp only [Piece.seenLines_assemble, List.flatMap_append]

end Layout

/-- Every comment of a schema stands in its text, and a comment inside a definition of several
lines, behind the line of its opening brace, stands among the lines of that definition. -/
theorem comments_kept_in_place (text : Text) (options : Options) (root : Node) (out : Text)
    (read : Node.ofText text options = .ok root) (laid : root.toText options = .ok out) :
    (∀ before line behind, Text.lines text = before ++ line :: behind →
      CommentKept (LineKind.blockAfterAll false before) line (Text.lines out)) ∧
    ∀ above node opening closing,
      Reader.Spans (Limits.ofOptions options (Text.lines text).length) (Text.lines text) above node
        opening closing →
      ∃ below upper own lower, root.children = above ++ node :: below ∧
        Layout.text options above = .ok upper ∧ Layout.text options [node] = .ok own ∧
        Layout.text options below = .ok lower ∧
        Text.seenLines out = Text.seenLines upper ++ (Text.seenLines own ++ Text.seenLines lower) ∧
        ∀ before line behind, Text.lines text = before ++ line :: behind →
          opening < before.length → before.length ≤ closing →
          CommentKept (LineKind.blockAfterAll false before) line (Text.seenLines own) := by
  obtain ⟨nodes, after, run, rfl⟩ := (Reader.ofText_eq_ok ..).mp read
  have laid : Layout.text options nodes = .ok out := laid
  have single : ∀ before line behind, Text.lines text = before ++ line :: behind → '\n' ∉ line := by
    intro before line behind cut
    exact Text.newline_not_mem_of_mem_lines text line (by simp [cut])
  constructor
  · intro before line behind cut
    refine (commentKept_of_occur laid (single _ _ _ cut) ?_).mono fun row => List.mem_of_mem_filter
    intro cells found
    exact Reader.occur_passage_itemsRun run cut rfl (Nat.zero_le _) found
  · intro above node opening closing spans
    obtain ⟨⟨below, rfl⟩, occur⟩ := spans.occur_passage run
    obtain ⟨upper, inner, laidUpper, laidInner, seen⟩ := Layout.text_append laid
    obtain ⟨own, lower, laidOwn, laidLower, seen'⟩ :=
      @Layout.text_append options [node] below inner laidInner
    refine ⟨below, upper, own, lower, rfl, laidUpper, laidOwn, laidLower, by rw [seen, seen'], ?_⟩
    intro before line behind cut behindBrace inside
    refine commentKept_of_occur laidOwn (single _ _ _ cut) ?_
    intro cells found
    rw [List.flatMap_singleton]
    exact occur before line behind cells cut behindBrace inside found

/-- A schema has a tree with a layout if reading and laying it out succeed. -/
theorem exists_tree {text : Text} {options : Options}
    (success : (Node.ofText text options >>= (·.toText options)).toOption.isSome = true) :
    ∃ root out, Node.ofText text options = .ok root ∧ root.toText options = .ok out := by
  cases found : Node.ofText text options >>= (·.toText options) with
  | error fault =>
    rw [found] at success
    cases success
  | ok out =>
    obtain ⟨root, read, laid⟩ := (bind_eq_ok ..).mp found
    exact ⟨root, out, read, laid⟩

/-- A line comment between two members, and a comment behind the first of them. -/
theorem comments_kept_in_place_two_members :
    let source : Text := ("A ::= SEQUENCE \x7b\n  a INTEGER, -- first\n" ++
      "      -- second\n  b BOOLEAN\n\x7d").toList
    ∃ root out above node below upper own lower,
      Node.ofText source {} = .ok root ∧ root.toText {} = .ok out ∧
      (∃ width, Text.spaces width ++ "-- second".toList ∈ Text.lines out) ∧
      root.children = above ++ node :: below ∧ Layout.text {} above = .ok upper ∧
      Layout.text {} [node] = .ok own ∧ Layout.text {} below = .ok lower ∧
      Text.seenLines out = Text.seenLines upper ++ (Text.seenLines own ++ Text.seenLines lower) ∧
      ∃ row ∈ Text.seenLines own, "-- first".toList <:+: row := by
  intro source
  obtain ⟨root, out, read, laid⟩ := @exists_tree source {} (by decide +kernel)
  obtain ⟨kept, inPlace⟩ := comments_kept_in_place source {} root out read laid
  obtain ⟨⟨node, count⟩, between, readNode, test⟩ := @Reading.exists_yields _
    (Reader.readItem (Limits.ofOptions {} 5) 1 "A ::= SEQUENCE \x7b".toList
      (Text.lines source).tail) {} (fun item => item.1.oneLine = some false && item.2 = 4)
    (by decide +kernel)
  obtain ⟨type, typed, readType, none⟩ := @Reading.exists_yields _
    (Reader.readType (Limits.ofOptions {} 5) 1 (Reader.firstType "A ::= SEQUENCE \x7b".toList)
      (Text.lines source).tail) (Reader.pass (Reader.counted {}) "A ::= SEQUENCE \x7b".toList)
    (·.count = 0) (by decide +kernel)
  simp only [Bool.and_eq_true, decide_eq_true_eq] at test none
  obtain ⟨several, rfl⟩ := test
  have spans : Reader.Spans (Limits.ofOptions {} (Text.lines source).length) (Text.lines source)
      ([] ++ between.setAside) node (0 + type.count) (0 + 4) :=
    .definition .start (by decide +kernel) (by decide +kernel) readNode several readType
  obtain ⟨below, upper, own, lower, children, laidUpper, laidOwn, laidLower, seen, inside⟩ :=
    inPlace _ _ _ _ spans
  refine ⟨root, out, _, node, below, upper, own, lower, read, laid, ?_, children, laidUpper,
    laidOwn, laidLower, seen, ?_⟩
  · exact (kept ((Text.lines source).take 2) "      -- second".toList ((Text.lines source).drop 3)
      (by decide +kernel)).whole (by decide +kernel) (by decide +kernel)
  · exact (inside ((Text.lines source).take 1) "  a INTEGER, -- first".toList
      ((Text.lines source).drop 2) (by decide +kernel) (by rw [none]; decide +kernel)
      (by decide +kernel)).behind _ (by decide +kernel) (by decide +kernel)

/-! ## Block comments -/

/-- The lines of a block comment: it ends on its first line, or on the next line that ends with the
closing sign. -/
inductive BlockComment : Text → List Text → Prop where
  | single {first : Text} (starts : Text.startsBlock first = true)
      (closed : Text.leavesBlockOpen first = false) : BlockComment first []
  | several {first last : Text} {middle : List Text} (opens : Text.leavesBlockOpen first = true)
      (goesOn : ∀ line ∈ middle, Text.endsBlock line = false) (ends : Text.endsBlock last = true) :
      BlockComment first (middle ++ [last])

namespace BlockComment

variable {first : Text} {later : List Text}

theorem startsBlock (block : BlockComment first later) : Text.startsBlock first = true := by
  cases block with
  | single starts closed => exact starts
  | several opens goesOn ends =>
    simp only [Text.leavesBlockOpen, Bool.and_eq_true] at opens
    exact opens.1

theorem getLast_seen (block : BlockComment first later) :
    ∀ last, later.getLast? = some last → Text.isBlankText last = false := by
  intro last isLast
  cases block with
  | single starts closed => cases isLast
  | several opens goesOn ends =>
    rw [List.getLast?_concat] at isLast
    cases isLast
    exact Text.isBlankText_of_endsBlock ends

theorem noteCells_eq (block : BlockComment first later) :
    Reader.allRemarks false (first :: later) = true ∧
      Reader.noteCells false (first :: later) =
        .note (Text.trimStart first) false :: later.map (.note · true) := by
  have open' : ∀ (middle : List Text) (last : Text),
      (∀ line ∈ middle, Text.endsBlock line = false) →
      Reader.allRemarks true (middle ++ [last]) = true ∧
        Reader.noteCells true (middle ++ [last]) = (middle ++ [last]).map (.note · true) := by
    intro middle last goesOn
    induction middle with
    | nil => exact ⟨rfl, rfl⟩
    | cons line rest ih =>
      have stays : LineKind.blockAfter true line = true := by
        simp [LineKind.blockAfter, goesOn line (List.mem_cons_self ..)]
      obtain ⟨remarks, cells⟩ := ih fun other member => goesOn other (List.mem_cons_of_mem _ member)
      simp only [List.cons_append, Reader.allRemarks, Reader.noteCells, stays, remarks, cells]
      exact ⟨rfl, rfl⟩
  have starts := block.startsBlock
  cases block with
  | single _ closed => exact ⟨by simp [Reader.allRemarks, Reader.isRemark, starts], rfl⟩
  | @several last middle opens goesOn ends =>
    obtain ⟨remarks, cells⟩ := open' middle last goesOn
    have behind : LineKind.blockAfter false first = true := opens
    rw [Reader.allRemarks, Reader.noteCells, behind, remarks, cells]
    exact ⟨by simp [Reader.isRemark, starts], rfl⟩

end BlockComment

/-- The lines of a block comment follow each other in the formatted text: the first one up to the
blanks it starts with, the others as they are.  Only empty lines behind two empty ones are missing,
so without three empty lines in a row none is. -/
theorem format_block_comment (source : Text) (configuration : Configuration)
    (noReturn : '\r' ∉ source) (noTab : '\t' ∉ source) (root : Node) (out : Text)
    (read : Node.ofText source (Format.options configuration).result = .ok root)
    (laid : root.toText (Format.options configuration).result = .ok out)
    (before behind later : List Text) (first : Text)
    (cut : Text.lines source = before ++ (first :: later ++ behind))
    (outside : LineKind.blockAfterAll false before = false) (block : BlockComment first later) :
    ∃ width above below,
      Text.lines (Format.text source configuration).result =
        above ++ ((Text.spaces width ++ Text.trimStart first) :: Text.cutGaps 0 later) ++ below ∧
      (¬[[], [], []] <:+: later → Text.cutGaps 0 later = later) := by
  have member : ∀ line ∈ first :: later, line ∈ Text.lines source := by
    intro line inBlock
    rw [cut]
    exact List.mem_append_right _ (List.mem_append_left _ inBlock)
  have seenFirst := Text.isBlankText_of_startsWith (show Text.isBlank '-' = false by decide)
    block.startsBlock
  have shorter : Text.trimStart first <:+: first := (List.dropWhile_suffix _).isInfix
  have seenSource : Text.isBlankText source = false := by
    have inSource := Text.infix_of_mem_lines source first (member _ (List.mem_cons_self ..))
    exact Text.isBlankText_of_isInfix (shorter.trans inSource) seenFirst
  rw [Format.result_of_tree seenSource (by rwa [Text.plainSource_of_not_mem noReturn noTab]) laid]
  obtain ⟨nodes, after, run, rfl⟩ := (Reader.ofText_eq_ok ..).mp read
  obtain ⟨remarks, cells⟩ := block.noteCells_eq
  have occur := Reader.occur_passage_itemsRun run cut rfl (Nat.zero_le _)
    (by rw [List.drop_zero, outside]; exact .remarks remarks)
  rw [cells] at occur
  obtain ⟨width, above, below, whole⟩ := Layout.infix_lines_of_notes laid occur (by
    intro line inBlock newline
    rcases List.mem_cons.mp inBlock with rfl | inLater
    · exact Text.newline_not_mem_of_mem_lines source first (member _ (List.mem_cons_self ..))
        (shorter.subset newline)
    · exact Text.newline_not_mem_of_mem_lines source line
        (member _ (List.mem_cons_of_mem _ inLater)) newline) seenFirst block.getLast_seen
  exact ⟨width, above, below, whole.symm, Text.cutGaps_eq_self⟩

/-- A block comment in a group, with an empty line in it. -/
theorem format_block_comment_in_group :
    let source : Text := "A ::= SET \x7b\n    -* a\n\n    b *-\n  x NULL\n\x7d".toList
    ∃ width above below, Text.lines (Format.text source .absent).result =
      above ++ ((Text.spaces width ++ "-* a".toList) :: [[], "    b *-".toList]) ++ below := by
  intro source
  obtain ⟨root, out, read, laid⟩ := @exists_tree source {} (by decide +kernel)
  have block : BlockComment "    -* a".toList ([[]] ++ ["    b *-".toList]) :=
    .several (by decide +kernel) (by decide +kernel) (by decide +kernel)
  obtain ⟨width, above, below, whole, -⟩ := format_block_comment source .absent (by decide)
    (by decide) root out read laid ["A ::= SET \x7b".toList] ["  x NULL".toList, ['\x7d']] _ _
    (by decide +kernel) (by decide +kernel) block
  exact ⟨width, above, below, whole⟩

/-- Of three empty lines in a block comment one is lost. -/
theorem format_block_comment_three_empty_lines :
    let source : Text := "-* a\n\n\n\nb *-\n".toList
    let later : List Text := [[], [], []] ++ ["b *-".toList]
    (∃ root out, Node.ofText source {} = .ok root ∧ root.toText {} = .ok out) ∧
      Text.lines source = "-* a".toList :: later ++ [[]] ∧ BlockComment "-* a".toList later ∧
      ∀ width, ¬(Text.spaces width ++ Text.trimStart "-* a".toList) :: later <:+:
        Text.lines (Format.text source .absent).result := by
  intro source later
  have result : Text.lines (Format.text source .absent).result =
      ["-* a".toList, [], [], "b *-".toList, []] := by decide +kernel
  refine ⟨exists_tree (by decide +kernel), by decide +kernel,
    .several (by decide +kernel) (by decide +kernel) (by decide +kernel), ?_⟩
  intro width inside
  rw [result] at inside
  have empty : [[], [], []] <:+: (Text.spaces width ++ Text.trimStart "-* a".toList) :: later :=
    ⟨[Text.spaces width ++ Text.trimStart "-* a".toList], ["b *-".toList], rfl⟩
  have none : ¬([[], [], []] : List Text) <:+: ["-* a".toList, [], [], "b *-".toList, []] := by
    decide +kernel
  exact none (empty.trans inside)

end AsnLayout
