import AsnLayout.Proofs.BodyLayout
import AsnLayout.Proofs.ReadItems

/-!
# Rows of items

The rows that the items of a schema are laid out on are read as items again.
-/

set_option autoImplicit false

namespace AsnLayout

/-! ## Assignments -/

namespace Text

theorem prefix_of_append {c : Char} {mark front back : Text} (absent : c ∉ mark)
    (starts : mark <+: front ++ c :: back) : mark <+: front := by
  rcases List.prefix_or_prefix_of_prefix starts (List.prefix_append front (c :: back)) with
    short | ⟨rest, rfl⟩
  · exact short
  · cases rest with
    | nil => rw [List.append_nil]
    | cons d rest =>
      obtain ⟨tail, same⟩ := starts
      rw [List.append_assoc, List.append_cancel_left_eq] at same
      obtain ⟨rfl, -⟩ := List.cons.inj same
      simp at absent

theorem cutAt?_assignment {front : Text} (absent : contains front assignmentSign = false)
    (back : Text) : cutAt? assignmentSign (front ++ ' ' :: (assignmentSign ++ back)) =
      some (front ++ [' '], back) := by
  induction front with
  | nil => rfl
  | cons c front ih =>
    rw [contains, cutAt?] at absent
    split at absent
    · cases absent
    · rename_i noStart
      rw [Option.isSome_map] at absent
      rw [List.cons_append, cutAt?, if_neg, ih absent]
      · rfl
      · intro starts
        have short := @prefix_of_append ' ' _ (c :: front) _ (by decide)
          (List.isPrefixOf_iff_prefix.mp starts)
        exact noStart (List.isPrefixOf_iff_prefix.mpr short)

theorem memberForm_ne_nil {t : Text} {c : Char} (member : c ∈ t) (seen : isBlank c = false)
    (noComma : c ≠ ',') : memberForm t ≠ [] := by
  intro empty
  have kept := solidTally.text_memberForm t
  rw [empty, solidTally_text, solidTally_text] at kept
  have none := FreeMonoid.ofList.injective kept
  have inside : c ∈ t.filter AsnLayout.isSolid :=
    List.mem_filter.mpr ⟨member, by simp [AsnLayout.isSolid, seen, noComma]⟩
  rw [← none] at inside
  cases inside

theorem trim_assignment {name : Text} (isName : IsName name) (type : Text) :
    trim (name ++ ' ' :: (assignmentSign ++ ' ' :: type)) =
      name ++ ' ' :: (assignmentSign ++ trimEnd (' ' :: type)) := by
  obtain ⟨c, rest, rfl, solid⟩ := isName.starts
  have whole : (c :: rest) ++ ' ' :: (assignmentSign ++ ' ' :: type) =
      ((c :: rest) ++ [' ', ':', ':']) ++ '=' :: ' ' :: type := by simp [assignmentSign]
  have ends := trimEnd_append_mark (show isBlank '=' = false by decide)
    ((c :: rest) ++ [' ', ':', ':']) (' ' :: type)
  rw [← whole] at ends
  rw [trim, List.cons_append, trimStart_of_not_blank solid, ← List.cons_append, ends]
  simp [assignmentSign]

structure IsAssignment (row type : Text) : Prop where
  named : Reader.definitionName row ≠ []
  type : (Reader.firstType row).code = trim type

theorem IsRow.definitionSides {row name type : Text} {comment : Option Text}
    (isRow : IsRow row (trim (name ++ ' ' :: (assignmentSign ++ ' ' :: type))) comment)
    (isName : IsName name) : Reader.definitionSides row = (name ++ [' '], trimEnd (' ' :: type)) := by
  rw [Reader.definitionSides, isRow.code, trim_assignment isName, cutAt?_assignment isName.noSign]
  rfl

theorem IsRow.isAssignment {row name type : Text} {comment : Option Text}
    (isRow : IsRow row (trim (name ++ ' ' :: (assignmentSign ++ ' ' :: type))) comment)
    (isName : IsName name) : IsAssignment row type := by
  have sides := isRow.definitionSides isName
  obtain ⟨c, member, seen, noComma⟩ := isName.solid
  refine ⟨?_, ?_⟩
  · rw [Reader.definitionName, sides]
    exact memberForm_ne_nil (List.mem_append_left _ member) seen noComma
  · rw [Reader.firstType, sides]
    exact (trim_trimEnd _).trans (trim_space_cons type)

end Text

/-! ## Items in order -/

namespace Reader

/-- Rows that are read to their end, item by item. -/
def Admits (limits : Limits) (inBlock : Bool) (rows : List Text) : Prop :=
  ∀ (reader : Reader) (number : Nat), reader.inBlock = inBlock →
    (reader.linesRead + rows.length : Int) ≤ limits.lines →
    ∃ nodes after, ItemsRun limits reader number 0 rows nodes after

variable {limits : Limits} {inBlock : Bool} {row : Text} {rows rest : List Text}

theorem admits_nil : Admits limits inBlock [] :=
  fun reader number _ _ => ⟨[], reader, .done reader number 0⟩

theorem admits_item {more : List Text} {after : Bool}
    (read : ∀ (reader : Reader) (number : Nat), reader.inBlock = inBlock →
      (reader.linesRead + (more.length + 1) : Int) ≤ limits.lines → ∃ node between,
        Reading.Yields (readItem limits number row (more ++ rest)) reader (node, more.length)
          between ∧ between.inBlock = after ∧
        between.linesRead = reader.linesRead + (more.length + 1))
    (later : Admits limits after rest) : Admits limits inBlock (row :: (more ++ rest)) := by
  intro reader number block room
  rw [List.length_cons, List.length_append] at room
  obtain ⟨node, between, item, block', count⟩ := read reader number block (by omega)
  obtain ⟨nodes, last, run⟩ := later { between with setAside := [] } (number + 1 + more.length)
    block' (by simp only [count]; omega)
  refine ⟨between.setAside ++ node :: nodes, last, .item item (itemsRun_skip.mpr ?_)⟩
  rwa [List.drop_left]

theorem admits_cons (kind : LineKind.ofLine inBlock row ≠ .typeDefinition)
    (later : Admits limits (LineKind.blockAfter inBlock row) rest) :
    Admits limits inBlock (row :: rest) := by
  refine @admits_item limits inBlock row rest [] _ ?_ later
  rintro reader number rfl room
  obtain ⟨block, count⟩ := lineItem_passes reader.counted number row
  refine ⟨(reader.counted.lineItem number row).1, (reader.counted.lineItem number row).2,
    (yields_readItem ..).mpr ⟨room, ?_⟩, block, count⟩
  rw [if_neg kind]
  exact ⟨rfl, rfl⟩

/-! ## Definitions -/

theorem yields_definition {type : Text} {more : List Text} {reader last : Reader} {number : Nat}
    {result : Node} (kind : LineKind.ofLine false row = .typeDefinition)
    (assigns : Text.IsAssignment row type) (filled : Text.trim type ≠ [])
    (whole : hasBrace (Text.trim type) = true ∨ bracesNext (more ++ rest) = false)
    (block : reader.inBlock = false) (room : MayRead limits reader)
    (run : GroupRun limits number (more ++ rest)
      (definitionNode (reader.counted.pass row) number row (firstType row)) (firstType row)
      (reader.counted.pass row) result more.length last) :
    Reading.Yields (readItem limits number row (more ++ rest)) reader (result, more.length) last := by
  refine (yields_readItem ..).mpr ⟨room, ?_⟩
  rw [block, if_pos kind]
  refine (yields_readDefinition ..).mpr ⟨assigns.named, firstType row, reader.counted.pass row,
    (yields_readType ..).mpr ⟨firstType row, reader.counted.pass row, ?_, ?_⟩, run⟩
  · rw [assigns.type, if_neg filled]
    exact ⟨rfl, rfl⟩
  · rw [assigns.type, if_neg]
    · exact ⟨rfl, rfl⟩
    · rcases whole with braced | unbraced
      · simp [braced]
      · simp [firstType, unbraced]

/-- A definition whose type starts on its first row, and the items behind it. -/
theorem admits_definition {type : Text} {more : List Text}
    (kind : LineKind.ofLine false row = .typeDefinition) (noRemark : isRemark false row = false)
    (assigns : Text.IsAssignment row type) (filled : Text.trim type ≠ [])
    (whole : hasBrace (Text.trim type) = true ∨ bracesNext (more ++ rest) = false)
    (group : ∀ (reader : Reader) (number : Nat) (node : Node), reader.inBlock = false →
      (reader.linesRead + more.length : Int) ≤ limits.lines → ∃ result last,
        GroupRun limits number (more ++ rest) node (firstType row) reader result more.length last ∧
          last.inBlock = false ∧ last.linesRead = reader.linesRead + more.length)
    (later : Admits limits false rest) : Admits limits false (row :: (more ++ rest)) := by
  refine admits_item ?_ later
  intro reader number block room
  have block' : (reader.counted.pass row).inBlock = false :=
    (congrArg (LineKind.blockAfter · row) block).trans
      (LineKind.blockAfter_of_not_isRemark noRemark)
  obtain ⟨result, last, run, behind, count⟩ := group (reader.counted.pass row) number
    (definitionNode (reader.counted.pass row) number row (firstType row)) block'
    (by simp only [pass, counted]; omega)
  refine ⟨result, last, yields_definition kind assigns filled whole block ?_ run, behind, ?_⟩
  · rw [MayRead]
    omega
  · rw [count]
    simp only [pass, counted]
    omega

theorem admits_whole {type : Text} (kind : LineKind.ofLine false row = .typeDefinition)
    (noRemark : isRemark false row = false) (assigns : Text.IsAssignment row type)
    (filled : Text.trim type ≠ [])
    (unbraced : hasBrace (Text.trim type) = true ∨ bracesNext rest = false)
    (whole : isWhole (Text.trim type) = true) (later : Admits limits false rest) :
    Admits limits false (row :: rest) := by
  refine @admits_definition limits row rest type [] kind noRemark assigns filled unbraced ?_ later
  intro reader number node block room
  have read : ∃ result, GroupRun limits number ([] ++ rest) node (firstType row) reader result 0
      reader := by
    simp only [GroupRun, assigns.type]
    cases shape : shapeOf (Text.trim type) with
    | plain => exact ⟨_, rfl, rfl, trivial⟩
    | inline header inside trailer => exact ⟨_, rfl, rfl, trivial⟩
    | opened header first => simp [isWhole, shape] at whole
    | unbalanced => simp [isWhole, shape] at whole
  obtain ⟨result, run⟩ := read
  exact ⟨result, reader, run, block, rfl⟩

theorem hasBrace_of_opened {code header first : Text}
    (opened : shapeOf code = .opened header first) : hasBrace code = true := by
  rw [shapeOf] at opened
  split at opened
  · cases opened
  · rename_i brace found
    rw [hasBrace, found]
    rfl

/-- A definition whose group is opened on its first row takes the rows of its body and the row that
closes it. -/
theorem admits_group {type header close code : Text} {comment : Option Text} {body : List Text}
    (kind : LineKind.ofLine false row = .typeDefinition) (noRemark : isRemark false row = false)
    (assigns : Text.IsAssignment row type) (filled : Text.trim type ≠ [])
    (opened : shapeOf (Text.trim type) = .opened header []) (deep : 0 < limits.depth)
    {start : Body → Prop}
    (starts : ∀ node : Node, node.groupKind = some (GroupKind.ofHeader header) →
      start { top := { node } })
    (leads : Leads limits false start body false (Body.Rests · ['}'] false))
    (closes : Text.IsRow close code comment) (calm : Text.Calm code)
    (seen : Text.isBlankText code = false)
    (ends : ∀ (body : Body) (number : Nat), body.Rests ['}'] false → ∃ node,
      body.readLine limits.depth ⟨code, comment⟩ number = .ok (.closed node))
    (later : Admits limits false rest) :
    Admits limits false (row :: (body ++ [close] ++ rest)) := by
  refine admits_definition kind noRemark assigns filled (.inl (hasBrace_of_opened opened)) ?_ later
  intro reader number node block room
  rw [List.length_append, List.length_singleton] at room
  obtain ⟨reader', body', block', count, rests, onward⟩ := leads reader
    { top := { node := openedNode node (firstType row) header } } (number + 1) block
    (starts _ rfl) (by omega)
  obtain ⟨result, taken⟩ := ends body' (number + 1 + body.length) rests
  obtain ⟨run, behind⟩ := bodyRun_close closes calm seen block' (by omega) taken rest
  refine ⟨result, reader'.counted.pass close, ?_, behind, ?_⟩
  · rw [GroupRun, assigns.type, opened]
    refine ⟨.more { top := { node := openedNode node (firstType row) header } }, ?_,
      1 + body.length, ?_, ?_⟩
    · rw [Body.start, if_neg (by omega)]
      rfl
    · rw [List.append_assoc]
      exact onward _ _ _ _ run
    · rw [List.length_append, List.length_singleton]
      simp only [firstType]
      omega
  · rw [List.length_append, List.length_singleton]
    simp only [pass, counted, count]
    omega

theorem shapeOf_opener {header held : Text} (hides : Text.Hides header held)
    (unbraced : '{' ∉ Text.brackets header) :
    ∃ front, shapeOf (Text.trim (Layout.opener header)) = .opened front [] ∧
      (Text.Calm header → GroupKind.ofHeader front = GroupKind.ofHeader header) := by
  obtain ⟨front, whole, fits, same, kind⟩ := Body.exists_trim_opener hides
  have shown : (Quoting.after {} front).exposes '{' = true := by
    simp [Quoting.exposes, Quoting.isQuote, fits.tame.closed]
  have brackets : Text.brackets front = Text.brackets header := same _ tellsApart_isBracket
  have absent : '{' ∉ Text.brackets front := brackets ▸ unbraced
  have found : Text.findExposed? (front ++ '{' :: []) (· = '{') = some front.length :=
    Text.findExposed?_brace_eq_some.mpr ⟨shown, absent⟩
  refine ⟨Text.neat front, ?_, kind⟩
  rw [whole, shapeOf, found]
  have inside : (front ++ ['{']).drop (front.length + 1) = [] :=
    List.drop_eq_nil_of_le (by simp)
  simp only [List.take_left, inside]
  rfl

end Reader

/-! ## Pieces -/

namespace Text

theorem codeKind_assignment {name header : Text} (calm : Calm name) (calm' : Calm header) :
    codeKind (trim (name ++ ' ' :: (assignmentSign ++ ' ' :: Layout.opener header))) =
      .typeDefinition := by
  have space : joinsWord ' ' = false := by decide +kernel
  have none : ∀ word : Text, isJoined word = true → word ≠ [] →
      holdsWord word false name = false → holdsWord word false assignmentSign = false →
      holdsWord word false (Layout.opener header) = false →
      holdsWord word false
        (trim (name ++ ' ' :: (assignmentSign ++ ' ' :: Layout.opener header))) = false := by
    intro word joined filled first second third
    rw [holdsWord_trim joined filled, holdsWord_append space joined filled,
      holdsWord_append space joined filled, first, second, third]
    rfl
  rw [codeKind_eq_typeDefinition]
  refine ⟨?_, ?_, ?_, ?_⟩
  · exact isModuleHeader_of_noHeader (none _ isJoined_definitionsWord (by decide) calm.noHeader
      (by decide +kernel) calm'.opener.noHeader)
  · have ends : ∃ front, name ++ ' ' :: (assignmentSign ++ ' ' :: Layout.opener header) =
        front ++ ['{'] := by
      unfold Layout.opener
      split
      · exact ⟨name ++ " ::= ".toList, by simp [assignmentSign]⟩
      · exact ⟨name ++ " ::= ".toList ++ (header ++ [' ']), by simp [assignmentSign]⟩
    obtain ⟨front, whole⟩ := ends
    have trimmed : trim (front ++ ['{']) = trimStart front ++ ['{'] := by
      rw [trim, trimStart_append_mark (by decide)]
      exact trimEnd_append_mark (by decide) _ []
    rw [whole, trimmed, opensModule, endsWithWord, List.reverse_append]
    rfl
  · exact startsWithWord_of_noEnd (none _ isJoined_endWord (by decide) calm.noEnd
      (by decide +kernel) calm'.opener.noEnd)
  · rw [contains_trim, contains_iff (by decide)]
    exact ⟨name ++ [' '], ' ' :: Layout.opener header, by simp⟩

end Text

namespace Layout

variable {limits : Limits} {width : Int}

theorem admits_definition {name header trailer first second third : Text}
    {comment comment' : Option Text} {body : List Piece} {middle : Body → Prop}
    (hidesName : Text.Hides name first) (isName : Text.IsName name) (calmName : Text.Calm name)
    (opening : Text.Hides header second) (noted : IsNoted comment) (calm : Text.Calm header)
    (unbraced : '{' ∉ Text.brackets header)
    (closing : Text.Hides trailer third) (noted' : IsNoted comment') (calm' : Text.Calm trailer)
    (balanced : Text.braceBalance trailer = 0) (deep : 0 < limits.depth)
    (starts : ∀ body : Body, body.Rests ['}'] true →
      ((GroupKind.ofHeader header).isStructured = false → body.Counts [] ['}']) → middle body)
    (leads : Piece.Leads limits width false middle body false (Body.Rests · ['}'] false))
    (level : Int) {rest : List Text} (later : Reader.Admits limits false rest) :
    Reader.Admits limits false ((.line level (remarked (name ++ ' ' :: (Text.assignmentSign ++
        ' ' :: opener header)) comment) :: body ++
      [.line level (remarked (closer trailer false) comment')] : List Piece).map
        (Piece.row width) ++ rest) := by
  have whole : Text.Hides (name ++ ' ' :: (Text.assignmentSign ++ ' ' :: opener header))
      (first ++ second) := by
    have hides := (hidesName.append_unmarked (show Text.isUnmarked " ::=".toList = true by
      decide)).space opening.opener
    rwa [List.append_assoc] at hides
  have seen : Text.isBlankText (name ++ ' ' :: (Text.assignmentSign ++ ' ' :: opener header)) =
      false := @Text.isBlankText_of_mem _ ':' (by simp [Text.assignmentSign]) (by decide)
  have isRow := Text.isRow_remarked whole noted
    (Piece.newline_not_mem_row_line (Piece.newline_not_mem_remarked whole noted) width level) seen
    (Piece.trim_row_line width level _)
  have closes := Text.isRow_remarked (closing.closer false) noted' (Piece.newline_not_mem_row_line
    (Piece.newline_not_mem_remarked (closing.closer false) noted') width level)
    (Text.isBlankText_closer ..) (Piece.trim_row_line width level _)
  have filled : Text.trim (opener header) ≠ [] := by
    intro empty
    have seen := Text.isBlankText_opener header
    rw [← Text.isBlankText_trim, empty] at seen
    cases seen
  obtain ⟨front, opened, kind⟩ := Reader.shapeOf_opener opening unbraced
  rw [List.cons_append, List.map_cons, List.map_append, List.cons_append]
  refine Reader.admits_group (isRow.ofLine.trans (Text.codeKind_assignment calmName calm))
    isRow.noRemark (isRow.isAssignment isName) filled opened deep (fun node group => ?_) leads
    closes (calm'.closer false).trim ?_ (fun _ _ rests => rests.readEnd closing balanced) later
  · have waits : Body.Waits { top := { node } } ['}'] := ⟨⟨[], rfl, rfl⟩, by simp⟩
    refine starts _ ⟨waits, fun _ => rfl, fun _ => rfl, fun _ _ _ => rfl⟩ fun unstructured =>
      ⟨waits, Nat.zero_le _, fun structured => ?_, rfl⟩
    have same : OpenGroup.structured { node } = (GroupKind.ofHeader front).isStructured := by
      rw [OpenGroup.structured, Node.isStructured, group]
      rfl
    rw [kind calm] at same
    rw [same, unstructured] at structured
    cases structured
  · rw [Text.isBlankText_trim]
    exact Text.isBlankText_closer ..

end Layout

end AsnLayout
