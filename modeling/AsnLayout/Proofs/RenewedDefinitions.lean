import AsnLayout.Proofs.RenewedRows

/-!
# Definitions that are read again

The rows that a definition is laid out on are read as one item, and the layout of the item is the same
again.  A definition that was wrapped comes back as one whose group takes several lines.
-/

set_option autoImplicit false

namespace AsnLayout

/-! ## Rows of definitions -/

namespace Text

theorem IsRow.definitionName {row name type : Text} {comment : Option Text}
    (isRow : IsRow row (trim (name ++ ' ' :: (assignmentSign ++ ' ' :: type))) comment)
    (isName : IsName name) : Reader.definitionName row = memberForm name := by
  rw [Reader.definitionName, isRow.definitionSides isName, memberForm, neat_concat_space]
  rfl

theorem IsRow.firstType {row name type : Text} {comment : Option Text}
    (isRow : IsRow row (trim (name ++ ' ' :: (assignmentSign ++ ' ' :: type))) comment)
    (isName : IsName name) : Reader.firstType row = { code := trim type, comment } := by
  have same := (isRow.isAssignment isName).type
  have line := congrArg CodeLine.comment isRow.line
  rw [Reader.firstType] at same ⊢
  simp only at same line
  rw [same, line]

end Text

namespace Reader

variable {limits : Limits}

/-- The lines of a body change neither the level nor what is set aside. -/
theorem bodyRun_same {reader after : Reader} {body : Body} {number count : Nat} {lines : List Text}
    {node : Node} (run : BodyRun limits reader body number lines node count after) :
    after.level = reader.level ∧ after.setAside = reader.setAside := by
  induction run with
  | comment room isComment later ih => exact ih
  | blank room kind isBlank later ih => exact ih
  | code room kind noBlank read later ih => exact ih
  | close room kind noBlank read => exact ⟨rfl, rfl⟩

structure IsOpened (frame : Node) (level : Nat) (name header : Text) (comment : Option Text) :
    Prop where
  kind : frame.kind = .typeDefinition
  name : frame.name = name
  level : frame.level = level
  groupKind : frame.groupKind = some (GroupKind.ofHeader header)
  oneLine : frame.oneLine = some false
  header : frame.header = some header
  openingComment : frame.openingComment = comment
  children : frame.children = []

theorem name_definitionNode (reader : Reader) (number : Nat) (line : Text) (type : TypeText) :
    (definitionNode reader number line type).name = definitionName line := by
  simp only [definitionNode]

theorem isOpened_openedNode (reader : Reader) (number : Nat) (line : Text) (type : TypeText)
    (header : Text) :
    IsOpened (openedNode (definitionNode reader number line type) type header) reader.level
      (definitionName line) header type.comment := by
  constructor <;> simp only [openedNode, definitionNode]

theorem shapeOf_opener_neat {header : Text} (isNeat : Text.IsNeat header)
    (closed : (Quoting.after {} header).inside = false) (unbraced : '{' ∉ Text.brackets header) :
    shapeOf (Text.trim (Layout.opener header)) = .opened header [] := by
  obtain ⟨front, whole, spaced⟩ := Body.exists_opener header
  have neat : Text.neat front = header := by
    rcases spaced with ⟨rfl, rfl⟩ | rfl
    · rfl
    · rw [Text.neat_concat_space, isNeat.neat]
  have same : Text.brackets front = Text.brackets header := by
    rcases spaced with ⟨rfl, rfl⟩ | rfl
    · rfl
    · exact (Text.signs_blank tellsApart_isBracket closed (by decide)).trans (List.append_nil _)
  have shown : (Quoting.after {} front).exposes '{' = true := by
    rcases spaced with ⟨rfl, rfl⟩ | rfl
    · rfl
    · rw [Quoting.after_append, Quoting.after_cons,
        Quoting.next_of_exposes (Text.exposes_of_closed closed (by decide)) (by decide)]
      rfl
  have opens : Text.findExposed? (front ++ '{' :: []) (· = '{') = some front.length :=
    Text.findExposed?_brace_eq_some.mpr ⟨shown, same ▸ unbraced⟩
  rw [(isNeat.opener closed).trimmed, whole, shapeOf_brace opens, neat]
  rfl

theorem groupRun_of_bodyRun {base result : Node} {type : TypeText} {header : Text} {rest : List Text}
    {start after : Reader} {number count : Nat} (shape : shapeOf type.code = .opened header [])
    (single : type.count = 0) (deep : 0 < limits.depth)
    (run : BodyRun limits start { top := { node := openedNode base type header } } (number + 1) rest
      result count after) : GroupRun limits number rest base type start result count after := by
  rw [GroupRun, shape]
  refine ⟨.more { top := { node := openedNode base type header } }, ?_, count, ?_, ?_⟩
  · rw [Body.start, if_neg (by omega)]
    rfl
  · rw [single]
    exact run
  · rw [single, Nat.zero_add]

end Reader

namespace Layout

/-! ## Types on one row -/

variable {options : Options} {node : Node}

theorem layPlainDefinition_of_none (none : wrappedGroup? options node = none) :
    layPlainDefinition options node = .ok [.line node.level
      (remarked (assignment node ++ ' ' :: node.header.getD []) node.openingComment)] := by
  unfold layPlainDefinition
  rw [wrappedGroup?] at none
  simp only [none]
  rfl

theorem layPlainDefinition_of_some {group : InlineGroup}
    (wraps : wrappedGroup? options node = some group) :
    layPlainDefinition options node = (layBody options (node.level + 1)
      (group.members.map (Item.member · none)) >>= fun body => .ok
        (.line node.level (opener group.header) :: body ++
          [.line node.level (remarked (closer group.trailer false) node.openingComment), .gap])) := by
  unfold layPlainDefinition
  rw [wrappedGroup?] at wraps
  simp only [wraps]
  rfl

theorem inlineGroup?_of_wrappedGroup? {group : InlineGroup}
    (wraps : wrappedGroup? options node = some group) :
    inlineGroup? (assignment node) (node.header.getD []) = some group := by
  rw [wrappedGroup?] at wraps
  split at wraps
  · exact wraps
  · cases wraps

/-- A type that was laid out on its row is laid out so again. -/
theorem layNode_plainNode {base : Node} {type : Reader.TypeText} (defines : base.kind = .typeDefinition)
    (name : base.name = node.name) (level : base.level = node.level)
    (header : Text.neat type.code = node.header.getD []) (comment : type.comment = node.openingComment)
    (none : wrappedGroup? options node = none) :
    layNode options (Reader.plainNode base type) = .ok [.line node.level
      (remarked (assignment node ++ ' ' :: node.header.getD []) node.openingComment)] := by
  have plain : (Reader.plainNode base type).isPlain = true := rfl
  have defines' : (Reader.plainNode base type).kind = .typeDefinition := defines
  have sameName : assignment (Reader.plainNode base type) = assignment node :=
    congrArg (· ++ " ::=".toList) name
  have sameHeader : (Reader.plainNode base type).header.getD [] = node.header.getD [] := header
  have sameLevel : (Reader.plainNode base type).level = node.level := level
  have sameComment : (Reader.plainNode base type).openingComment = node.openingComment := comment
  have none' : wrappedGroup? options (Reader.plainNode base type) = .none := by
    rw [← none]
    unfold wrappedGroup?
    rw [sameHeader, sameName, sameComment, sameLevel]
  rw [layNode_of_defines defines', if_pos plain, layPlainDefinition_of_none none', sameHeader,
    sameName, sameComment, sameLevel]

end Layout

namespace Piece

open Layout

variable {options : Options} {limits : Limits} {width : Int} {level : Nat}

theorem renews_plain {node : Node} {first second : Text}
    (plain : node.isPlain = true) (name : Text.Hides node.name first)
    (header : Text.Hides (node.header.getD []) second) (noted : IsNoted node.openingComment)
    (defined : node.Defined) (single : wrappedGroup? options node = none)
    (kind : LineKind.ofLine false (assignment node ++ ' ' :: node.header.getD []) =
      .typeDefinition) (place : node.level = level) :
    Renews options limits width (!Reader.hasBrace (node.header.getD [])) false level
      [.line node.level (remarked (assignment node ++ ' ' :: node.header.getD [])
        node.openingComment)]
      [.line node.level (remarked (assignment node ++ ' ' :: node.header.getD [])
        node.openingComment)] false level := by
  obtain ⟨seen, shape⟩ := defined.plain plain
  have trimmed : Text.trim (node.header.getD []) = node.header.getD [] := by
    rw [← defined.neat, Text.neat_eq, Text.trim_trim]
  have hides := (hides_assignment name).space header
  have filled : Text.isBlankText (assignment node ++ ' ' :: node.header.getD []) = false :=
    @Text.isBlankText_of_mem _ ':' (by simp [assignment]) (by decide)
  generalize whole : (line node.level (remarked (assignment node ++ ' ' :: node.header.getD [])
    node.openingComment)).row width = text
  have isRow : Text.IsRow text (Text.trim (assignment node ++ ' ' :: node.header.getD []))
      node.openingComment := whole ▸ Text.isRow_remarked hides noted (newline_not_mem_row_line
    (newline_not_mem_remarked hides noted) width node.level) filled (trim_row_line ..)
  have kind' : LineKind.ofLine false text = .typeDefinition := by
    have line := Text.codeLine_remarked hides isNoted_none
    rw [remarked] at line
    rw [LineKind.ofLine] at kind
    split at kind
    · cases kind
    · rw [isRow.ofLine, ← kind, line]
  rw [assignment_eq] at isRow
  have firstType := isRow.firstType defined.name
  have named := isRow.definitionName defined.name
  refine renews_item fun reader number count rest stands room unbraced => ?_
  rw [whole]
  have laid : ∀ base : Node, base.kind = .typeDefinition → base.name = Reader.definitionName text →
      base.level = node.level → layNode options (Reader.plainNode base (Reader.firstType text)) =
        .ok [.line node.level (remarked (assignment node ++ ' ' :: node.header.getD [])
          node.openingComment)] := by
    intro base defines name level
    rw [named, defined.form] at name
    refine layNode_plainNode defines name level ?_ (congrArg Reader.TypeText.comment firstType) single
    rw [firstType, trimmed, defined.neat]
  obtain ⟨block, level', aside, count'⟩ := stands
  refine ⟨Reader.plainNode (Reader.definitionNode (reader.counted.pass text) number text
    (Reader.firstType text)) (Reader.firstType text), reader.counted.pass text,
    laid _ rfl (Reader.name_definitionNode ..) ?_, ⟨?_, level', aside, ?_⟩, ?_⟩
  · rw [place, ← level']
    rfl
  · exact isRow.inBlock_pass block
  · exact congrArg (· + 1) count'
  · refine Reader.yields_definition kind' (isRow.isAssignment defined.name) ?_ ?_ block ?_ ?_
    · rw [trimmed]
      intro empty
      rw [empty] at seen
      cases seen
    · rw [trimmed]
      cases braced : Reader.hasBrace (node.header.getD []) with
      | true => exact .inl rfl
      | false => exact .inr (unbraced (by rw [braced]; rfl))
    · rw [Reader.MayRead, count']
      exact room
    · have shape' : Reader.shapeOf (Reader.firstType text).code = .plain := by
        rw [firstType, trimmed, shape]
      rw [Reader.GroupRun, shape']
      exact ⟨rfl, congrArg Reader.TypeText.count firstType, rfl⟩

end Piece

/-! ## Groups on several rows -/

namespace Layout

variable {options : Options} {level : Int} {name header trailer : Text}
  {comment comment' : Option Text} {body shown : List Piece}

def aroundGroup (level : Int) (name header : Text) (comment : Option Text) (body : List Piece)
    (trailer : Text) (comment' : Option Text) : List Piece :=
  .line level (remarked (name ++ ' ' :: (Text.assignmentSign ++ ' ' :: opener header)) comment) ::
    (body ++ [.line level (remarked (closer trailer false) comment')])

/-- What stands around the group of a definition is as the reader would have it. -/
structure Framing (name header : Text) (comment : Option Text) (trailer : Text)
    (comment' : Option Text) : Prop where
  hidesName : ∃ held, Text.Hides name held
  isName : Text.IsName name
  calmName : Text.Calm name
  form : Text.memberForm name = name
  opening : ∃ held, Text.Hides header held
  noted : IsNoted comment
  calm : Text.Calm header
  neat : Text.neat header = header
  unbraced : '{' ∉ Text.brackets header
  closing : ∃ held, Text.Hides trailer held
  noted' : IsNoted comment'
  calm' : Text.Calm trailer
  neat' : Text.neat trailer = trailer
  balanced : Text.braceBalance trailer = 0

namespace Framing

theorem isRow_front (framing : Framing name header comment trailer comment')
    (width level : Int) :
    Text.IsRow ((Piece.line level (remarked (name ++ ' ' :: (Text.assignmentSign ++
        ' ' :: opener header)) comment)).row width)
      (Text.trim (name ++ ' ' :: (Text.assignmentSign ++ ' ' :: opener header))) comment := by
  obtain ⟨first, hidesName⟩ := framing.hidesName
  obtain ⟨second, opening⟩ := framing.opening
  have hides : Text.Hides (name ++ ' ' :: (Text.assignmentSign ++ ' ' :: opener header))
      (first ++ second) := by
    have hides := (hidesName.append_unmarked (show Text.isUnmarked " ::=".toList = true by
      decide)).space opening.opener
    rwa [List.append_assoc] at hides
  have filled : Text.isBlankText (name ++ ' ' :: (Text.assignmentSign ++ ' ' :: opener header)) =
      false := @Text.isBlankText_of_mem _ ':' (by simp [Text.assignmentSign]) (by decide)
  exact Text.isRow_remarked hides framing.noted (Piece.newline_not_mem_row_line
    (Piece.newline_not_mem_remarked hides framing.noted) width level) filled (Piece.trim_row_line ..)

theorem ofLine_front (framing : Framing name header comment trailer comment')
    (width level : Int) :
    LineKind.ofLine false ((Piece.line level (remarked (name ++ ' ' :: (Text.assignmentSign ++
      ' ' :: opener header)) comment)).row width) = .typeDefinition :=
  (framing.isRow_front width level).ofLine.trans
    (Text.codeKind_assignment framing.calmName framing.calm)

theorem isRow_back (framing : Framing name header comment trailer comment')
    (width level : Int) :
    Text.IsRow ((Piece.line level (remarked (closer trailer false) comment')).row width)
      (closer trailer false) comment' := by
  obtain ⟨third, closing⟩ := framing.closing
  have isNeat := Text.isNeat_of_neat framing.neat' framing.calm'
  have closes := Text.isRow_remarked (closing.closer false) framing.noted'
    (Piece.newline_not_mem_row_line (Piece.newline_not_mem_remarked (closing.closer false)
      framing.noted') width level) (Text.isBlankText_closer ..) (Piece.trim_row_line width level _)
  rwa [(isNeat.closer closing.tame.closed false).trimmed] at closes

theorem shapeOf_front (framing : Framing name header comment trailer comment') :
    Reader.shapeOf (Text.trim (opener header)) = .opened header [] := by
  obtain ⟨second, opening⟩ := framing.opening
  exact Reader.shapeOf_opener_neat (Text.isNeat_of_neat framing.neat framing.calm)
    opening.tame.closed framing.unbraced

end Framing

theorem settle_aroundGroup (run : Nat) :
    Piece.settle run (aroundGroup level name header comment body trailer comment') =
        aroundGroup level name header comment (Piece.settle 0 body) trailer comment' ∧
      Piece.runBehind run (aroundGroup level name header comment body trailer comment') = 0 := by
  constructor
  · rw [aroundGroup, Piece.settle_line, Piece.settle_append, Piece.settle_line]
    rfl
  · rw [aroundGroup, ← List.cons_append, Piece.runBehind_append]
    rfl

/-- A definition that has been read to its end is laid out around its group. -/
theorem layNode_closed {frame : Node} {children : List Node} (defines : frame.kind = .typeDefinition)
    (several : frame.oneLine = some false) (place : frame.level = level)
    (laid : layGroup options options.maxDepth.toNat level { frame with children } = .ok shown) :
    layNode options { frame with children, trailer, closingComment := comment' } =
      .ok (aroundGroup level frame.name (frame.header.getD []) frame.openingComment shown trailer
        comment' ++ [.gap]) := by
  subst place
  have noPlain : Node.isPlain { frame with children, trailer, closingComment := comment' } = false := by
    simp [Node.isPlain, several]
  have body : definitionBody options { frame with children, trailer, closingComment := comment' } =
      .ok shown := by
    rw [← laid, definitionBody, if_neg (by simp [several])]
    rfl
  have defines' : Node.kind { frame with children, trailer, closingComment := comment' } =
      .typeDefinition := defines
  rw [layNode_of_defines defines', if_neg (by simp [noPlain]), layGroupDefinition_eq, body,
    opener_definitionFront]
  simp [aroundGroup, bind, Except.bind, pure, Except.pure]

end Layout

namespace Body

open Layout

theorem Displays.readEnd {options : Options} {room : Nat} {level : Int} {frame : Node}
    {shown : List Piece} {body : Body} {trailer : Text} {comment : Option Text} {limit : Int}
    (displays : body.Displays options room level [] frame false shown)
    (neat : Text.neat trailer = trailer) (balanced : Text.braceBalance trailer = 0)
    (number : Nat) :
    ∃ children, layGroup options room level { frame with children } = .ok shown ∧
      body.readLine limit ⟨closer trailer false, comment⟩ number =
        .ok (.closed { frame with children, trailer, closingComment := comment }) := by
  obtain ⟨children, node, laid, below, settled⟩ := displays.close number
  refine ⟨children, laid, ?_⟩
  obtain ⟨tail, whole, spaced⟩ := exists_closer trailer false
  have neat' : Text.neat tail = trailer := by
    rcases spaced with ⟨rfl, rfl⟩ | rfl
    · exact neat
    · rw [Text.neat_space, neat]
  have balanced' : Text.braceBalance tail = 0 := by
    rcases spaced with ⟨rfl, rfl⟩ | rfl
    · exact balanced
    · have same : Text.brackets (' ' :: trailer) = Text.brackets trailer :=
        @Text.signs_blank _ tellsApart_isBracket ' ' [] trailer rfl (by decide)
      rw [Text.braceBalance_eq, same, ← Text.braceBalance_eq, balanced]
  have settled' : body.startLine.top.brackets = 0 := settled
  have below' : body.startLine.below = [] := below
  rw [whole, readLine, readCode]
  simp only [show Quoting.exposes {} '}' = true from rfl, settled', below', node]
  simp [closeDefinition, withComma, neat', balanced', Except.map]

end Body

namespace Piece

open Layout

variable {options : Options} {limits : Limits} {width : Int} {level : Nat}

/-- The body of a definition is read up to the row that closes the definition. -/
theorem exists_bodyRun {frame : Node} {body : List Piece} {more : Bool} {trailer close : Text}
    {comment : Option Text} {place : Int} (bare : frame.children = [])
    (inside : Builds limits width false
      (Body.Displays options options.maxDepth.toNat place [] frame more) body false
      (Body.Displays options options.maxDepth.toNat place [] frame false))
    (closes : Text.IsRow close (closer trailer false) comment) (calm : Text.Calm trailer)
    (neat : Text.neat trailer = trailer) (balanced : Text.braceBalance trailer = 0)
    {start : Reader} {count : Nat} (started : start.At false level count)
    (room : (count + (settle 0 body).length + 1 : Int) ≤ limits.lines) (number : Nat)
    (rest : List Text) :
    ∃ children after,
      layGroup options options.maxDepth.toNat place { frame with children } = .ok (settle 0 body) ∧
      after.At false level (count + (settle 0 body).length + 1) ∧
      Reader.BodyRun limits start { top := { node := frame } } number
        ((settle 0 body).map (row width) ++ close :: rest)
        { frame with children, trailer, closingComment := comment } (1 + (settle 0 body).length)
        after := by
  obtain ⟨reader, last, block, read, displays, onward⟩ :=
    inside 0 [] start { top := { node := frame } } number started.block
      (Body.displays_begin bare ..) (by rw [started.linesRead, List.length_map]; omega)
  rw [List.length_map] at read onward
  rw [started.linesRead] at read
  obtain ⟨children, laid, taken⟩ := @Body.Displays.readEnd options _ _ frame _ last trailer comment
    limits.depth displays neat balanced (number + (settle 0 body).length)
  obtain ⟨closed, behind⟩ := Reader.bodyRun_close closes (calm.closer false)
    (Text.isBlankText_closer ..) block (by rw [read]; push_cast; omega) taken rest
  have run := onward _ _ _ _ closed
  obtain ⟨level', aside⟩ := Reader.bodyRun_same run
  refine ⟨children, reader.counted.pass close, laid, ⟨behind, ?_, ?_, ?_⟩, run⟩
  · rw [level', started.level]
  · rw [aside, started.setAside]
  · exact congrArg (· + 1) read

/-- A definition whose group takes several rows. -/
theorem renews_opened {name header trailer : Text} {comment comment' : Option Text}
    {body : List Piece} {more : Bool} (framing : Framing name header comment trailer comment')
    (deep : 0 < limits.depth)
    (inside : ∀ frame : Node, frame.children = [] →
      frame.isStructured = (GroupKind.ofHeader header).isStructured →
      Builds limits width false
        (Body.Displays options options.maxDepth.toNat level [] frame more) body false
        (Body.Displays options options.maxDepth.toNat level [] frame false)) :
    Renews options limits width false false level
      (aroundGroup level name header comment (settle 0 body) trailer comment')
      (aroundGroup level name header comment (settle 0 body) trailer comment' ++ [.gap]) false
      level := by
  have isRow := framing.isRow_front width level
  have kind := framing.ofLine_front width level
  generalize wholeRow : (line level (remarked (name ++ ' ' :: (Text.assignmentSign ++
    ' ' :: opener header)) comment)).row width = text at isRow kind
  have firstType := isRow.firstType framing.isName
  have named := isRow.definitionName framing.isName
  have shape := framing.shapeOf_front
  refine renews_item fun reader number count rest stands room _ => ?_
  rw [wholeRow]
  obtain ⟨block, level', aside, count'⟩ := stands
  obtain ⟨start, isStart⟩ : ∃ start, reader.counted.pass text = start := ⟨_, rfl⟩
  have started : start.At false level (count + 1) :=
    isStart ▸ ⟨isRow.inBlock_pass block, level', aside, congrArg (· + 1) count'⟩
  -- The node with which the body of the definition begins.
  obtain ⟨frame, isFrame⟩ : ∃ frame, Reader.openedNode (Reader.definitionNode start number text
    (Reader.firstType text)) (Reader.firstType text) header = frame := ⟨_, rfl⟩
  have bare : Reader.IsOpened frame level name header comment := by
    have bare := Reader.isOpened_openedNode start number text (Reader.firstType text) header
    rwa [isFrame, named, framing.form, started.level, firstType] at bare
  have structured : frame.isStructured = (GroupKind.ofHeader header).isStructured := by
    rw [Node.isStructured, bare.groupKind]
    rfl
  rw [List.length_append, List.length_singleton] at room
  push_cast at room
  obtain ⟨children, after, laid, ended, run⟩ := exists_bodyRun bare.children
    (inside frame bare.children structured) (framing.isRow_back width level) framing.calm' framing.neat'
    framing.balanced started (by push_cast; omega) (number + 1) rest
  have laid' := @layNode_closed options _ trailer comment' _ frame children bare.kind bare.oneLine
    bare.level laid
  have parts : aroundGroup level frame.name (frame.header.getD []) frame.openingComment
      (settle 0 body) trailer comment' =
        aroundGroup level name header comment (settle 0 body) trailer comment' := by
    rw [bare.name, bare.header, bare.openingComment]
    rfl
  have size : ((settle 0 body ++ [line level (remarked (closer trailer false) comment')]).map
      (row width)).length = 1 + (settle 0 body).length := by
    rw [List.length_map, List.length_append, List.length_singleton, Nat.add_comm]
  have whole : ((settle 0 body ++ [line level (remarked (closer trailer false) comment')]).map
      (row width) ++ rest) = (settle 0 body).map (row width) ++
        (line level (remarked (closer trailer false) comment')).row width :: rest := by simp
  rw [← size, ← whole, ← isFrame] at run
  have filled' : Text.trim (opener header) ≠ [] := by
    intro empty
    have seen := Text.isBlankText_opener header
    rw [← Text.isBlankText_trim, empty] at seen
    cases seen
  have shape' : Reader.shapeOf (Reader.firstType text).code = .opened header [] := by
    rw [firstType]
    exact shape
  have single : (Reader.firstType text).count = 0 := by rw [firstType]
  have opened := Reader.groupRun_of_bodyRun shape' single deep run
  rw [← isStart] at opened
  have item := Reader.yields_definition kind (isRow.isAssignment framing.isName) filled'
    (.inl (Reader.hasBrace_of_opened shape)) block (by rw [Reader.MayRead, count']; omega) opened
  refine ⟨_, after, laid'.trans (congrArg (Except.ok <| · ++ [gap]) parts), ?_, ?_⟩
  · have total : count + 1 + (settle 0 body).length + 1 =
        count + ((settle 0 body ++ [line level (remarked (closer trailer false) comment')]).length +
          1) := by
      rw [List.length_append, List.length_singleton]
      omega
    rwa [← total]
  · rw [List.length_map, isStart, isFrame] at item
    exact item

/-- A definition whose group takes several rows, and the gap that it asks for. -/
theorem lasts_opened {name header trailer : Text} {comment comment' : Option Text}
    {body : List Piece} {ends more : Bool} (framing : Framing name header comment trailer comment')
    (deep : 0 < limits.depth)
    (inside : ∀ frame : Node, frame.children = [] →
      frame.isStructured = (GroupKind.ofHeader header).isStructured →
      Builds limits width false
        (Body.Displays options options.maxDepth.toNat level [] frame more) body false
        (Body.Displays options options.maxDepth.toNat level [] frame false)) :
    Lasts options limits width ends false level
      (aroundGroup level name header comment body trailer comment' ++ [.gap]) false level := by
  refine lasts_gap ?_ (fun run => ?_) fun run => ?_
  · rw [(settle_aroundGroup 0).1]
    exact (renews_opened framing deep inside).of_ends
  · rw [(settle_aroundGroup run).1, (settle_aroundGroup run).2, (settle_aroundGroup 0).1]
    exact ⟨rfl, rfl⟩
  · have seen : (line level (remarked (closer trailer false) comment')).isIdle = false := by
      obtain ⟨back, starts⟩ := exists_remarked (closer trailer false) comment'
      rw [isIdle, starts, Text.isBlankText_append, Text.isBlankText_closer]
      rfl
    exact left_of_seen ((settle_aroundGroup run).1.trans List.cons_append.symm) seen

end Piece

end AsnLayout
