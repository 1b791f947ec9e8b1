import AsnLayout.Proofs.Blocks
import AsnLayout.Proofs.NeatLines
import AsnLayout.Proofs.Shape

/-!
# Trees of schemas

What holds of every tree that is read: its items stand at the levels that the modules around them
open and close, and every node below them stands as its kind and its children ask for.
-/

set_option autoImplicit false

namespace AsnLayout

namespace Node

/-! ## Items at their levels -/

def isItem (node : Node) : Bool :=
  match node.kind with
  | .moduleHeader | .blockBegin | .blockEnd | .typeDefinition | .comment | .other => true
  | .root | .field => false

def endsWithBegin (node : Node) : Bool :=
  Text.endsWith (Text.codeLine node.content).code Text.beginWord

/-- The level of an item where `level` modules are open before it. -/
def levelAt (level : Nat) (node : Node) : Nat :=
  match node.kind with
  | .blockEnd => level - 1
  | _ => level

/-- How many modules are open behind an item where `level` are open before it. -/
def levelBehind (level : Nat) (node : Node) : Nat :=
  match node.kind with
  | .blockBegin => level + 1
  | .moduleHeader => if node.endsWithBegin then level + 1 else level
  | .blockEnd => level - 1
  | _ => level

theorem levelBehind_header {node : Node} (kind : node.kind = .moduleHeader) (level : Nat) :
    levelBehind level node = if node.endsWithBegin then level + 1 else level := by
  simp only [levelBehind, kind]

def Levelled : Nat → List Node → Prop
  | _, [] => True
  | level, node :: later =>
    node.level = levelAt level node ∧ Levelled (levelBehind level node) later

structure WellFormed (root : Node) : Prop where
  kind : root.kind = .root
  items : ∀ child ∈ root.children, child.isItem = true
  levels : Levelled 0 root.children
  nodes : root.Everywhere Shaped

structure IsItemAt (level : Nat) (node : Node) : Prop where
  isItem : node.isItem = true
  level : node.level = levelAt level node
  shaped : node.Everywhere Shaped

theorem IsNote.isItemAt {level : Nat} {node : Node} (note : node.IsNote level) :
    node.IsItemAt level ∧ levelBehind level node = level := by
  refine ⟨⟨by simp [isItem, note.kind], ?_, note.shaped⟩, by simp [levelBehind, note.kind]⟩
  simp [levelAt, note.kind, note.level]

theorem IsDefinition.isItemAt {level : Nat} {node : Node} (defines : node.IsDefinition level) :
    node.IsItemAt level ∧ levelBehind level node = level := by
  refine ⟨⟨by simp [isItem, defines.kind], ?_, defines.shaped⟩, by simp [levelBehind, defines.kind]⟩
  simp [levelAt, defines.kind, defines.level]

theorem levelled_notes {level : Nat} {notes later : List Node}
    (all : ∀ node ∈ notes, node.IsNote level) (levelled : Levelled level later) :
    Levelled level (notes ++ later) := by
  induction notes with
  | nil => exact levelled
  | cons node notes ih =>
    obtain ⟨here, there⟩ := List.forall_mem_cons.mp all
    obtain ⟨isItem, same⟩ := here.isItemAt
    refine ⟨isItem.level, ?_⟩
    rw [same]
    exact ih there

end Node

namespace Text

theorem isSeen_codeLine (line : Text) : IsSeen (codeLine line).comment := by
  intro comment found
  cases index : Quoting.commentIndex? {} line with
  | none =>
    rw [codeLine, index] at found
    cases found
  | some index' =>
    obtain ⟨front, rest, parts, -, -⟩ := exists_codeLine index
    rw [parts] at found
    cases found
    rfl

theorem endsWith_neatLine (line : Text) :
    endsWith (codeLine (neatLine (trim line))).code beginWord =
      endsWith (codeLine (trim line)).code beginWord := by
  rw [codeLine_neatLine]
  exact endsWith_neat (by decide +kernel) (by decide) (trimEnd_codeLine line)

theorem seen_of_isRemark {inBlock : Bool} {line : Text}
    (remark : Reader.isRemark inBlock line = true) : inBlock = true ∨ isBlankText line = false := by
  rcases Bool.eq_false_or_eq_true (isBlankText line) with blank | seen
  · rw [isRemark_of_isBlankText blank] at remark
    exact .inl remark
  · exact .inr seen

end Text

namespace Reader

open Reading

variable {limits : Limits}

/-! ## Definitions -/

theorem isDefinition_bodyRun {reader after : Reader} {body : Body} {number count : Nat}
    {lines : List Text} {node : Node} {level : Int}
    (run : BodyRun limits reader body number lines node count after) (shaped : body.Shaped level) :
    node.IsDefinition level ∧ after.level = reader.level ∧ after.setAside = reader.setAside := by
  induction run with
  | comment room isComment later ih =>
    have seen := Text.seen_of_isRemark ((LineKind.ofLine_eq_comment ..).mp isComment)
    exact ih (shaped.readComment seen _)
  | blank room kind isBlank later ih => exact ih shaped
  | code room kind noBlank read later ih =>
    cases Body.shaped_readLine read (Text.isSeen_codeLine _) shaped with
    | more shaped => exact ih shaped
  | close room kind noBlank read =>
    cases Body.shaped_readLine read (Text.isSeen_codeLine _) shaped with
    | closed defines => exact ⟨defines, rfl, rfl⟩

/-- A reader inside of a type: at the level where the definition started, with comments of that
level set aside. -/
structure InType (start : Nat) (reader : Reader) (type : TypeText) : Prop where
  level : reader.level = start
  setAside : ∀ node ∈ reader.setAside, node.IsNote start
  comment : Text.IsSeen type.comment

theorem notes_codeRun {start : Nat} {reader after : Reader} {number count : Nat}
    {lines : List Text} {code : CodeLine}
    (run : CodeRun limits reader number lines code count after) (same : reader.level = start)
    (notes : ∀ node ∈ reader.setAside, node.IsNote start) :
    after.level = start ∧ (∀ node ∈ after.setAside, node.IsNote start) ∧
      Text.IsSeen code.comment := by
  induction run with
  | comment room isComment later ih =>
    refine ih same (OpenGroup.forall_mem_append notes (List.forall_mem_singleton.mpr ?_))
    rw [← same]
    exact Node.isNote_ofComment (Text.seen_of_isRemark isComment) ..
  | blank room noComment isBlank later ih => exact ih same notes
  | code room noComment noBlank noSign => exact ⟨same, notes, Text.isSeen_codeLine _⟩

theorem inType_readType {start definition : Nat} {type result : TypeText} {rest : List Text}
    {before after : Reader}
    (read : Yields (readType limits definition type rest) before result after)
    (inType : InType start before type) : InType start after result :=
  readType_induct (motive := InType start) read inType
    fun type reader between number count line inType run => by
      obtain ⟨same, notes, seen⟩ := notes_codeRun run inType.level inType.setAside
      exact ⟨same, notes, inType.comment.both seen⟩

theorem isDefinition_single {node : Node} {level : Int} (kind : node.kind = .typeDefinition)
    (same : node.level = level) (bare : node.children = []) (single : node.oneLine = some true)
    (inline : node.inlineMembers.isSome = node.isStructured) : node.IsDefinition level := by
  refine ⟨kind, same, .intro ⟨fun some => absurd bare some, ?_, ?_, ?_⟩ (by simp [bare])⟩
  · simp [inline, kind, single]
  · simp [single]
  · simp [single]

theorem isDefinition_groupRun {start number count : Nat} {rest : List Text} {node result : Node}
    {type : TypeText} {before after : Reader}
    (run : GroupRun limits number rest node type before result count after)
    (kind : node.kind = .typeDefinition) (same : node.level = start)
    (bare : node.children = []) (noInline : node.inlineMembers = none)
    (inType : InType start before type) :
    result.IsDefinition start ∧ after.level = start ∧
      ∀ node ∈ after.setAside, node.IsNote start := by
  obtain ⟨unmoved, notes, seen⟩ := inType
  unfold GroupRun at run
  split at run
  · obtain ⟨rfl, -, rfl⟩ := run
    refine ⟨isDefinition_single kind same bare rfl ?_, unmoved, notes⟩
    rw [plainNode, noInline]
    rfl
  · rename_i header first shape
    obtain ⟨progress, started, later⟩ := run
    have opened := Body.shaped_start started kind rfl noInline bare seen
    rw [show (openedNode node type header).level = start from same] at opened
    cases progress with
    | closed closed =>
      obtain ⟨rfl, -, rfl⟩ := later
      cases opened with
      | closed defines => exact ⟨defines, unmoved, notes⟩
    | more body =>
      obtain ⟨more, bodyRun, -⟩ := later
      cases opened with
      | more shaped =>
        obtain ⟨defines, level, aside⟩ := isDefinition_bodyRun bodyRun shaped
        exact ⟨defines, level.trans unmoved, by rwa [aside]⟩
  · rename_i header inside trailer shape
    obtain ⟨rfl, -, rfl⟩ := run
    obtain ⟨-, -, -, -, -, structured⟩ := shapeOf_eq_inline _ _ _ _ shape
    exact ⟨isDefinition_single kind same bare rfl structured.symm, unmoved, notes⟩
  · exact run.elim

theorem isDefinition_readDefinition {number count : Nat} {line : Text} {rest : List Text}
    {before after : Reader} {node : Node}
    (read : Yields (readDefinition limits number line rest) before (node, count) after)
    (none : before.setAside = []) :
    node.IsDefinition before.level ∧ after.level = before.level ∧
      ∀ child ∈ after.setAside, child.IsNote before.level := by
  rw [yields_readDefinition] at read
  obtain ⟨-, type, between, readType, run⟩ := read
  have begins : InType before.level before (firstType line) :=
    ⟨rfl, by simp [none], Text.isSeen_codeLine _⟩
  have inType := inType_readType readType begins
  exact isDefinition_groupRun run rfl (congrArg _ inType.level) rfl rfl inType

/-! ## Items -/

structure ReadsItem (before : Reader) (node : Node) (after : Reader) : Prop where
  item : node.IsItemAt before.level
  level : after.level = Node.levelBehind before.level node
  setAside : ∀ child ∈ after.setAside, child.IsNote before.level

theorem readsItem_lineItem {reader after : Reader} {number : Nat} {line : Text} {node : Node}
    (item : reader.lineItem number line = (node, after)) (none : reader.setAside = []) :
    ReadsItem reader node after := by
  have aside : ∀ child ∈ reader.setAside, child.IsNote reader.level := by simp [none]
  unfold lineItem at item
  simp only at item
  split at item
  · rename_i isComment
    cases item
    have seen := Text.seen_of_isRemark ((LineKind.ofLine_eq_comment ..).mp isComment)
    obtain ⟨isItem, same⟩ := (Node.isNote_ofComment seen reader.level number).isItemAt
    exact ⟨isItem, same.symm, aside⟩
  · have begins : ∀ node : Node, node.content = Text.neatLine (Text.trim line) →
        node.endsWithBegin =
          Text.endsWith (Text.codeLine (Text.trim line)).code Text.beginWord := by
      intro node content
      rw [Node.endsWithBegin, content, Text.endsWith_neatLine]
    split at item
    · rename_i opens
      cases item
      refine ⟨⟨rfl, rfl, Node.shaped_of_bare rfl rfl rfl⟩, ?_, aside⟩
      rw [Node.levelBehind_header rfl, begins _ rfl, if_pos opens]
      rfl
    · rename_i noOpening
      cases item
      refine ⟨⟨rfl, rfl, Node.shaped_of_bare rfl rfl rfl⟩, ?_, aside⟩
      rw [Node.levelBehind_header rfl, begins _ rfl, if_neg noOpening]
      rfl
  · cases item
    exact ⟨⟨rfl, rfl, Node.shaped_of_bare rfl rfl rfl⟩, rfl, aside⟩
  · cases item
    exact ⟨⟨rfl, rfl, Node.shaped_of_bare rfl rfl rfl⟩, rfl, aside⟩
  · cases item
    exact ⟨⟨rfl, rfl, Node.shaped_of_bare rfl rfl rfl⟩, rfl, aside⟩

theorem readsItem_readItem {number count : Nat} {line : Text} {rest : List Text}
    {before after : Reader} {node : Node}
    (read : Yields (readItem limits number line rest) before (node, count) after)
    (none : before.setAside = []) : ReadsItem before node after := by
  rw [yields_readItem] at read
  obtain ⟨-, read⟩ := read
  split at read
  · obtain ⟨defines, same, notes⟩ := isDefinition_readDefinition read none
    obtain ⟨isItem, onward⟩ := defines.isItemAt
    exact ⟨isItem, same.trans onward.symm, notes⟩
  · obtain ⟨item, -⟩ := read
    obtain ⟨isItem, level, notes⟩ := readsItem_lineItem item none
    exact ⟨isItem, level, notes⟩

theorem levelled_itemsRun {before after : Reader} {number skip : Nat} {lines : List Text}
    {nodes : List Node} (run : ItemsRun limits before number skip lines nodes after)
    (none : before.setAside = []) :
    Node.Levelled before.level nodes ∧
      ∀ node ∈ nodes, node.isItem = true ∧ node.Everywhere Node.Shaped := by
  induction run with
  | done reader number skip => exact ⟨trivial, by simp⟩
  | skip later ih => exact ih none
  | item read later ih =>
    obtain ⟨item, level, notes⟩ := readsItem_readItem read none
    obtain ⟨levelled, all⟩ := ih rfl
    refine ⟨Node.levelled_notes notes ⟨item.level, ?_⟩, OpenGroup.forall_mem_append
      (fun child member => ?_) (List.forall_mem_cons.mpr ⟨⟨item.isItem, item.shaped⟩, all⟩)⟩
    · rw [← level]
      exact levelled
    · have isItem := (notes child member).isItemAt.1
      exact ⟨isItem.isItem, isItem.shaped⟩

end Reader

/-! ## Trees -/

/-- Every tree that is read of a schema stands at its levels, with every node below its items as its
kind and its children ask for. -/
theorem wellFormed_of_ofText (text : Text) (options : Options) (root : Node)
    (read : Node.ofText text options = .ok root) : root.WellFormed := by
  obtain ⟨nodes, after, run, rfl⟩ := (Reader.ofText_eq_ok text options root).mp read
  obtain ⟨levelled, all⟩ := Reader.levelled_itemsRun run rfl
  refine ⟨rfl, fun child member => (all child member).1, levelled, .intro ⟨?_, ?_, ?_, ?_⟩
    fun child member => (all child member).2⟩
  · exact fun _ => .inl rfl
  · simp
  · simp
  · simp

/-- A module with a group in a group, a comment in a block, and a group that keeps its lines. -/
theorem wellFormed_of_ofText_module :
    let source : Text := ("M DEFINITIONS ::= BEGIN\nA ::= SEQUENCE \x7b\n-* x\n\n*-\n" ++
      "a CHOICE \x7b\nb NULL, -- y\n\x7d OPTIONAL\n\x7d\n" ++
      "B ::= FOO \x7b\nc (\n) -- z\n\x7d\nEND").toList
    ∃ root, Node.ofText source {} = .ok root ∧ root.WellFormed := by
  intro source
  have success : (Node.ofText source {}).toOption.isSome = true := by decide +kernel
  cases read : Node.ofText source {} with
  | error fault =>
    rw [read] at success
    cases success
  | ok root => exact ⟨root, rfl, wellFormed_of_ofText source {} root read⟩

/-- An empty line of a block comment stands for itself in a group that keeps its lines. -/
theorem empty_child_of_block_comment :
    let source : Text := "A ::= FOO \x7b\n-* x\n\n*-\n\x7d".toList
    ∃ root, Node.ofText source {} = .ok root ∧ ∃ node ∈ root.children,
      node.oneLine = some false ∧ node.isStructured = false ∧
        ∃ child ∈ node.children, child.content = [] := by
  intro source
  have found : (Node.ofText source {}).toOption.any (fun root => root.children.any fun node =>
      node.oneLine = some false && !node.isStructured && node.children.any (·.content = [])) =
        true := by decide +kernel
  cases read : Node.ofText source {} with
  | error fault =>
    rw [read] at found
    cases found
  | ok root =>
    rw [read, Except.toOption, Option.any_some] at found
    obtain ⟨node, member, here⟩ := List.any_eq_true.mp found
    simp only [Bool.and_eq_true, decide_eq_true_eq, Bool.not_eq_true'] at here
    obtain ⟨child, there, empty⟩ := List.any_eq_true.mp here.2
    exact ⟨root, rfl, node, member, here.1.1, here.1.2, child, there, of_decide_eq_true empty⟩

end AsnLayout
