import AsnLayout.Proofs.QuotedReading

/-!
# What lines form

A reader makes comments, definitions with their groups, and items of one line out of the lines of a
source.  Where each step over a line leads to types, bodies and nodes of a kind, every run does, and
the tree of the source consists of nodes of that kind.
-/

set_option autoImplicit false

namespace AsnLayout

/-- A definition after one of its lines is of a kind if its body is, or its node once it is closed. -/
def Body.Progress.Of (body : Body → Prop) (node : Node → Prop) : Progress → Prop
  | more next => body next
  | closed made => node made

namespace Reader

open Reading

/-- Lines of a kind form types, bodies, nodes and items of a kind, step by step. -/
structure Forms (limit : Int) (source : Bool → List Text → Prop) (type : TypeText → Prop)
    (body : Body → Prop) (node item : Node → Prop) : Prop where
  tail {inBlock : Bool} {line : Text} {rest : List Text} (lines : source inBlock (line :: rest)) :
    source (LineKind.blockAfter inBlock line) rest
  remark {inBlock : Bool} {line : Text} {rest : List Text} (lines : source inBlock (line :: rest))
    (isRemark : isRemark inBlock line = true) (level : Int) (number : Nat) :
    node (Node.ofComment line inBlock level number)
  begins {inBlock : Bool} {line : Text} {rest : List Text} (lines : source inBlock (line :: rest))
    (defines : LineKind.ofLine inBlock line = .typeDefinition) : type (firstType line)
  extend {inBlock : Bool} {line : Text} {rest : List Text} (lines : source inBlock (line :: rest))
    (noRemark : Reader.isRemark inBlock line = false) {before : TypeText} (begun : type before)
    (count : Nat) : type (before.extend (Text.codeLine (Text.trim line)) count)
  single {inBlock : Bool} {line : Text} {rest : List Text} (lines : source inBlock (line :: rest))
    (defines : LineKind.ofLine inBlock line = .typeDefinition) {whole : TypeText}
    (isType : type whole) (reader : Reader) (number : Nat) :
    (shapeOf whole.code = .plain →
      node (plainNode (definitionNode reader number line whole) whole)) ∧
    ∀ header inside trailer, shapeOf whole.code = .inline header inside trailer →
      node (inlineNode (definitionNode reader number line whole) whole header inside trailer)
  start {inBlock : Bool} {line : Text} {rest : List Text} (lines : source inBlock (line :: rest))
    (defines : LineKind.ofLine inBlock line = .typeDefinition) {whole : TypeText}
    (isType : type whole) (reader : Reader) (number : Nat) {header first : Text}
    {progress : Body.Progress} (shape : shapeOf whole.code = .opened header first)
    (started : Body.start (openedNode (definitionNode reader number line whole) whole header)
      limit first = .ok progress) : progress.Of body node
  readComment {inBlock : Bool} {line : Text} {rest : List Text}
    (lines : source inBlock (line :: rest)) (isRemark : Reader.isRemark inBlock line = true)
    {before : Body} (isBody : body before) (number : Nat) :
    body (before.readComment line inBlock number)
  readLine {inBlock : Bool} {line : Text} {rest : List Text} (lines : source inBlock (line :: rest))
    (noRemark : Reader.isRemark inBlock line = false) {before : Body} (isBody : body before)
    {number : Nat} {progress : Body.Progress}
    (read : before.readLine limit (Text.codeLine (Text.trim line)) number = .ok progress) :
    progress.Of body node
  lineItem {reader after : Reader} {line : Text} {rest : List Text} {number : Nat} {made : Node}
    (lines : source reader.inBlock (line :: rest))
    (isItem : reader.lineItem number line = (made, after)) : item made
  ofNode {made : Node} (isNode : node made) : item made

namespace Forms

variable {limits : Limits} {source : Bool → List Text → Prop} {type : TypeText → Prop}
  {body : Body → Prop} {node item : Node → Prop}
  (forms : Forms limits.depth source type body node item)
include forms

theorem drop {inBlock : Bool} {lines : List Text} (given : source inBlock lines) (count : Nat) :
    source (LineKind.blockAfterAll inBlock (lines.take count)) (lines.drop count) := by
  induction count generalizing inBlock lines with
  | zero => exact given
  | succ count ih =>
    cases lines with
    | nil => exact given
    | cons line rest => exact ih (forms.tail given)

/-! ## Types -/

/-- The comments that a reader puts aside on its way to code are nodes, and the code goes on with a
type. -/
theorem codeRun {reader after : Reader} {number count : Nat} {lines : List Text} {code : CodeLine}
    (run : CodeRun limits reader number lines code count after) (given : source reader.inBlock lines)
    (aside : ∀ made ∈ reader.setAside, node made) :
    (∀ before, type before → ∀ taken, type (before.extend code taken)) ∧
      ∀ made ∈ after.setAside, node made := by
  induction run with
  | comment room isComment later ih =>
    exact ih (forms.tail given) (List.forall_mem_append.mpr
      ⟨aside, List.forall_mem_singleton.mpr (forms.remark given isComment ..)⟩)
  | blank room noComment isBlank later ih =>
    have later := forms.tail given
    rw [LineKind.blockAfter_of_not_isRemark noComment] at later
    exact ih later aside
  | code room noComment noBlank noSign =>
    exact ⟨fun before begun taken => forms.extend given noComment begun taken, aside⟩

structure InType (node : Node → Prop) (type : TypeText → Prop) (inBlock : Bool) (rest : List Text)
    (reader : Reader) (whole : TypeText) : Prop where
  inBlock : reader.inBlock = LineKind.blockAfterAll inBlock (rest.take whole.count)
  aside : ∀ made ∈ reader.setAside, node made
  type : type whole

theorem readType {definition : Nat} {begun whole : TypeText} {rest : List Text}
    {before after : Reader} {inBlock : Bool}
    (read : Yields (readType limits definition begun rest) before whole after)
    (given : source inBlock rest) (inType : InType node type inBlock rest before begun) :
    InType node type inBlock rest after whole := by
  refine readType_induct (motive := InType node type inBlock rest) read inType
    fun begun reader between number count line inType run => ?_
  have later := forms.drop given begun.count
  rw [← inType.inBlock] at later
  obtain ⟨extend, aside⟩ := forms.codeRun run later inType.aside
  exact ⟨inBlock_extend inType.inBlock run, aside, extend begun inType.type count⟩

/-! ## Definitions -/

theorem bodyRun {reader after : Reader} {begun : Body} {number count : Nat} {lines : List Text}
    {made : Node} (run : BodyRun limits reader begun number lines made count after)
    (given : source reader.inBlock lines) (isBody : body begun) :
    node made ∧ after.setAside = reader.setAside := by
  induction run with
  | comment room isComment later ih =>
    have remark := (LineKind.ofLine_eq_comment ..).mp isComment
    exact ih (forms.tail given) (forms.readComment given remark isBody _)
  | blank room kind isBlank later ih => exact ih (forms.tail given) isBody
  | code room kind noBlank read later ih =>
    exact ih (forms.tail given) (forms.readLine given (isRemark_of_mayStandInBody kind) isBody read)
  | close room kind noBlank read =>
    exact ⟨forms.readLine given (isRemark_of_mayStandInBody kind) isBody read, rfl⟩

theorem readDefinition {number count : Nat} {line : Text} {rest : List Text}
    {before after : Reader} {made : Node} {inBlock : Bool}
    (read : Yields (readDefinition limits number line rest) before (made, count) after)
    (given : source inBlock (line :: rest))
    (defines : LineKind.ofLine inBlock line = .typeDefinition)
    (passed : before.inBlock = LineKind.blockAfter inBlock line) (none : before.setAside = []) :
    node made ∧ ∀ made ∈ after.setAside, node made := by
  rw [yields_readDefinition] at read
  obtain ⟨-, whole, between, readType, run⟩ := read
  have later := forms.tail given
  rw [← passed] at later
  have begins : InType node type before.inBlock rest before (firstType line) :=
    ⟨rfl, by simp [none], forms.begins given defines⟩
  obtain ⟨same, aside, isType⟩ := forms.readType readType later begins
  obtain ⟨plain, inline⟩ := forms.single given defines isType between number
  unfold GroupRun at run
  split at run
  · rename_i shape
    obtain ⟨rfl, -, rfl⟩ := run
    exact ⟨plain shape, aside⟩
  · rename_i header first shape
    obtain ⟨progress, started, run⟩ := run
    have begun := forms.start given defines isType between number shape started
    cases progress with
    | closed closed =>
      obtain ⟨rfl, -, rfl⟩ := run
      exact ⟨begun, aside⟩
    | more body =>
      obtain ⟨more, run, -⟩ := run
      have lines := forms.drop later whole.count
      rw [← same] at lines
      obtain ⟨isNode, kept⟩ := forms.bodyRun run lines begun
      exact ⟨isNode, by rw [kept]; exact aside⟩
  · rename_i header inside trailer shape
    obtain ⟨rfl, -, rfl⟩ := run
    exact ⟨inline _ _ _ shape, aside⟩
  · exact run.elim

/-! ## Items -/

theorem readItem {number count : Nat} {line : Text} {rest : List Text} {before after : Reader}
    {made : Node} (read : Yields (readItem limits number line rest) before (made, count) after)
    (given : source before.inBlock (line :: rest)) (none : before.setAside = []) :
    item made ∧ ∀ made ∈ after.setAside, node made := by
  rw [yields_readItem] at read
  obtain ⟨-, read⟩ := read
  split at read
  · rename_i defines
    obtain ⟨isNode, aside⟩ := forms.readDefinition read given defines rfl none
    exact ⟨forms.ofNode isNode, aside⟩
  · obtain ⟨isItem, -⟩ := read
    have kept := (Tally.lineItem_kept blind before.counted number line).2.2.1
    rw [isItem] at kept
    have empty : after.setAside = [] := kept.trans none
    have lines : source before.counted.inBlock (line :: rest) := given
    exact ⟨forms.lineItem lines isItem, by simp [empty]⟩

theorem itemsRun {before after : Reader} {number skip : Nat} {lines : List Text}
    {nodes : List Node} (run : ItemsRun limits before number skip lines nodes after)
    (given : source before.inBlock (lines.drop skip)) (none : before.setAside = []) :
    ∀ made ∈ nodes, item made := by
  induction run with
  | done reader number skip => simp
  | skip later ih => exact ih given none
  | @item before between after number count line rest made nodes read later ih =>
    obtain ⟨here, aside⟩ := forms.readItem read given none
    refine List.forall_mem_append.mpr ⟨fun made member => forms.ofNode (aside made member),
      List.forall_mem_cons.mpr ⟨here, ih ?_ rfl⟩⟩
    change source between.inBlock (rest.drop count)
    rw [inBlock_readItem read]
    exact forms.drop (forms.tail given) count

end Forms

end Reader

/-- The tree of a source consists of the items that its lines form. -/
theorem Reader.Forms.ofText {text : Text} {options : Options} {root : Node}
    {source : Bool → List Text → Prop} {type : TypeText → Prop} {body : Body → Prop}
    {node item : Node → Prop} (forms : Forms options.maxDepth source type body node item)
    (read : Node.ofText text options = .ok root) (given : source false (Text.lines text)) :
    ∀ made ∈ root.children, item made := by
  obtain ⟨nodes, after, run, rfl⟩ := (Reader.ofText_eq_ok text options root).mp read
  exact Forms.itemsRun forms run given rfl

end AsnLayout
