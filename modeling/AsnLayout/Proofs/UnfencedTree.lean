import AsnLayout.Proofs.Forming
import AsnLayout.Proofs.UnfencedBody

/-!
# Trees without fences

A source whose lines of code have no stretch that is a fence, and whose comment lines are none, has
a tree without fences.
-/

set_option autoImplicit false

namespace AsnLayout

namespace Text

/-! ## Lines -/

/-- A line that stays between fences however it is laid out. -/
structure UnfencedLine (inBlock : Bool) (line : Text) : Prop where
  single : '\n' ∉ line
  remark : Reader.isRemark inBlock line = true → Fence.closes line = false
  code : Reader.isRemark inBlock line = false →
    ∀ stretch ∈ stretches (codeLine (trim line)).code, ¬IsFence stretch

instance (inBlock : Bool) (line : Text) : Decidable (UnfencedLine inBlock line) :=
  decidable_of_iff ('\n' ∉ line ∧
    (Reader.isRemark inBlock line = true → Fence.closes line = false) ∧
    (Reader.isRemark inBlock line = false →
      ∀ stretch ∈ stretches (codeLine (trim line)).code, ¬IsFence stretch))
    ⟨fun ⟨single, remark, code⟩ => ⟨single, remark, code⟩,
      fun ⟨single, remark, code⟩ => ⟨single, remark, code⟩⟩

/-- Lines that stay between fences, with whether a block comment is open before them. -/
def UnfencedLines (inBlock : Bool) : List Text → Prop
  | [] => True
  | line :: rest =>
    UnfencedLine inBlock line ∧ UnfencedLines (LineKind.blockAfter inBlock line) rest

instance UnfencedLines.decidable (inBlock : Bool) : (lines : List Text) →
    Decidable (UnfencedLines inBlock lines)
  | [] => inferInstanceAs (Decidable True)
  | line :: rest =>
    have := decidable (LineKind.blockAfter inBlock line) rest
    inferInstanceAs (Decidable (UnfencedLine inBlock line ∧
      UnfencedLines (LineKind.blockAfter inBlock line) rest))

namespace UnfencedLine

variable {inBlock : Bool} {line : Text}

theorem unfenced (free : UnfencedLine inBlock line)
    (noRemark : Reader.isRemark inBlock line = false) : Unfenced (codeLine (trim line)).code := by
  refine ⟨fun newline => free.single ?_, free.code noRemark⟩
  exact ((code_isInfix _).trans (trim_isInfix line)).subset newline

theorem inner (free : UnfencedLine inBlock line) : Inner line := by
  refine ⟨free.single, ?_⟩
  cases remark : Reader.isRemark inBlock line with
  | true => exact free.remark remark
  | false =>
    rw [Bool.eq_false_iff]
    intro closes
    have mark : trim line = Fence.mark := of_decide_eq_true closes
    have goesOn := (free.unfenced remark).not_closes
    rw [mark] at goesOn
    exact absurd goesOn (by decide)

theorem respaced {line' : Text} (free : UnfencedLine inBlock line) (same : Respaced line line') :
    UnfencedLine inBlock line' := by
  have inner := free.inner.respaced same
  refine ⟨inner.single, fun _ => inner.goesOn, fun noRemark => ?_⟩
  rw [same.isRemark] at noRemark
  exact (same.trim.codeLine.milder.unfenced (free.unfenced noRemark)).free

end UnfencedLine

namespace UnfencedLines

variable {inBlock : Bool} {lines : List Text}

theorem inner (free : UnfencedLines inBlock lines) : ∀ line ∈ lines, Inner line := by
  induction lines generalizing inBlock with
  | nil => simp
  | cons line rest ih => exact List.forall_mem_cons.mpr ⟨free.1.inner, ih free.2⟩

theorem tabsToSpaces {width : Nat} (positive : 0 < width) (free : UnfencedLines inBlock lines) :
    UnfencedLines inBlock (lines.map (Text.tabsToSpaces width 0)) := by
  induction lines generalizing inBlock with
  | nil => exact trivial
  | cons line rest ih =>
    have same := Respaced.of_tabsToSpaces positive 0 line
    refine ⟨free.1.respaced same, ?_⟩
    rw [same.blockAfter]
    exact ih free.2

end UnfencedLines

end Text

namespace Reader

/-! ## Definitions -/

/-- A type without a fence: no stretch of the code but the first, which stands behind the assignment
sign, may stand for itself. -/
structure TypeText.Unfenced (type : TypeText) : Prop where
  code : Text.UnfencedBehind type.code
  noted : IsNoted type.comment

theorem TypeText.Unfenced.extend {type : TypeText} (unfenced : type.Unfenced) {line : CodeLine}
    (code : Text.Unfenced line.code) (noted : IsNoted line.comment) (count : Nat) :
    (type.extend line count).Unfenced := by
  refine ⟨?_, unfenced.noted.both noted⟩
  change Text.UnfencedBehind
    (if type.code = [] then line.code else type.code ++ ' ' :: line.code)
  split
  · exact code.behind
  · exact unfenced.code.join code

theorem unfenced_definitionSides {line : Text}
    (unfenced : Text.Unfenced (Text.codeLine (Text.trim line)).code) :
    '\n' ∉ (definitionSides line).1 ∧ Text.UnfencedBehind (definitionSides line).2 := by
  unfold definitionSides
  simp only
  cases found : Text.cutAt? Text.assignmentSign (Text.codeLine (Text.trim line)).code with
  | none => exact ⟨unfenced.single, Text.Unfenced.nil.behind⟩
  | some sides =>
    rw [Text.eq_of_cutAt? found] at unfenced
    refine ⟨fun newline => unfenced.single ?_, unfenced.drop⟩
    exact List.mem_append_left _ (List.mem_append_left _ newline)

variable {inBlock : Bool} {line : Text} {type : TypeText}

theorem unfenced_firstType (free : Text.UnfencedLine inBlock line)
    (noRemark : isRemark inBlock line = false) : (firstType line).Unfenced :=
  ⟨(Text.milder_trim _).unfencedBehind (unfenced_definitionSides (free.unfenced noRemark)).2,
    Text.isNoted_codeLine free.single⟩

theorem unfenced_definitionNode (free : Text.UnfencedLine inBlock line)
    (noRemark : isRemark inBlock line = false) (unfenced : type.Unfenced) (reader : Reader)
    (number : Nat) : (definitionNode reader number line type).Unfenced := by
  have single : '\n' ∉ definitionName line :=
    Text.newline_not_mem_memberForm (unfenced_definitionSides (free.unfenced noRemark)).1
  have front : Text.Inner (definitionName line ++ " ::= ".toList ++ Text.neat type.code) := by
    have right := (Text.milder_neat type.code).single unfenced.code.single
    refine Text.inner_of_mem ?_ (c := ':') (by simp) (by decide) (by decide)
    simp only [List.mem_append, not_or]
    exact ⟨⟨single, by decide⟩, right⟩
  refine ⟨fun _ => ?_, ?_, fun field => ?_, Text.Unfenced.nil.behind, by simp [definitionNode],
    by simp [definitionNode], isNoted_none, isNoted_none⟩
  · simp only [definitionNode]
    exact single
  · simp only [definitionNode]
    exact front.beside unfenced.noted
  · cases field

variable {node : Node}

/-- A group on one line, or none, leaves a definition without fences. -/
theorem unfenced_single (here : node.Unfenced) (bare : node.children = [])
    (unfenced : type.Unfenced) :
    (shapeOf type.code = .plain → (plainNode node type).Everywhere Node.Unfenced) ∧
      ∀ header inside trailer, shapeOf type.code = .inline header inside trailer →
        (inlineNode node type header inside trailer).Everywhere Node.Unfenced := by
  obtain ⟨code, noted⟩ := unfenced
  obtain ⟨name, content, member, -, members, trailer, opening, closing⟩ := here
  refine ⟨fun _ => ?_, fun header inside trailer' shape => ?_⟩
  · refine .intro ⟨name, content, member, (Text.milder_neat _).unfencedBehind code, members,
      trailer, noted, closing⟩ ?_
    simp [plainNode, bare]
  · obtain ⟨front, whole, -, rfl, -, -⟩ := shapeOf_eq_inline _ _ _ _ shape
    rw [whole] at code
    obtain ⟨early, late⟩ := code.cut (by decide)
    obtain ⟨between, behind⟩ := (Text.unfenced_cut (by decide)).mp late
    refine .intro ⟨name, content, member, (Text.milder_neat front).unfencedBehind early,
      between.members, behind.neat.single, opening, noted⟩ ?_
    simp [inlineNode, bare]

theorem unfenced_startBody {limit : Int} {header first : Text} {progress : Body.Progress}
    (here : node.Unfenced) (bare : node.children = []) (unfenced : type.Unfenced)
    (shape : shapeOf type.code = .opened header first)
    (started : Body.start (openedNode node type header) limit first = .ok progress) :
    progress.Unfenced := by
  obtain ⟨code, noted⟩ := unfenced
  obtain ⟨name, content, member, -, members, trailer, opening, closing⟩ := here
  obtain ⟨front, whole, -, rfl, -⟩ := shapeOf_eq_opened _ _ _ shape
  rw [whole] at code
  obtain ⟨early, late⟩ := code.cut (by decide)
  have opened : (openedNode node type (Text.neat front)).Unfenced :=
    ⟨name, content, member, (Text.milder_neat front).unfencedBehind early, members, trailer,
      noted, closing⟩
  exact Body.unfenced_start started opened bare late

/-! ## Items -/

theorem unfenced_itemNode {reader : Reader} {kind : NodeKind}
    (other : kind ≠ .typeDefinition ∧ kind ≠ .field)
    (inner : Text.Inner (Text.neatLine (Text.trim line))) (number : Nat) :
    (reader.itemNode kind line number).Everywhere Node.Unfenced := by
  refine Node.unfenced_of_content other.1 inner (fun field => ?_) rfl rfl rfl rfl rfl rfl
  exact absurd (of_decide_eq_true field) other.2

theorem unfenced_lineItem {reader after : Reader} {number : Nat}
    (item : reader.lineItem number line = (node, after))
    (free : Text.UnfencedLine reader.inBlock line) : node.Everywhere Node.Unfenced := by
  have content : ∀ {kind : LineKind}, LineKind.ofLine reader.inBlock line = kind →
      kind ≠ .comment → Text.Inner (Text.neatLine (Text.trim line)) := fun same code =>
    (free.unfenced (isRemark_of_ofLine same code)).neat.inner.beside
      (Text.isNoted_codeLine free.single)
  unfold lineItem at item
  simp only at item
  split at item
  · cases item
    exact Node.unfenced_ofComment free.inner ..
  · rename_i kind
    have inner := content kind (by simp)
    split at item <;>
    · cases item
      exact Node.unfenced_of_content (fun same => by cases same) inner (fun same => by cases same)
        rfl rfl rfl rfl rfl rfl
  · rename_i kind
    cases item
    exact unfenced_itemNode (by decide) (content kind (by simp)) number
  · rename_i kind
    cases item
    exact unfenced_itemNode (by decide) (content kind (by simp)) number
  · rename_i noComment _ _ _
    cases item
    exact unfenced_itemNode (by decide) (content rfl noComment) number

/-! ## Trees -/

theorem of_unfenced {progress : Body.Progress} (unfenced : progress.Unfenced) :
    progress.Of (fun body => body.Unfenced [] ∧ body.Clean) (·.Everywhere Node.Unfenced) := by
  cases unfenced with
  | more unfenced clean => exact ⟨unfenced, clean⟩
  | closed all => exact all

/-- Lines that stay between fences form nodes without fences. -/
theorem forms_unfenced (limit : Int) : Forms limit Text.UnfencedLines TypeText.Unfenced
    (fun body => body.Unfenced [] ∧ body.Clean) (·.Everywhere Node.Unfenced)
    (·.Everywhere Node.Unfenced) where
  tail free := free.2
  remark free _ _ _ := Node.unfenced_ofComment free.1.inner ..
  begins free defines := unfenced_firstType free.1 (isRemark_of_ofLine defines (by decide))
  extend free noRemark _ unfenced count :=
    unfenced.extend (free.1.unfenced noRemark) (Text.isNoted_codeLine free.1.single) count
  single free defines _ unfenced reader number :=
    unfenced_single (unfenced_definitionNode free.1 (isRemark_of_ofLine defines (by decide))
      unfenced reader number) rfl unfenced
  start free defines _ unfenced reader number _ _ _ shape started :=
    of_unfenced (unfenced_startBody (unfenced_definitionNode free.1
      (isRemark_of_ofLine defines (by decide)) unfenced reader number) rfl unfenced shape started)
  readComment free _ _ body number :=
    ⟨body.1.readComment free.1.inner .., body.2.readComment _ _ _⟩
  readLine free noRemark _ body _ _ read :=
    of_unfenced (Body.unfenced_readLine read body.1 body.2 (free.1.unfenced noRemark)
      (Text.isNoted_codeLine free.1.single))
  lineItem free item := unfenced_lineItem item free.1
  ofNode all := all

end Reader

theorem unfenced_ofText {text : Text} {options : Options} {root : Node}
    (read : Node.ofText text options = .ok root)
    (free : Text.UnfencedLines false (Text.lines text)) :
    ∀ node ∈ root.children, node.Everywhere Node.Unfenced :=
  (Reader.forms_unfenced options.maxDepth).ofText read free

end AsnLayout
