import AsnLayout.Proofs.Blocks
import AsnLayout.Proofs.Cuts

/-!
# Literals in a tree

A node bears what its code hides.  Lines, nodes and whatever else follows one another bear it one
behind the other; the comments among them open and close block comments, and code stands outside of
these.
-/

set_option autoImplicit false

namespace AsnLayout

/-! ## Code and comments in a row -/

/-- What follows one another and what it bears, with whether a block comment is open before and
behind it.  A comment bears nothing; code stands outside of block comments and leaves none open. -/
inductive Series {α : Type} (comment : Bool → α → Bool → Prop) (code : α → Text → Prop) :
    Bool → List α → Text → Bool → Prop where
  | done {inBlock : Bool} : Series comment code inBlock [] [] inBlock
  | comment {before between after : Bool} {item : α} {rest : List α} {held : Text}
      (isComment : comment before item between)
      (later : Series comment code between rest held after) :
      Series comment code before (item :: rest) held after
  | code {after : Bool} {item : α} {rest : List α} {held held' : Text} (bearing : code item held)
      (later : Series comment code false rest held' after) :
      Series comment code false (item :: rest) (held ++ held') after

namespace Series

variable {α β : Type} {comment : Bool → α → Bool → Prop} {code : α → Text → Prop}
  {before between after : Bool} {front back items : List α} {held held' : Text}

theorem append (first : Series comment code before front held between)
    (second : Series comment code between back held' after) :
    Series comment code before (front ++ back) (held ++ held') after := by
  induction first with
  | done => exact second
  | comment isComment later ih => exact .comment isComment (ih second)
  | code bearing later ih =>
    rw [List.append_assoc]
    exact .code bearing (ih second)

theorem split (series : Series comment code before (front ++ back) held after) :
    ∃ between first second, held = first ++ second ∧
      Series comment code before front first between ∧
      Series comment code between back second after := by
  induction front generalizing before held with
  | nil => exact ⟨before, [], held, rfl, .done, series⟩
  | cons item rest ih =>
    cases series with
    | comment isComment later =>
      obtain ⟨between, first, second, rfl, early, late⟩ := ih later
      exact ⟨between, first, second, rfl, .comment isComment early, late⟩
    | code bearing later =>
      obtain ⟨between, first, second, rfl, early, late⟩ := ih later
      exact ⟨between, _, second, (List.append_assoc ..).symm, .code bearing early, late⟩

theorem flatMap {comment' : Bool → β → Bool → Prop} {code' : β → Text → Prop} {change : α → List β}
    (comments : ∀ before item after, comment before item after →
      Series comment' code' before (change item) [] after)
    (codes : ∀ item held, code item held → Series comment' code' false (change item) held false)
    (series : Series comment code before items held after) :
    Series comment' code' before (items.flatMap change) held after := by
  induction series with
  | done => exact .done
  | comment isComment later ih => exact (comments _ _ _ isComment).append ih
  | code bearing later ih => exact (codes _ _ bearing).append ih

theorem map {comment' : Bool → β → Bool → Prop} {code' : β → Text → Prop} {change : α → β}
    (comments : ∀ before item after, comment before item after →
      comment' before (change item) after)
    (codes : ∀ item held, code item held → code' (change item) held)
    (series : Series comment code before items held after) :
    Series comment' code' before (items.map change) held after := by
  induction series with
  | done => exact .done
  | comment isComment later ih => exact .comment (comments _ _ _ isComment) ih
  | code bearing later ih => exact .code (codes _ _ bearing) ih

theorem single_comment {item : α} (isComment : comment before item after) :
    Series comment code before [item] [] after := .comment isComment .done

theorem single_code {item : α} (bearing : code item held) :
    Series comment code false [item] held false := by
  have series : Series comment code false [item] (held ++ []) false := .code bearing .done
  rwa [List.append_nil] at series

end Series

/-! ## Comments behind code -/

/-- The text of a comment behind code, which starts with two hyphens, is on one line and ends with no
blank. -/
structure Text.IsNote (t : Text) : Prop where
  hyphens : ∃ rest, t = '-' :: '-' :: rest
  single : '\n' ∉ t
  trimmed : Text.trim t = t

def IsNoted (comment : Option Text) : Prop := ∀ t, comment = some t → t.IsNote

theorem isNoted_none : IsNoted none := by
  intro t found
  cases found

theorem Text.IsNote.isNoted {t : Text} (note : t.IsNote) : IsNoted (some t) := by
  intro t found
  cases found
  exact note

theorem IsNoted.both {earlier later : Option Text} (noted : IsNoted earlier)
    (noted' : IsNoted later) : IsNoted (bothComments earlier later) := by
  intro t found
  cases earlier with
  | none => exact noted' t found
  | some early =>
    cases later with
    | none => exact noted t found
    | some late =>
      cases found
      obtain ⟨⟨rest, rfl⟩, single, -⟩ := noted early rfl
      obtain ⟨⟨rest', rfl⟩, single', trimmed⟩ := noted' late rfl
      refine ⟨⟨rest ++ ' ' :: '-' :: '-' :: rest', rfl⟩, ?_, ?_⟩
      · simp only [List.mem_append, List.mem_cons, not_or] at single single' ⊢
        exact ⟨single, by decide, single'⟩
      · have solid : Text.isBlank '-' = false := by decide
        have last := Text.trimEnd_append_mark solid ('-' :: '-' :: rest ++ [' ']) ('-' :: rest')
        have alone := Text.trimEnd_append_mark solid [] ('-' :: rest')
        rw [Text.trim, Text.trimStart_of_not_blank solid, ← List.nil_append ('-' :: '-' :: rest'),
          alone] at trimmed
        have same : Text.trimEnd ('-' :: rest') = '-' :: rest' := by simpa using trimmed
        rw [same] at last
        rw [Text.trim, List.cons_append, Text.trimStart_of_not_blank solid]
        simpa using last

namespace Node

/-- A comment line inside or outside of a block comment, and whether one is open behind it. -/
structure IsComment (inBlock : Bool) (node : Node) (after : Bool) : Prop where
  kind : node.kind = .comment
  blockLine : node.blockLine = inBlock
  isRemark : Reader.isRemark inBlock node.content = true
  single : '\n' ∉ node.content
  behind : LineKind.blockAfter inBlock node.content = after
  start : inBlock = false → Text.trimStart node.content = node.content

def KeepsLines (node : Node) : Prop :=
  node.isStructured = false → ∀ child ∈ node.children, child.isField = false

inductive Bears : Node → Text → Prop where
  | member {node : Node} {held : Text} (isField : node.isField = true)
      (single : node.spansLines = false) (content : Text.Hides node.content held)
      (noted : IsNoted node.openingComment) : Bears node held
  | group {node : Node} {first second third : Text} (spans : node.spansLines = true)
      (keeps : node.KeepsLines) (header : Text.Hides (node.header.getD []) first)
      (opening : IsNoted node.openingComment)
      (children : Series IsComment Bears false node.children second false)
      (trailer : Text.Hides node.trailer third) (closing : IsNoted node.closingComment) :
      Bears node (first ++ second ++ third)
  | line {node : Node} {code held : Text} {comment : Option Text} (kind : node.kind = .other)
      (content : node.content = beside code comment) (hides : Text.Hides code held)
      (noted : IsNoted comment) (settled : Text.neat code = code) (filled : code ≠ []) :
      Bears node held

theorem keepsLines_of_structured {node : Node} (structured : node.isStructured = true) :
    node.KeepsLines := by
  intro unstructured
  rw [structured] at unstructured
  cases unstructured

theorem KeepsLines.append {node : Node} (keeps : node.KeepsLines) {nodes : List Node}
    (lines : ∀ child ∈ nodes, child.isField = false) :
    KeepsLines { node with children := node.children ++ nodes } := by
  intro unstructured child member
  rcases List.mem_append.mp member with before | behind
  · exact keeps unstructured child before
  · exact lines child behind

abbrev InSeries : Bool → List Node → Text → Bool → Prop := Series IsComment Bears

abbrev Comments : Bool → List Node → Text → Bool → Prop := Series IsComment fun _ _ => False

theorem Bears.kind_ne {node : Node} {held : Text} (bears : node.Bears held) :
    node.kind ≠ .comment := by
  intro comment
  cases bears with
  | member isField => simp [Node.isField, comment] at isField
  | group spans => simp [spansLines, Node.isField, comment] at spans
  | line kind =>
    rw [comment] at kind
    cases kind

variable {code : Node → Text → Prop} {before between after : Bool} {front back nodes : List Node}
  {held : Text}

theorem Comments.series (comments : Comments before nodes held after) :
    Series IsComment code before nodes held after := by
  induction comments with
  | done => exact .done
  | comment isComment later ih => exact .comment isComment ih
  | code bearing later ih => exact bearing.elim

theorem Comments.isField (comments : Comments before nodes held after) :
    ∀ node ∈ nodes, node.isField = false := by
  induction comments with
  | done => simp
  | comment isComment later ih =>
    intro node member
    rcases List.mem_cons.mp member with rfl | inRest
    · simp [Node.isField, isComment.kind]
    · exact ih node inRest
  | code bearing later ih => exact bearing.elim

/-- Comment lines behind nodes add nothing to what these bear. -/
theorem Comments.behind (comments : Comments between back [] after)
    (series : Series IsComment code before front held between) :
    Series IsComment code before (front ++ back) held after := by
  have appended := series.append comments.series
  rwa [List.append_nil] at appended

theorem Comments.map_level (comments : Comments before nodes held after) (level : Int) :
    Comments before (nodes.map fun node => { node with level }) held after :=
  comments.map (fun _ _ _ isComment => ⟨isComment.kind, isComment.blockLine, isComment.isRemark,
    isComment.single, isComment.behind, isComment.start⟩) fun _ _ impossible => impossible

theorem held_of_kind (comments : ∀ node ∈ nodes, node.kind = .comment)
    (series : InSeries before nodes held after) : held = [] := by
  induction series with
  | done => rfl
  | comment isComment later ih =>
    exact ih fun node member => comments node (List.mem_cons_of_mem _ member)
  | code bearing later ih =>
    exact absurd (comments _ (List.mem_cons_self ..)) bearing.kind_ne

theorem series_modifyLastField {change : Node → Node}
    (keeps : ∀ node held, node.isField = true → Bears node held → Bears (change node) held)
    (series : InSeries before nodes held after) :
    InSeries before (modifyLastField change nodes) held after := by
  induction series with
  | done => exact .done
  | @comment _ _ _ node _ _ isComment later ih =>
    have noField : node.isField = false := by simp [isField, isComment.kind]
    rw [modifyLastField, if_neg (by simp [noField])]
    exact .comment isComment ih
  | code bearing later ih =>
    rw [modifyLastField]
    split
    · rename_i last
      exact .code (keeps _ _ (Bool.and_eq_true_iff.mp last).1 bearing) later
    · exact .code bearing ih

/-! ## Comment lines -/

theorem blockAfter_ofComment (inBlock : Bool) (line : Text) (level : Int) (number : Nat) :
    LineKind.blockAfter inBlock (ofComment line inBlock level number).content =
      LineKind.blockAfter inBlock line := by
  cases inBlock with
  | true => rfl
  | false => simp [LineKind.blockAfter, Text.leavesBlockOpen, Text.startsBlock, Text.endsBlock,
      ofComment, Text.trim_trimStart]

theorem isComment_ofComment {inBlock : Bool} {line : Text}
    (remark : Reader.isRemark inBlock line = true) (single : '\n' ∉ line) (level : Int)
    (number : Nat) :
    (ofComment line inBlock level number).IsComment inBlock (LineKind.blockAfter inBlock line) := by
  have behind := blockAfter_ofComment inBlock line level number
  cases inBlock with
  | true => exact ⟨rfl, rfl, rfl, single, behind, nofun⟩
  | false =>
    refine ⟨rfl, rfl, ?_, fun newline => single ((List.dropWhile_suffix _).subset newline), behind,
      fun _ => List.dropWhile_idempotent _ _⟩
    simpa [Reader.isRemark, Text.isLineComment, Text.startsBlock, ofComment,
      Text.trim_trimStart] using remark

theorem comments_ofComment {inBlock : Bool} {line : Text}
    (remark : Reader.isRemark inBlock line = true) (single : '\n' ∉ line) (level : Int)
    (number : Nat) :
    Comments inBlock [ofComment line inBlock level number] [] (LineKind.blockAfter inBlock line) :=
  .single_comment (isComment_ofComment remark single level number)

end Node

theorem Text.IsNote.startsWith {t : Text} (note : t.IsNote) :
    Text.isLineComment t = true ∧ Text.startsBlock t = false := by
  obtain ⟨⟨rest, rfl⟩, -⟩ := note
  have solid : Text.isBlank '-' = false := by decide
  have trimmed : Text.trim ('-' :: '-' :: rest) = '-' :: '-' :: Text.trimEnd rest := by
    rw [Text.trim, Text.trimStart_of_not_blank solid]
    exact Text.trimEnd_append_mark solid ['-'] rest
  simp [Text.isLineComment, Text.startsBlock, trimmed, Text.startsWith, List.isPrefixOf]

theorem Text.IsNote.comments {comment : Text} (note : comment.IsNote) (level : Int) (number : Nat) :
    Node.Comments false [Node.ofComment comment false level number] [] false := by
  obtain ⟨starts, noBlock⟩ := note.startsWith
  have remark : Reader.isRemark false comment = true := by simp [Reader.isRemark, starts]
  have series := Node.comments_ofComment remark note.single level number
  have behind : LineKind.blockAfter false comment = false := by
    simp [LineKind.blockAfter, Text.leavesBlockOpen, noBlock]
  rwa [behind] at series

end AsnLayout
