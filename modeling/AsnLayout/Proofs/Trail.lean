import AsnLayout.Proofs.Conservation
import Mathlib.Algebra.Ring.PUnit

/-!
# The comments of a tree

A tree keeps comments in two ways: as lines of their own and as texts behind code.  Both are the
cells of its trail, in the order the layout writes them.  While a body is read its comments lie in
several places, and no step takes a cell from one place without putting it into another.
-/

set_option autoImplicit false

namespace AsnLayout

/-! ## Cells -/

/-- A place of a tree that holds comments. -/
inductive Cell where
  /-- A comment line, and whether it is a line of a block comment behind its first. -/
  | note (content : Text) (blockLine : Bool)
  | slot (text : Text)

namespace Text

/-- Every stretch of one text that does not start with a blank is a stretch of another. -/
def Shows (whole part : Text) : Prop :=
  ∀ c rest, isBlank c = false → c :: rest <:+: part → c :: rest <:+: whole

theorem Shows.of_isInfix {whole part : Text} (inside : part <:+: whole) : Shows whole part :=
  fun _ _ _ stretch => stretch.trans inside

theorem Shows.trans {whole middle part : Text} (first : Shows middle part)
    (second : Shows whole middle) : Shows whole part :=
  fun c rest solid stretch => second c rest solid (first c rest solid stretch)

theorem shows_nil (whole : Text) : Shows whole [] := by
  intro c rest solid stretch
  cases List.eq_nil_of_infix_nil stretch

theorem shows_trimStart (t : Text) : Shows (trimStart t) t := by
  intro c rest solid stretch
  induction t with
  | nil => exact stretch
  | cons d later ih =>
    rw [trimStart, trimStartBy, List.dropWhile_cons]
    split
    · rename_i blank
      rcases List.infix_cons_iff.mp stretch with first | inLater
      · obtain ⟨tail, whole⟩ := first
        cases whole
        rw [solid] at blank
        cases blank
      · exact ih inLater
    · exact stretch

theorem shows_bothComments_left (earlier later : Option Text) :
    Shows ((bothComments earlier later).getD []) (earlier.getD []) := by
  cases earlier with
  | none => exact shows_nil _
  | some earlier =>
    cases later with
    | none => exact Shows.of_isInfix (List.infix_refl _)
    | some later => exact Shows.of_isInfix (List.prefix_append _ _).isInfix

theorem shows_bothComments_right (earlier later : Option Text) :
    Shows ((bothComments earlier later).getD []) (later.getD []) := by
  cases later with
  | none => exact shows_nil _
  | some later =>
    cases earlier with
    | none => exact Shows.of_isInfix (List.infix_refl _)
    | some earlier =>
      exact Shows.of_isInfix ((List.suffix_cons _ _).trans (List.suffix_append _ _)).isInfix

theorem shows_beside (code : Text) (comment : Option Text) :
    Shows (beside code comment) (comment.getD []) := by
  cases comment with
  | none => exact shows_nil _
  | some comment =>
    by_cases empty : comment = []
    · rw [empty]
      exact shows_nil _
    · by_cases alone : code = []
      · simp only [beside, if_neg empty, if_pos alone]
        exact Shows.of_isInfix (List.infix_refl _)
      · simp only [beside, if_neg empty, if_neg alone]
        exact Shows.of_isInfix ((List.suffix_cons _ _).trans (List.suffix_append _ _)).isInfix

end Text

namespace Cell

/-- A cell is kept by another: a comment line as it is, a text as a part of a text or of a line. -/
inductive Within : Cell → Cell → Prop where
  | note (content : Text) (blockLine : Bool) :
      Within (note content blockLine) (note content blockLine)
  | slot {part whole : Text} (shown : whole.Shows part) : Within (slot part) (slot whole)
  | line {part content : Text} (blockLine : Bool) (shown : content.Shows part) :
      Within (slot part) (note content blockLine)

theorem Within.refl (cell : Cell) : Within cell cell := by
  cases cell with
  | note content blockLine => exact .note content blockLine
  | slot text => exact .slot (Text.Shows.of_isInfix (List.infix_refl _))

theorem Within.trans {a b c : Cell} (first : Within a b) (second : Within b c) : Within a c := by
  cases first with
  | note => exact second
  | slot shown =>
    cases second with
    | slot shown' => exact .slot (shown.trans shown')
    | line blockLine shown' => exact .line blockLine (shown.trans shown')
  | line blockLine shown =>
    cases second
    exact .line blockLine shown

theorem forall₂_within_refl (cells : List Cell) : List.Forall₂ Within cells cells :=
  List.forall₂_same.mpr fun cell _ => Within.refl cell

theorem forall₂_within_split {front back kept : List Cell}
    (within : List.Forall₂ Within (front ++ back) kept) :
    ∃ front' back', kept = front' ++ back' ∧ List.Forall₂ Within front front' ∧
      List.Forall₂ Within back back' := by
  refine ⟨kept.take front.length, kept.drop front.length, (List.take_append_drop _ _).symm, ?_, ?_⟩
  · simpa using List.forall₂_take front.length within
  · simpa using List.forall₂_drop front.length within

theorem forall₂_within_trans {a b c : List Cell} (first : List.Forall₂ Within a b)
    (second : List.Forall₂ Within b c) : List.Forall₂ Within a c := by
  induction first generalizing c with
  | nil => exact second
  | cons here _ ih =>
    cases second with
    | cons here' later' => exact .cons (here.trans here') (ih later')

def Occur (cells trail : List Cell) : Prop :=
  ∃ kept, List.Forall₂ Within cells kept ∧ kept <:+: trail

theorem occur_of_isInfix {cells trail : List Cell} (inside : cells <:+: trail) :
    Occur cells trail :=
  ⟨cells, forall₂_within_refl cells, inside⟩

theorem Occur.refl (cells : List Cell) : Occur cells cells := occur_of_isInfix (List.infix_refl _)

theorem Occur.widen {cells trail longer : List Cell} (occur : Occur cells trail)
    (inside : trail <:+: longer) : Occur cells longer := by
  obtain ⟨kept, within, found⟩ := occur
  exact ⟨kept, within, found.trans inside⟩

theorem Occur.trans {cells trail other : List Cell} (first : Occur cells trail)
    (second : Occur trail other) : Occur cells other := by
  obtain ⟨kept, within, before, behind, rfl⟩ := first
  obtain ⟨whole, within', inside⟩ := second
  obtain ⟨front, back, rfl, within₁, -⟩ := forall₂_within_split within'
  obtain ⟨front, middle, rfl, -, within₂⟩ := forall₂_within_split within₁
  exact ⟨middle, forall₂_within_trans within within₂,
    (List.infix_append front middle back).trans inside⟩

theorem Occur.of_mem {cell kept : Cell} {trail : List Cell} (within : Within cell kept)
    (member : kept ∈ trail) : Occur [cell] trail := by
  obtain ⟨front, back, rfl⟩ := List.append_of_mem member
  exact ⟨[kept], .cons within .nil, front, back, by simp⟩

/-- A trail has grown into another: its cells are kept at the start of it. -/
def Grown (trail other : List Cell) : Prop :=
  ∃ kept, List.Forall₂ Within trail kept ∧ kept <+: other

theorem Grown.occur {trail other : List Cell} (grown : Grown trail other) : Occur trail other := by
  obtain ⟨kept, within, start⟩ := grown
  exact ⟨kept, within, start.isInfix⟩

theorem Grown.refl (trail : List Cell) : Grown trail trail :=
  ⟨trail, forall₂_within_refl trail, List.prefix_refl _⟩

theorem Grown.trans {trail middle other : List Cell} (first : Grown trail middle)
    (second : Grown middle other) : Grown trail other := by
  obtain ⟨kept, within, behind, rfl⟩ := first
  obtain ⟨whole, within', start⟩ := second
  obtain ⟨front, back, rfl, within₁, -⟩ := forall₂_within_split within'
  exact ⟨front, forall₂_within_trans within within₁, (List.prefix_append _ _).trans start⟩

theorem Grown.append {trail other : List Cell} (grown : Grown trail other) (more : List Cell) :
    Grown trail (other ++ more) := by
  obtain ⟨kept, within, start⟩ := grown
  exact ⟨kept, within, start.trans (List.prefix_append _ _)⟩

theorem Grown.cons {trail other : List Cell} (grown : Grown trail other) {cell cell' : Cell}
    (here : Within cell cell') : Grown (cell :: trail) (cell' :: other) := by
  obtain ⟨kept, within, start⟩ := grown
  exact ⟨cell' :: kept, .cons here within, List.cons_prefix_cons.mpr ⟨rfl, start⟩⟩

end Cell

/-! ## Trails -/

namespace Node

/-- The cell of a line that a group keeps, or of a line that is an item of its own. -/
def cell (node : Node) : Cell :=
  if node.kind = .comment then .note node.content node.blockLine else .slot node.content

mutual

def trail : Node → List Cell
  | node@{ openingComment, closingComment, children, .. } =>
    if node.spansLines then
      .slot (openingComment.getD []) ::
        (if node.isStructured then trailAll children else children.map cell) ++
        [.slot (closingComment.getD [])]
    else if node.isField then [.slot (openingComment.getD [])]
    else [node.cell]

def trailAll : List Node → List Cell
  | [] => []
  | node :: later => trail node ++ trailAll later

end

def innerTrail (node : Node) : List Cell :=
  if node.isStructured then trailAll node.children else node.children.map cell

theorem innerTrail_of_structured {node : Node} (structured : node.isStructured = true) :
    node.innerTrail = trailAll node.children := if_pos structured

theorem innerTrail_of_unstructured {node : Node} (unstructured : node.isStructured = false) :
    node.innerTrail = node.children.map cell := if_neg (by simp [unstructured])

def begunTrail (node : Node) : List Cell := .slot (node.openingComment.getD []) :: node.innerTrail

def groupTrail (node : Node) : List Cell :=
  node.begunTrail ++ [.slot (node.closingComment.getD [])]

theorem trail_of_spansLines (node : Node) (spans : node.spansLines = true) :
    node.trail = node.groupTrail := by
  cases node
  rw [trail, if_pos spans]
  rfl

theorem trail_of_isField (node : Node) (isField : node.isField = true)
    (single : node.spansLines = false) : node.trail = [.slot (node.openingComment.getD [])] := by
  cases node
  rw [trail, if_neg (by simp [single]), if_pos isField]

theorem trail_of_not_isField (node : Node) (noField : node.isField = false) :
    node.trail = [node.cell] := by
  have single : node.spansLines = false := by simp [spansLines, noField]
  cases node
  rw [trail, if_neg (by simp [single]), if_neg (by simp [noField])]

@[simp]
theorem trailAll_nil : trailAll [] = [] := by rw [trailAll]

@[simp]
theorem trailAll_cons (node : Node) (later : List Node) :
    trailAll (node :: later) = node.trail ++ trailAll later := by rw [trailAll]

@[simp]
theorem trailAll_append (front back : List Node) :
    trailAll (front ++ back) = trailAll front ++ trailAll back := by
  induction front with
  | nil => simp
  | cons node later ih => simp [ih]

theorem trailAll_of_not_isField {nodes : List Node} (noField : nodes.any isField = false) :
    trailAll nodes = nodes.map cell := by
  induction nodes with
  | nil => simp
  | cons node later ih =>
    simp only [List.any_cons, Bool.or_eq_false_iff] at noField
    rw [trailAll_cons, trail_of_not_isField node noField.1, ih noField.2, List.map_cons,
      List.singleton_append]

/-- The comment lines of a body are cells of it in either kind of group. -/
theorem innerTrail_append (node : Node) (nodes : List Node) (noField : nodes.any isField = false) :
    ({ node with children := node.children ++ nodes } : Node).innerTrail =
      node.innerTrail ++ nodes.map cell := by
  have same : ({ node with children := node.children ++ nodes } : Node).isStructured =
    node.isStructured := rfl
  unfold innerTrail
  rw [same]
  split
  · rw [trailAll_append, trailAll_of_not_isField noField]
  · rw [List.map_append]

theorem innerTrail_of_not_isField (node : Node) (noField : node.children.any isField = false) :
    node.innerTrail = node.children.map cell := by
  unfold innerTrail
  split
  · exact trailAll_of_not_isField noField
  · rfl

@[simp]
theorem cell_ofComment (line : Text) (blockLine : Bool) (level : Int) (number : Nat) :
    (ofComment line blockLine level number).cell =
      .note (if blockLine then line else Text.trimStart line) blockLine := by
  simp [cell, ofComment]

/-! ## Comments behind members -/

theorem trail_addComment (node : Node) (comment : Text) (isField : node.isField = true) :
    ∃ front earlier, node.trail = front ++ [.slot (Option.getD earlier [])] ∧
      (node.addComment comment).trail =
        front ++ [.slot ((bothComments earlier (some comment)).getD [])] := by
  by_cases spans : node.spansLines = true
  · have same : node.addComment comment =
        { node with closingComment := bothComments node.closingComment (some comment) } := by
      rw [addComment, if_pos spans]
    have spans' : (node.addComment comment).spansLines = true := by
      rw [same]
      exact spans
    refine ⟨node.begunTrail, node.closingComment, trail_of_spansLines _ spans, ?_⟩
    rw [trail_of_spansLines _ spans', same]
    rfl
  · have single : node.spansLines = false := by simpa using spans
    have same : node.addComment comment =
        { node with openingComment := bothComments node.openingComment (some comment) } := by
      rw [addComment, if_neg spans]
    have single' : (node.addComment comment).spansLines = false := by
      rw [same]
      exact single
    have isField' : (node.addComment comment).isField = true := by
      rw [same]
      exact isField
    refine ⟨[], node.openingComment, trail_of_isField _ isField single, ?_⟩
    rw [trail_of_isField _ isField' single', same]
    rfl

/-- A comment that is added to the last member goes into a cell, and every other cell stays. -/
theorem grown_addComment (nodes : List Node) (comment : Text) (some : nodes.any isField = true) :
    Cell.Grown (trailAll nodes) (trailAll (modifyLastField (·.addComment comment) nodes)) ∧
      Cell.Occur [.slot comment] (trailAll (modifyLastField (·.addComment comment) nodes)) := by
  obtain ⟨front, node, back, rfl, isField, none⟩ := exists_lastField nodes some
  obtain ⟨before, earlier, given, changed⟩ := trail_addComment node comment isField
  rw [modifyLastField_append _ front back node isField none]
  simp only [trailAll_append, trailAll_cons, given, changed]
  constructor
  · refine ⟨_, List.rel_append (Cell.forall₂_within_refl _)
      (List.rel_append (List.rel_append (Cell.forall₂_within_refl _) (.cons (.slot ?_) .nil))
        (Cell.forall₂_within_refl _)), List.prefix_refl _⟩
    exact Text.shows_bothComments_left _ _
  · have shown := Text.shows_bothComments_right earlier (.some comment)
    exact .of_mem (.slot shown) (by simp)

theorem trailAll_trailer (nodes : List Node) (trailer : Text) :
    trailAll (modifyLastField (fun node => { node with trailer }) nodes) = trailAll nodes := by
  induction nodes with
  | nil => rfl
  | cons node later ih =>
    rw [modifyLastField]
    split
    · rw [trailAll_cons, trailAll_cons]
      cases node
      rw [trail, trail]
      rfl
    · rw [trailAll_cons, trailAll_cons, ih]

end Node

/-! ## Places of an open group -/

/-- A tally that tells nothing: what is left of a sound body is its shape. -/
def blind : Tally PUnit where
  of := fun _ => 1
  of_blank := fun _ _ => rfl
  of_comma := rfl

namespace OpenGroup

def places (group : OpenGroup) : List (List Cell) :=
  [group.node.begunTrail, [.slot (group.comment.getD [])], group.waiting.map Node.cell]

def KeptIn (group : OpenGroup) (others : List (List Cell)) : Prop :=
  ∀ place ∈ group.places, ∃ other ∈ others, Cell.Occur place other

theorem keptIn_iff (group : OpenGroup) (others : List (List Cell)) :
    group.KeptIn others ↔
      (∃ other ∈ others, Cell.Occur group.node.begunTrail other) ∧
      (∃ other ∈ others, Cell.Occur [.slot (group.comment.getD [])] other) ∧
      ∃ other ∈ others, Cell.Occur (group.waiting.map Node.cell) other := by
  simp [KeptIn, places]

theorem KeptIn.mono {group : OpenGroup} {few many : List (List Cell)} (kept : group.KeptIn few)
    (more : ∀ place ∈ few, place ∈ many) : group.KeptIn many := by
  intro place member
  obtain ⟨other, inFew, occur⟩ := kept place member
  exact ⟨other, more other inFew, occur⟩

theorem occur_slot_nil (node : Node) : Cell.Occur [.slot []] node.begunTrail :=
  .of_mem (.slot (Text.shows_nil _)) (List.mem_cons_self ..)

/-! ## Members that end -/

theorem occur_begunTrail {node : Node} {cells : List Cell}
    (occur : Cell.Occur cells node.innerTrail) :
    Cell.Occur cells node.begunTrail := occur.widen (List.suffix_cons _ _).isInfix

theorem grown_withMember (group : OpenGroup) (number : Nat) :
    Cell.Grown (Node.trailAll group.node.children) (Node.trailAll (group.withMember number)) := by
  unfold withMember
  by_cases pending : group.pending = true
  · simp only [if_pos pending, Node.trailAll_trailer]
    exact .refl _
  · simp only [if_neg pending]
    split
    · exact .refl _
    · rw [Node.trailAll_append]
      exact (Cell.Grown.refl _).append _

theorem grown_withRemark (group : OpenGroup) (number : Nat) (children : List Node)
    (some : group.endsMember = true → children.any Node.isField = true) :
    Cell.Grown (Node.trailAll children) (Node.trailAll (group.withRemark number children)) ∧
      ∀ comment, group.comment = .some comment →
        Cell.Occur [.slot comment] (Node.trailAll (group.withRemark number children)) := by
  unfold withRemark
  cases given : group.comment with
  | none => exact ⟨.refl _, fun comment found => by cases found⟩
  | some comment =>
    simp only [Option.some.injEq, forall_eq']
    split
    · rename_i ends
      exact Node.grown_addComment children comment (some ends)
    · rw [Node.trailAll_append]
      refine ⟨(Cell.Grown.refl _).append _, ?_⟩
      have cells : Node.trailAll [Node.ofComment comment false group.level number] =
          [.note (Text.trimStart comment) false] := by
        rw [Node.trailAll_of_not_isField (by simp), List.map_singleton, Node.cell_ofComment]
        rfl
      rw [cells]
      exact .of_mem (.line false (Text.shows_trimStart comment)) (by simp)

theorem keptIn_endMember (group : OpenGroup) (number : Nat) (sound : group.Sound blind)
    (structured : group.structured = true) :
    group.KeptIn [(group.endMember number).node.begunTrail] := by
  obtain ⟨grown, remarked⟩ := group.grown_withRemark number (group.withMember number)
    (Tally.any_isField_withMember group number sound)
  have inner : (group.endMember number).node.innerTrail =
      Node.trailAll (group.withRemark number (group.withMember number)) ++
        group.waiting.map Node.cell := by
    have structured' : (group.endMember number).node.isStructured = true := by
      rw [endMember_eq]
      exact structured
    rw [Node.innerTrail_of_structured structured', endMember_eq, Node.trailAll_append,
      Node.trailAll_of_not_isField sound.waiting.any_isField]
  have opening : (group.endMember number).node.openingComment = group.node.openingComment := by
    rw [endMember_eq]
  simp only [keptIn_iff, List.mem_singleton, exists_eq_left]
  refine ⟨?_, ?_, ?_⟩
  · rw [Node.begunTrail, Node.begunTrail, inner, opening, Node.innerTrail_of_structured structured]
    have whole := ((group.grown_withMember number).trans grown).append
      (group.waiting.map Node.cell)
    exact (whole.cons (.refl _)).occur
  · cases given : group.comment with
    | none => exact occur_slot_nil _
    | some comment =>
      apply occur_begunTrail
      rw [inner]
      exact (remarked comment given).widen (List.prefix_append _ _).isInfix
  · apply occur_begunTrail
    rw [inner]
    exact Cell.occur_of_isInfix (List.suffix_append _ _).isInfix

/-! ## Lines and comments of a group -/

/-- Comment lines that are put behind the children of a group are cells behind its cells. -/
theorem begunTrail_append (group : OpenGroup) (nodes : List Node)
    (noField : nodes.any Node.isField = false) :
    (group.append nodes).node.begunTrail = group.node.begunTrail ++ nodes.map Node.cell := by
  rw [append, Node.begunTrail, Node.innerTrail_append _ _ noField]
  rfl

theorem keptIn_of_occur {group other : OpenGroup}
    (begun : Cell.Occur group.node.begunTrail other.node.begunTrail)
    (comment : Cell.Occur [.slot (group.comment.getD [])] [.slot (other.comment.getD [])])
    (waiting : Cell.Occur (group.waiting.map Node.cell) (other.waiting.map Node.cell)) :
    group.KeptIn other.places := by
  rw [keptIn_iff]
  exact ⟨⟨_, by simp [places], begun⟩, ⟨_, by simp [places], comment⟩,
    ⟨_, by simp [places], waiting⟩⟩

theorem occur_append (group : OpenGroup) (nodes : List Node)
    (noField : nodes.any Node.isField = false) :
    Cell.Occur group.node.begunTrail (group.append nodes).node.begunTrail := by
  rw [begunTrail_append group nodes noField]
  exact Cell.occur_of_isInfix (List.prefix_append _ _).isInfix

theorem occur_keepLine (group : OpenGroup) (comment : Option Text) (number : Nat) :
    Cell.Occur group.node.begunTrail (group.keepLine comment number).node.begunTrail ∧
      (Text.neat group.text ≠ [] → Cell.Occur [.slot (comment.getD [])]
        (group.keepLine comment number).node.begunTrail) := by
  rw [keepLine_eq]
  constructor
  · refine group.occur_append _ ?_
    split <;> rfl
  · intro filled
    rw [if_neg filled]
    change Cell.Occur _ (group.append _).node.begunTrail
    rw [begunTrail_append _ _ rfl]
    refine .of_mem (.slot (Text.shows_beside (Text.neat group.text) comment)) ?_
    simp [Node.cell, lineNode]

theorem keptIn_close (group : OpenGroup) (number : Nat) (sound : group.Sound blind) :
    group.KeptIn [(group.close number).node.begunTrail] := by
  unfold close
  by_cases structured : group.structured = true
  · rw [if_pos structured]
    exact group.keptIn_endMember number sound structured
  · rw [if_neg structured]
    obtain ⟨noComment, noWaiting, -⟩ := sound.idle (by simpa using structured)
    simp only [keptIn_iff, List.mem_singleton, exists_eq_left, noComment, noWaiting]
    exact ⟨(group.occur_keepLine none number).1, occur_slot_nil _,
      Cell.occur_of_isInfix List.nil_infix⟩

theorem occur_commentLast (group : OpenGroup) (comment : Text) (number : Nat)
    (structured : group.structured = true) :
    Cell.Occur group.node.begunTrail (group.commentLast comment number).node.begunTrail ∧
      Cell.Occur [.slot comment] (group.commentLast comment number).node.begunTrail := by
  unfold commentLast
  split
  · rename_i found
    obtain ⟨grown, added⟩ := Node.grown_addComment group.node.children comment found
    have inner : (group.modifyLastField (·.addComment comment)).node.innerTrail =
        Node.trailAll (Node.modifyLastField (·.addComment comment) group.node.children) :=
      Node.innerTrail_of_structured (show Node.isStructured _ = true from structured)
    refine ⟨?_, occur_begunTrail (by rw [inner]; exact added)⟩
    rw [Node.begunTrail, Node.begunTrail, inner, Node.innerTrail_of_structured structured]
    exact (grown.cons (.refl _)).occur
  · refine ⟨group.occur_append _ rfl, ?_⟩
    rw [begunTrail_append _ _ rfl]
    refine .of_mem (.line false (Text.shows_trimStart comment)) ?_
    simp

theorem loose_commentLast (group : OpenGroup) (comment : Text) (number : Nat) :
    (group.commentLast comment number).comment = group.comment ∧
      (group.commentLast comment number).waiting = group.waiting := by
  unfold commentLast
  split <;> exact ⟨rfl, rfl⟩

end OpenGroup

/-! ## Places of a body -/

namespace Body

def places (body : Body) : List (List Cell) := (body.top :: body.below).flatMap OpenGroup.places

def Holds (cells : List Cell) (body : Body) : Prop :=
  ∃ place ∈ body.places, Cell.Occur cells place

def Keeps (body next : Body) : Prop := ∀ cells, Holds cells body → Holds cells next

theorem holds_top {cells place : List Cell} {body : Body} (member : place ∈ body.top.places)
    (occur : Cell.Occur cells place) : Holds cells body :=
  ⟨place, List.mem_flatMap.mpr ⟨body.top, List.mem_cons_self .., member⟩, occur⟩

theorem holds_begun {cells : List Cell} {body : Body}
    (occur : Cell.Occur cells body.top.node.begunTrail) : Holds cells body :=
  holds_top (by simp [OpenGroup.places]) occur

theorem keeps_of_keptIn {body next : Body} (top : body.top.KeptIn next.places)
    (below : ∀ group ∈ body.below, group.KeptIn next.places) : body.Keeps next := by
  rintro cells ⟨place, member, occur⟩
  obtain ⟨group, inBody, inGroup⟩ := List.mem_flatMap.mp member
  have kept : group.KeptIn next.places := by
    rcases List.mem_cons.mp inBody with rfl | inBelow
    · exact top
    · exact below group inBelow
  obtain ⟨other, inNext, occur'⟩ := kept place inGroup
  exact ⟨other, inNext, occur.trans occur'⟩

theorem keptIn_places {group : OpenGroup} {body : Body} (member : group ∈ body.below) :
    group.KeptIn body.places := by
  intro place inGroup
  refine ⟨place, List.mem_flatMap.mpr ⟨group, List.mem_cons_of_mem _ member, inGroup⟩, .refl _⟩

theorem keeps_top {body : Body} {top : OpenGroup} {anchor : Anchor}
    (kept : body.top.KeptIn top.places) : body.Keeps { body with top, anchor } := by
  apply keeps_of_keptIn
  · intro place member
    obtain ⟨other, inTop, occur⟩ := kept place member
    exact ⟨other, List.mem_flatMap.mpr ⟨top, List.mem_cons_self .., inTop⟩, occur⟩
  · exact fun group member => keptIn_places member

theorem keeps_take (body : Body) (c : Char) : body.Keeps { body with top := body.top.take c } :=
  keeps_top (OpenGroup.keptIn_of_occur (.refl _) (.refl _) (.refl _))

theorem keeps_enterGroup {body next : Body} {limit : Int} {number : Nat}
    (sound : body.top.Sound blind) (entered : body.enterGroup limit number = .ok next) :
    body.Keeps next := by
  obtain ⟨-, -, rfl⟩ := enterGroup_eq_ok.mp entered
  apply keeps_of_keptIn
  · -- The comments that wait move over to the new group with its header.
    have noField : (body.top.groupNode number).children.any Node.isField = false := by
      rw [← sound.waiting.any_isField, OpenGroup.groupNode, List.any_map]
      rfl
    have begun : (body.top.groupNode number).begunTrail =
        .slot (body.top.comment.getD []) :: body.top.waiting.map Node.cell := by
      rw [Node.begunTrail, Node.innerTrail_of_not_isField _ noField, OpenGroup.groupNode,
        List.map_map]
      rfl
    rw [OpenGroup.keptIn_iff]
    refine ⟨⟨_, ?_, .refl _⟩, ⟨(body.top.groupNode number).begunTrail, ?_, ?_⟩,
      ⟨(body.top.groupNode number).begunTrail, ?_, ?_⟩⟩
    · simp [places, OpenGroup.places, OpenGroup.withoutHeader]
    · simp [places, OpenGroup.places]
    · rw [begun]
      exact .of_mem (.refl _) (List.mem_cons_self ..)
    · simp [places, OpenGroup.places]
    · rw [begun]
      exact Cell.occur_of_isInfix (List.suffix_cons _ _).isInfix
  · intro group member
    exact keptIn_places (List.mem_cons_of_mem _ member)

theorem keeps_leave {top outer : OpenGroup} {below : List OpenGroup} {anchor : Anchor}
    {number : Nat} {definition : Node}
    (sound : Body.Sound blind definition ⟨top, outer :: below, anchor⟩) :
    Keeps ⟨top, outer :: below, anchor⟩ ⟨outer.adopt (top.close number).node, below, .member⟩ := by
  obtain ⟨spans, -, structured, -, -⟩ := sound.stacked
  have spans' : (top.close number).node.spansLines = true := by
    rw [Node.spansLines_of_head (top.head_close number)]
    exact spans
  have inner : (outer.adopt (top.close number).node).node.begunTrail =
      outer.node.begunTrail ++ (top.close number).node.groupTrail := by
    have structured' : (outer.adopt (top.close number).node).node.isStructured = true := structured
    rw [Node.begunTrail, Node.begunTrail, Node.innerTrail_of_structured structured',
      Node.innerTrail_of_structured structured, OpenGroup.adopt, OpenGroup.append,
      Node.trailAll_append, Node.trailAll_cons, Node.trailAll_nil, List.append_nil,
      Node.trail_of_spansLines _ spans']
    rfl
  apply keeps_of_keptIn
  · intro place member
    obtain ⟨other, inClosed, occur⟩ := top.keptIn_close number sound.top place member
    rw [List.mem_singleton.mp inClosed] at occur
    refine ⟨(outer.adopt (top.close number).node).node.begunTrail, ?_, ?_⟩
    · simp [places, OpenGroup.places]
    · rw [inner]
      exact occur.widen ((List.prefix_append _ _).isInfix.trans (List.suffix_append _ _).isInfix)
  · intro group member
    rcases List.mem_cons.mp member with rfl | inBelow
    · have kept : group.KeptIn (group.adopt (top.close number).node).places := by
        refine OpenGroup.keptIn_of_occur ?_ (.refl _) (.refl _)
        rw [inner]
        exact Cell.occur_of_isInfix (List.prefix_append _ _).isInfix
      intro place inGroup
      obtain ⟨other, inOuter, occur⟩ := kept place inGroup
      exact ⟨other, List.mem_flatMap.mpr ⟨_, List.mem_cons_self .., inOuter⟩, occur⟩
    · exact keptIn_places inBelow

theorem keeps_step {limit : Int} {number : Nat} {q : Quoting} {body next : Body} {c : Char}
    {rest : Text} {definition : Node} (taken : Step limit number q body c rest next)
    (sound : body.Sound blind definition) : body.Keeps next := by
  cases taken with
  | hidden covered => exact body.keeps_take c
  | leave code settled => exact keeps_leave sound
  | enter code settled structured leftOpen entered => exact keeps_enterGroup sound.top entered
  | comma code settled structured =>
    refine keeps_top ((body.top.keptIn_endMember number sound.top structured).mono ?_)
    simp [OpenGroup.places]
  | keep code noClose noGroup noComma =>
    exact keeps_top (OpenGroup.keptIn_of_occur (.refl _) (.refl _) (.refl _))

/-! ## Ends of lines -/

theorem keeps_anchorComment (body : Body) (comment : Text) (number : Nat) {definition : Node}
    (sound : body.Sound blind definition) :
    body.Keeps (body.anchorComment comment number) ∧
      (body.anchorComment comment number).Holds [.slot comment] := by
  unfold anchorComment
  cases anchor : body.anchor with
  | nothing =>
    refine ⟨keeps_top (OpenGroup.keptIn_of_occur (body.top.occur_append _ rfl) (.refl _) (.refl _)),
      holds_begun ?_⟩
    rw [OpenGroup.begunTrail_append _ _ rfl]
    exact .of_mem (.line false (Text.shows_trimStart comment)) (by simp)
  | opening =>
    refine ⟨keeps_top (OpenGroup.keptIn_of_occur ?_ (.refl _) (.refl _)), holds_begun ?_⟩
    · have shown := Text.shows_bothComments_left body.top.node.openingComment (some comment)
      exact ((Cell.Grown.refl _).cons (.slot shown)).occur
    · exact .of_mem (.slot (Text.shows_bothComments_right _ _)) (List.mem_cons_self ..)
  | member =>
    obtain ⟨grown, added⟩ := body.top.occur_commentLast comment number (sound.anchored anchor)
    obtain ⟨sameComment, sameWaiting⟩ := body.top.loose_commentLast comment number
    refine ⟨keeps_top (OpenGroup.keptIn_of_occur grown ?_ ?_), holds_begun added⟩
    · rw [sameComment]
      exact .refl _
    · rw [sameWaiting]
      exact .refl _

theorem keeps_endLine (body : Body) (comment : Option Text) (number : Nat) {definition : Node}
    (sound : body.Sound blind definition) :
    body.Keeps (body.endLine comment number) ∧
      (body.endLine comment number).Holds [.slot (comment.getD [])] := by
  unfold endLine
  by_cases structured : body.top.structured = true
  · simp only [structured, Bool.not_true, Bool.false_and, if_true]
    cases comment with
    | none => exact ⟨fun _ holds => holds, holds_begun (OpenGroup.occur_slot_nil _)⟩
    | some comment =>
      simp only [Bool.false_eq_true, if_false]
      split
      · exact body.keeps_anchorComment comment number sound
      · have added := Text.shows_bothComments_right body.top.comment (some comment)
        have kept := Text.shows_bothComments_left body.top.comment (some comment)
        refine ⟨keeps_top (OpenGroup.keptIn_of_occur (.refl _) ?_ (.refl _)),
          holds_top ?_ (.of_mem (.slot added) (List.mem_singleton_self _))⟩
        · exact .of_mem (.slot kept) (List.mem_singleton_self _)
        · simp [OpenGroup.places]
  · have unstructured : body.top.structured = false := by simpa using structured
    by_cases empty : Text.neat body.top.text = []
    · have cleared : body.Keeps { body with top := { body.top with text := [] } } :=
        keeps_top (OpenGroup.keptIn_of_occur (.refl _) (.refl _) (.refl _))
      have soundCleared : Body.Sound blind definition
          { body with top := { body.top with text := [] } } := by
        obtain ⟨⟨unclosed, comment, waiting, idle, trailing⟩, stacked, anchored⟩ := sound
        refine ⟨⟨unclosed, comment, waiting, idle, trailing⟩, ?_, anchored⟩
        exact Tally.stacked_of_head (show _ = body.top.node.head from rfl) stacked
      simp only [unstructured, empty, ne_eq, not_true_eq_false, decide_false, Bool.and_false,
        Bool.false_eq_true, if_false]
      cases comment with
      | none => exact ⟨cleared, holds_begun (OpenGroup.occur_slot_nil _)⟩
      | some comment =>
        simp only [Text.isBlankText, List.all_nil, if_true]
        obtain ⟨kept, added⟩ := keeps_anchorComment _ comment number soundCleared
        exact ⟨fun cells holds => kept cells (cleared cells holds), added⟩
    · simp only [unstructured, empty, ne_eq, not_false_eq_true, decide_true, Bool.not_false,
        Bool.and_self, if_true]
      obtain ⟨grown, added⟩ := body.top.occur_keepLine comment number
      refine ⟨keeps_top (OpenGroup.keptIn_of_occur grown ?_ ?_), holds_begun (added empty)⟩
      · rw [OpenGroup.keepLine_eq]
        exact .refl _
      · rw [OpenGroup.keepLine_eq]
        exact .refl _

/-! ## Comment lines -/

def nextPlace (body : Body) : List Cell :=
  if body.top.structured && !Text.isBlankText body.top.text then body.top.waiting.map Node.cell
  else body.top.node.begunTrail

theorem nextPlace_of_waits (body : Body)
    (waits : (body.top.structured && !Text.isBlankText body.top.text) = true) :
    body.nextPlace = body.top.waiting.map Node.cell := if_pos waits

theorem nextPlace_of_idle (body : Body)
    (idle : ¬(body.top.structured && !Text.isBlankText body.top.text) = true) :
    body.nextPlace = body.top.node.begunTrail := if_neg idle

theorem nextPlace_mem (body : Body) : body.nextPlace ∈ body.places := by
  unfold nextPlace
  split <;> simp [places, OpenGroup.places]

/-- A comment line goes behind all that stands at its place. -/
theorem nextPlace_readComment (body : Body) (line : Text) (blockLine : Bool) (number : Nat) :
    (body.readComment line blockLine number).nextPlace =
      body.nextPlace ++ [.note (if blockLine then line else Text.trimStart line) blockLine] := by
  simp only [readComment]
  generalize (if body.top.structured = true then body.top.level
    else body.top.level + body.top.brackets) = level
  by_cases waits : (body.top.structured && !Text.isBlankText body.top.text) = true
  · rw [if_pos waits, nextPlace_of_waits body waits, nextPlace_of_waits _ (by exact waits),
      List.map_append, List.map_singleton, Node.cell_ofComment]
  · rw [if_neg waits, nextPlace_of_idle body waits, nextPlace_of_idle _ (by exact waits),
      OpenGroup.begunTrail_append _ _ rfl, List.map_singleton, Node.cell_ofComment]

theorem keeps_readComment (body : Body) (line : Text) (blockLine : Bool) (number : Nat) :
    body.Keeps (body.readComment line blockLine number) := by
  unfold readComment
  simp only
  split
  · refine keeps_top (OpenGroup.keptIn_of_occur (.refl _) (.refl _) ?_)
    rw [List.map_append]
    exact Cell.occur_of_isInfix (List.prefix_append _ _).isInfix
  · exact keeps_top (OpenGroup.keptIn_of_occur (body.top.occur_append _ rfl) (.refl _) (.refl _))

end Body

end AsnLayout
