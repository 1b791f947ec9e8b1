import AsnLayout.Proofs.GroupNodes
import AsnLayout.Proofs.VisibleLayout

/-!
# Lines of block comments

The lines of a block comment behind its first are kept as they are, wherever they stand.  Every such
line of a tree, and every line of a layout that is not indented anew, is a line of the source in
front of which a block comment is open.
-/

set_option autoImplicit false

namespace AsnLayout

/-- The lines in front of which a block comment is open; `inBlock` tells whether one is open in
front of the first. -/
def Text.blockLines (inBlock : Bool) : List Text → List Text
  | [] => []
  | line :: rest =>
    let later := blockLines (LineKind.blockAfter inBlock line) rest
    if inBlock then line :: later else later

namespace Text

variable {inBlock : Bool} {line : Text} {rest lines : List Text}

theorem blockLines_tail (stem : blockLines inBlock (line :: rest) ⊆ lines) :
    blockLines (LineKind.blockAfter inBlock line) rest ⊆ lines := by
  refine List.Subset.trans ?_ stem
  rw [blockLines]
  split
  · exact List.subset_cons_self ..
  · exact List.Subset.refl _

theorem mem_of_blockLines (stem : blockLines inBlock (line :: rest) ⊆ lines)
    (isOpen : inBlock = true) : line ∈ lines := by
  refine stem ?_
  rw [blockLines, if_pos isOpen]
  exact List.mem_cons_self ..

end Text

/-! ## Nodes -/

namespace Node

def Stems (lines : List Text) (node : Node) : Prop := node.blockLine = true → node.content ∈ lines

variable {lines : List Text} {node : Node}

theorem stems_of_bare (outside : node.blockLine = false) (bare : node.children = []) :
    node.Everywhere (Stems lines) :=
  .intro (fun isLine => by rw [outside] at isLine; cases isLine) (by simp [bare])

theorem stems_ofComment {inBlock : Bool} {line : Text} (stem : inBlock = true → line ∈ lines)
    (level : Int) (number : Nat) :
    (ofComment line inBlock level number).Everywhere (Stems lines) := by
  refine .intro (fun isLine => ?_) (by simp [ofComment])
  have isOpen : inBlock = true := isLine
  rw [ofComment, if_pos isOpen]
  exact stem isOpen

theorem built_stems (lines : List Text) : Built (Stems lines) (fun _ => True) (fun _ => True) where
  none := trivial
  both _ _ := trivial
  children here _ := here
  level here _ := here
  opening here _ _ := here
  closing here _ _ := here
  trailer here _ _ := here
  remark _ _ _ := nofun
  ofMember _ _ _ _ := nofun

end Node

/-! ## Bodies -/

namespace Body

structure Stems (lines : List Text) (body : Body) : Prop where
  top : body.top.Holds (Node.Stems lines) fun _ => True
  below : ∀ group ∈ body.below, group.Holds (Node.Stems lines) fun _ => True

variable {lines : List Text} {limit : Int} {number : Nat} {q : Quoting} {body next : Body}

theorem Stems.close (stems : body.Stems lines) (number : Nat) :
    (body.top.close number).Holds (Node.Stems lines) fun _ => True :=
  stems.top.close (Node.built_stems lines) (fun _ => trivial) fun _ => nofun

theorem Stems.step {c : Char} {rest : Text} (stems : body.Stems lines)
    (taken : Step limit number q body c rest next) : next.Stems lines := by
  have built := Node.built_stems lines
  cases taken with
  | hidden covered => exact ⟨⟨stems.top.node, stems.top.waiting, trivial⟩, stems.below⟩
  | leave code settled =>
    obtain ⟨outer, below⟩ := List.forall_mem_cons.mp stems.below
    exact ⟨outer.adopt built (stems.close number).node, below⟩
  | enter code settled structured leftOpen entered =>
    obtain ⟨-, -, rfl⟩ := Body.enterGroup_eq_ok.mp entered
    exact ⟨stems.top.groupNode built nofun,
      List.forall_mem_cons.mpr ⟨stems.top.withoutHeader built, stems.below⟩⟩
  | comma code settled structured => exact ⟨stems.top.endMember built trivial number, stems.below⟩
  | keep code noClose noGroup noComma =>
    exact ⟨⟨stems.top.node, stems.top.waiting, trivial⟩, stems.below⟩

theorem Stems.endLine (stems : body.Stems lines) (comment : Option Text) (number : Nat) :
    (body.endLine comment number).Stems lines := by
  refine ⟨holds_endLine stems.top (Node.built_stems lines) trivial fun _ => nofun, ?_⟩
  rw [body.below_endLine]
  exact stems.below

abbrev ProgressStems (lines : List Text) : Progress → Prop :=
  Progress.Of (Stems lines) (·.Everywhere (Node.Stems lines))

theorem stems_lineRun {comment : Option Text} {code : Text} {progress : Progress}
    (run : LineRun limit comment number q body code progress) (stems : body.Stems lines) :
    ProgressStems lines progress := by
  induction run with
  | finish => exact stems.endLine ..
  | close code settled closed =>
    obtain ⟨here, below⟩ := (stems.close number).node
    obtain ⟨-, rfl⟩ := Body.closeDefinition_eq_ok.mp closed
    exact .intro here below
  | step taken later ih => exact ih (stems.step taken)

theorem stems_readLine {line : CodeLine} {progress : Progress}
    (read : body.readLine limit line number = .ok progress) (stems : body.Stems lines) :
    ProgressStems lines progress :=
  stems_lineRun (lineRun_of_readCode _ _ _ _ _ _ _ read)
    ⟨⟨stems.top.node, stems.top.waiting, trivial⟩, stems.below⟩

theorem Stems.readComment (stems : body.Stems lines) {inBlock : Bool} {line : Text}
    (stem : inBlock = true → line ∈ lines) (number : Nat) :
    (body.readComment line inBlock number).Stems lines := by
  refine ⟨holds_readComment stems.top (Node.built_stems lines) fun level =>
    (Node.stems_ofComment stem level number).here, ?_⟩
  rw [body.below_readComment]
  exact stems.below

theorem stems_start {node : Node} {first : Text} {progress : Progress}
    (started : Body.start node limit first = .ok progress) (outside : node.blockLine = false)
    (bare : node.children = []) : ProgressStems lines progress := by
  have opened : ∀ {other : Node} {anchor : Anchor}, other.blockLine = false → other.children = [] →
      Stems lines { top := { node := other }, anchor } := fun outside bare =>
    ⟨⟨Node.stems_of_bare outside bare, by simp, trivial⟩, by simp⟩
  rcases Body.lineRun_of_start started with ⟨-, rfl⟩ | run
  · exact opened outside bare
  · exact stems_lineRun run (opened outside bare)

end Body

/-! ## Trees -/

namespace Reader

theorem blockLine_lineItem {reader after : Reader} {number : Nat} {line : Text} {node : Node}
    (item : reader.lineItem number line = (node, after)) :
    node = Node.ofComment line reader.inBlock reader.level number ∨
      node.blockLine = false ∧ node.children = [] := by
  unfold lineItem at item
  simp only at item
  split at item
  · cases item
    exact .inl rfl
  · split at item <;>
    · cases item
      exact .inr ⟨rfl, rfl⟩
  all_goals
    cases item
    exact .inr ⟨rfl, rfl⟩

/-- The lines of block comments in a tree are lines in front of which a block comment is open. -/
theorem forms_stems (limit : Int) (lines : List Text) :
    Forms limit (fun inBlock rest => Text.blockLines inBlock rest ⊆ lines) (fun _ => True)
      (Body.Stems lines) (·.Everywhere (Node.Stems lines)) (·.Everywhere (Node.Stems lines)) where
  tail stem := Text.blockLines_tail stem
  remark stem _ := Node.stems_ofComment (Text.mem_of_blockLines stem)
  begins _ _ := trivial
  extend _ _ _ _ _ := trivial
  single _ _ _ _ _ _ :=
    ⟨fun _ => Node.stems_of_bare rfl rfl, fun _ _ _ _ => Node.stems_of_bare rfl rfl⟩
  start _ _ _ _ _ _ _ _ _ _ started := Body.stems_start started rfl rfl
  readComment stem _ _ stems number := stems.readComment (Text.mem_of_blockLines stem) number
  readLine _ _ _ stems _ _ read := Body.stems_readLine read stems
  lineItem stem item := by
    rcases blockLine_lineItem item with rfl | ⟨outside, bare⟩
    · exact Node.stems_ofComment (Text.mem_of_blockLines stem) ..
    · exact Node.stems_of_bare outside bare
  ofNode all := all

end Reader

theorem stems_ofText {text : Text} {options : Options} {root : Node}
    (read : Node.ofText text options = .ok root) :
    ∀ node ∈ root.children,
      node.Everywhere (Node.Stems (Text.blockLines false (Text.lines text))) :=
  (Reader.forms_stems options.maxDepth _).ofText read (List.Subset.refl _)

/-! ## Layouts -/

def Piece.Stems (lines : List Text) : Piece → Prop
  | verbatim text => text ∈ lines
  | line _ _ | gap => True

def Item.Stems (lines : List Text) : Item → Prop
  | group node | remark node => node.Everywhere (Node.Stems lines)
  | member _ _ | plain _ => True

theorem Item.stems_ofChild {lines : List Text} {node : Node}
    (all : node.Everywhere (Node.Stems lines)) : ∀ item ∈ ofChild node, item.Stems lines := by
  have segments : ∀ (comment : Option Text) (texts : List Text),
      ∀ item ∈ ofSegments comment texts, item.Stems lines := by
    intro comment texts item there
    obtain ⟨text, -, rfl | rfl⟩ := exists_of_mem_ofSegments there
    · trivial
    · trivial
  unfold ofChild
  split
  · exact List.forall_mem_singleton.mpr all
  split
  · split
    · exact List.forall_mem_singleton.mpr trivial
    · exact segments _ _
  split
  · exact List.forall_mem_singleton.mpr all
  · exact List.forall_mem_singleton.mpr trivial

namespace Layout

variable {lines : List Text} {options : Options} {node : Node} {pieces : List Piece}

theorem stems_commentPiece (stems : node.Stems lines) (level : Int) :
    (commentPiece node level).Stems lines := by
  unfold commentPiece
  split
  · rename_i isLine
    exact stems isLine
  · trivial

theorem stems_keptLines (all : node.Everywhere (Node.Stems lines)) (level : Int) :
    ∀ piece ∈ keptLines node level, piece.Stems lines := by
  intro piece member
  obtain ⟨child, isChild, rfl⟩ := List.mem_map.mp member
  simp only
  split
  · exact stems_commentPiece (all.child child isChild).here _
  · trivial

theorem stems_children (all : node.Everywhere (Node.Stems lines)) :
    ∀ item ∈ node.children.flatMap Item.ofChild, item.Stems lines := by
  intro item member
  obtain ⟨child, isChild, here⟩ := List.mem_flatMap.mp member
  exact Item.stems_ofChild (all.child child isChild) item here

theorem makes_stems : Makes (Item.Stems lines) (Piece.Stems lines) where
  remark level good := stems_commentPiece good.here level
  plain _ _ := trivial
  member _ _ _ := trivial
  expanded _ _ _ _ := ⟨trivial, fun _ _ => trivial, trivial⟩
  group _ _ _ := ⟨trivial, trivial⟩
  children good _ := stems_children good
  kept good _ := stems_keptLines good

theorem stems_layNode (all : node.Everywhere (Node.Stems lines))
    (laid : layNode options node = .ok pieces) : ∀ piece ∈ pieces, piece.Stems lines := by
  have gapBehind : ∀ (ends : Bool), ∀ piece ∈ Piece.line node.level node.content ::
      (if ends then [.gap] else []), piece.Stems lines := by
    intro ends
    cases ends <;> simp [Piece.Stems]
  unfold layNode at laid
  split at laid
  · cases laid
    exact gapBehind _
  · cases laid
    exact gapBehind _
  · cases laid
    simp [Piece.Stems]
  · cases laid
    exact List.forall_mem_singleton.mpr (stems_commentPiece all.here _)
  · split at laid
    · exact makes_stems.layPlainDefinition trivial trivial
        (fun _ _ => ⟨trivial, fun _ _ => trivial, trivial⟩) laid
    · exact makes_stems.layGroupDefinition trivial trivial (fun _ _ => trivial)
        (fun _ => stems_children all) (fun _ => stems_keptLines all _) trivial laid
  · cases laid
    split <;> exact List.forall_mem_singleton.mpr trivial

/-- Every line that a layout keeps as it is, is a line of a block comment in the source. -/
theorem stems_layNodes {nodes : List Node}
    (all : ∀ node ∈ nodes, node.Everywhere (Node.Stems lines))
    (laid : layNodes options nodes = .ok pieces) : ∀ piece ∈ pieces, piece.Stems lines :=
  forall_layNodes (fun _ _ => stems_layNode) all laid

end Layout

end AsnLayout
