import AsnLayout.Layout.Document
import AsnLayout.Proofs.Scan
import AsnLayout.Proofs.Tally

/-!
# What a layout writes

The characters that the layout of a node writes, in the order it writes them, are the text
`Node.written`.  Apart from blanks and commas, the layout adds nothing to it and leaves nothing of it
out, as long as cutting a member into members drops nothing that counts.
-/

set_option autoImplicit false

namespace AsnLayout

theorem bind_eq_ok {ε α β : Type} (x : Except ε α) (next : α → Except ε β) (result : β) :
    (x >>= next) = .ok result ↔ ∃ a, x = .ok a ∧ next a = .ok result := by
  cases x with
  | error fault => simp [bind, Except.bind]
  | ok a => simp [bind, Except.bind]

/-! ## Texts of nodes -/

namespace Node

def framed (node : Node) (body : Text) : Text :=
  node.header.getD [] ++ '{' :: node.openingComment.getD [] ++ body ++
    '}' :: node.trailer ++ node.closingComment.getD []

def contents (nodes : List Node) : Text := nodes.flatMap content

mutual

def written : Node → Text
  | node@{ content, openingComment, children, .. } =>
    if node.spansLines then
      node.framed (if node.isStructured then writtenAll children else contents children)
    else if node.isField then content ++ openingComment.getD []
    else content

def writtenAll : List Node → Text
  | [] => []
  | node :: later => written node ++ writtenAll later

end

def body (node : Node) : Text :=
  if node.isStructured then writtenAll node.children else contents node.children

theorem written_of_spansLines (node : Node) (spans : node.spansLines = true) :
    node.written = node.framed node.body := by
  cases node
  rw [written, if_pos spans]
  rfl

theorem written_of_isField (node : Node) (isField : node.isField = true)
    (single : node.spansLines = false) :
    node.written = node.content ++ node.openingComment.getD [] := by
  cases node
  rw [written, if_neg (by simp [single]), if_pos isField]

theorem written_of_not_isField (node : Node) (noField : node.isField = false) :
    node.written = node.content := by
  have single : node.spansLines = false := by simp [spansLines, noField]
  cases node
  rw [written, if_neg (by simp [single]), if_neg (by simp [noField])]

@[simp]
theorem writtenAll_nil : writtenAll [] = [] := by rw [writtenAll]

@[simp]
theorem writtenAll_cons (node : Node) (later : List Node) :
    writtenAll (node :: later) = node.written ++ writtenAll later := by rw [writtenAll]

@[simp]
theorem writtenAll_append (front back : List Node) :
    writtenAll (front ++ back) = writtenAll front ++ writtenAll back := by
  induction front with
  | nil => simp
  | cons node later ih => simp [ih]

@[simp]
theorem contents_append (front back : List Node) :
    contents (front ++ back) = contents front ++ contents back := by
  simp [contents]

def isPlain (node : Node) : Bool := node.oneLine = some true && !node.isStructured

def writtenItem (node : Node) : Text :=
  if node.kind = .typeDefinition then
    node.name ++ "::=".toList ++
      if node.isPlain then node.header.getD [] ++ node.openingComment.getD []
      else if node.oneLine = some true then node.framed (node.inlineMembers.getD []).flatten
      else node.framed node.body
  else node.content

end Node

namespace Item

def written : Item → Text
  | member text comment => text ++ comment.getD []
  | group node => node.framed node.body
  | remark node => node.content
  | plain text => text

end Item

namespace Piece

def written : Piece → Text
  | line _ text => text
  | verbatim text => text
  | gap => []

end Piece

/-! ## Assembling pieces -/

namespace Tally

variable {M : Type} [Monoid M] (tally : Tally M)

def pieces (ps : List Piece) : M := tally.texts (ps.map Piece.written)

@[simp]
theorem pieces_nil : tally.pieces [] = 1 := rfl

@[simp]
theorem pieces_cons (first : Piece) (later : List Piece) :
    tally.pieces (first :: later) = tally.text first.written * tally.pieces later := by
  simp [pieces]

@[simp]
theorem pieces_append (front back : List Piece) :
    tally.pieces (front ++ back) = tally.pieces front * tally.pieces back := by
  simp [pieces]

theorem texts_rows (width : Int) (last : Option Text) (ps : List Piece) :
    tally.texts (Piece.rows width last ps) = tally.pieces ps := by
  induction ps generalizing last with
  | nil => rfl
  | cons piece later ih =>
    cases piece with
    | line level t => simp [Piece.rows, Piece.indented, Piece.written, ih]
    | verbatim t => simp [Piece.rows, Piece.written, ih]
    | gap =>
      cases last with
      | none => simp [Piece.rows, Piece.written, ih]
      | some row => by_cases empty : row = [] <;> simp [Piece.rows, Piece.written, empty, ih]

theorem texts_dropWhile_isBlankText (rows : List Text) :
    tally.texts (rows.dropWhile Text.isBlankText) = tally.texts rows := by
  induction rows with
  | nil => rfl
  | cons row later ih =>
    by_cases blank : Text.isBlankText row = true
    · simp [blank, ih, tally.text_of_isBlankText row blank]
    · simp [blank]

theorem texts_trimRows (rows : List Text) : tally.texts (Piece.trimRows rows) = tally.texts rows := by
  have atEnd : ∀ kept : List Text,
      tally.texts (kept.reverse.dropWhile Text.isBlankText).reverse = tally.texts kept := by
    intro kept
    induction kept using List.reverseRecOn with
    | nil => rfl
    | append_singleton front row ih =>
      by_cases blank : Text.isBlankText row = true
      · simp [blank, ih, tally.text_of_isBlankText row blank]
      · simp [blank]
  rw [Piece.trimRows, atEnd, texts_dropWhile_isBlankText]

theorem text_limitNewlines (run : Nat) (t : Text) :
    tally.text (Piece.limitNewlines run t) = tally.text t := by
  induction t generalizing run with
  | nil => rfl
  | cons c rest ih =>
    simp only [Piece.limitNewlines]
    split
    · rename_i isNewline
      split
      · simp [ih]
      · simp [ih, isNewline]
    · simp [ih]

/-- Assembling writes the texts of the pieces, and blanks. -/
theorem text_assemble (width : Int) (ps : List Piece) :
    tally.text (Piece.assemble width ps) = tally.pieces ps := by
  have kept := tally.texts_trimRows (Piece.rows width none ps)
  rw [texts_rows] at kept
  unfold Piece.assemble
  split
  · rename_i empty
    rw [← kept, empty]
    simp
  · rw [text_append, text_limitNewlines, text_ofLines, kept]
    simp

/-! ## Lines -/

@[simp]
theorem text_remarked (t : Text) (comment : Option Text) :
    tally.text (Layout.remarked t comment) = tally.text t * tally.remark comment := by
  cases comment with
  | none => simp [Layout.remarked]
  | some comment => by_cases empty : comment = [] <;> simp [Layout.remarked, empty]

@[simp]
theorem text_withComma (t : Text) (comma : Bool) :
    tally.text (Layout.withComma t comma) = tally.text t := by
  cases comma <;> simp [Layout.withComma]

@[simp]
theorem text_opener (header : Text) :
    tally.text (Layout.opener header) = tally.text header * tally.of '{' := by
  by_cases empty : header = [] <;> simp [Layout.opener, empty]

@[simp]
theorem text_closer (trailer : Text) (comma : Bool) :
    tally.text (Layout.closer trailer comma) = tally.of '}' * tally.text trailer := by
  by_cases empty : trailer = [] <;> simp [Layout.closer, empty]

theorem text_framed (node : Node) (body : Text) :
    tally.text (node.framed body) =
      tally.text (node.header.getD []) * tally.of '{' * tally.remark node.openingComment *
        tally.text body * tally.of '}' * tally.text node.trailer *
        tally.remark node.closingComment := by
  simp [Node.framed, remark, mul_assoc]

@[simp]
theorem text_written_commentPiece (node : Node) (level : Int) :
    tally.text (Layout.commentPiece node level).written = tally.text node.content := by
  unfold Layout.commentPiece
  split <;> rfl

theorem pieces_keptLines (node : Node) (level : Int) :
    tally.pieces (Layout.keptLines node level) = tally.text (Node.contents node.children) := by
  unfold Layout.keptLines
  induction node.children with
  | nil => rfl
  | cons child later ih =>
    rw [List.map_cons, pieces_cons, ih, Node.contents, Node.contents, List.flatMap_cons,
      text_append]
    split
    · rw [text_written_commentPiece]
    · rfl

end Tally

/-! ## Texts that can be cut -/

def Text.GroupIn (good : Text → Prop) (text : Text) : Prop :=
  ∀ before inside after, text = before ++ '{' :: (inside ++ '}' :: after) →
    Text.findExposed? text (· = '{') = some before.length →
    Text.groupEnd? (inside ++ '}' :: after) = some inside.length → good inside

/-- A class of texts that are cut into members without losing anything that counts, and whose
members and groups are of the class again. -/
structure Tally.Cuttable {M : Type} [Monoid M] (tally : Tally M) (good : Text → Prop) : Prop where
  members_kept : ∀ text, good text → tally.texts (Text.members text) = tally.text text
  member : ∀ text, good text → ∀ part ∈ Text.members text, good part
  inside : ∀ text, good text → Text.GroupIn good text

namespace Node

mutual

def MembersIn (good : Text → Prop) : Node → Prop
  | node@{ content, children, .. } =>
    if node.spansLines then node.isStructured → AllMembersIn good children
    else node.isField → good content

def AllMembersIn (good : Text → Prop) : List Node → Prop
  | [] => True
  | node :: later => MembersIn good node ∧ AllMembersIn good later

end

theorem membersIn_of_spansLines (good : Text → Prop) (node : Node)
    (spans : node.spansLines = true) :
    MembersIn good node ↔ (node.isStructured → AllMembersIn good node.children) := by
  cases node
  rw [MembersIn, if_pos spans]

theorem membersIn_of_single (good : Text → Prop) (node : Node)
    (single : node.spansLines = false) :
    MembersIn good node ↔ (node.isField → good node.content) := by
  cases node
  rw [MembersIn, if_neg (by simp [single])]

theorem allMembersIn_iff (good : Text → Prop) (nodes : List Node) :
    AllMembersIn good nodes ↔ ∀ node ∈ nodes, MembersIn good node := by
  induction nodes with
  | nil => simp [AllMembersIn]
  | cons node later ih => simp [AllMembersIn, ih]

mutual

theorem membersIn_of_forall {good : Text → Prop} (all : ∀ text, good text) :
    ∀ node : Node, MembersIn good node
  | node@{ children, .. } => by
    rw [MembersIn]
    split
    · intro _
      exact allMembersIn_of_forall all children
    · intro _
      exact all _

theorem allMembersIn_of_forall {good : Text → Prop} (all : ∀ text, good text) :
    ∀ nodes : List Node, AllMembersIn good nodes
  | [] => trivial
  | node :: later => ⟨membersIn_of_forall all node, allMembersIn_of_forall all later⟩

end

def ItemIn (good : Text → Prop) (node : Node) : Prop :=
  node.kind = .typeDefinition →
    if node.isPlain then Text.GroupIn good (node.header.getD [])
    else if node.oneLine = some true then ∀ part ∈ node.inlineMembers.getD [], good part
    else node.isStructured → AllMembersIn good node.children

theorem itemIn_of_forall {good : Text → Prop} (all : ∀ text, good text) (node : Node) :
    node.ItemIn good := by
  intro _
  split
  · intro _ _ _ _ _ _
    exact all _
  split
  · intro part _
    exact all part
  · intro _
    exact allMembersIn_of_forall all node.children

end Node

namespace Item

def In (good : Text → Prop) : Item → Prop
  | member text _ => good text
  | group node => node.isStructured → Node.AllMembersIn good node.children
  | remark _ | plain _ => True

theorem exists_of_mem_ofSegments {item : Item} {comment : Option Text} {texts : List Text}
    (there : item ∈ ofSegments comment texts) :
    ∃ text ∈ texts, item = .member text comment ∨ item = .member text none := by
  induction texts with
  | nil => cases there
  | cons text later ih =>
    cases later with
    | nil => exact ⟨text, List.mem_cons_self, .inl (List.mem_singleton.mp there)⟩
    | cons next later =>
      rcases List.mem_cons.mp there with rfl | there
      · exact ⟨text, List.mem_cons_self, .inr rfl⟩
      · obtain ⟨other, inside, same⟩ := ih there
        exact ⟨other, List.mem_cons_of_mem text inside, same⟩

theorem ofChild_in {M : Type} [Monoid M] {tally : Tally M} {good : Text → Prop}
    (cuttable : tally.Cuttable good) (node : Node) (sound : node.MembersIn good) :
    ∀ item ∈ ofChild node, item.In good := by
  intro item member
  unfold ofChild at member
  split at member
  · rename_i spans
    rw [List.mem_singleton.mp member]
    exact (Node.membersIn_of_spansLines good node spans).mp sound
  · rename_i single
    split at member
    · rename_i isField
      have content : good node.content :=
        (Node.membersIn_of_single good node (by simpa using single)).mp sound isField
      split at member
      · rw [List.mem_singleton.mp member]
        exact content
      · have parts := cuttable.member node.content content
        obtain ⟨text, inside, rfl | rfl⟩ := exists_of_mem_ofSegments member
        · exact parts text inside
        · exact parts text inside
    · split at member
      · rw [List.mem_singleton.mp member]
        trivial
      · rw [List.mem_singleton.mp member]
        trivial

end Item

/-! ## Laying out -/

namespace Layout

def definitionFront (node : Node) : Text :=
  if node.header.getD [] = [] then assignment node
  else assignment node ++ ' ' :: node.header.getD []

def definitionBody (options : Options) (node : Node) : Except Fault (List Piece) :=
  if node.oneLine = some true then
    layBody options (node.level + 1) ((node.inlineMembers.getD []).map (Item.member · none))
  else if node.isStructured then
    layBody options (node.level + 1) (node.children.flatMap Item.ofChild)
  else pure (keptLines node (node.level + 1))

/-- A definition with a group is laid out as its front, its body and its closing line. -/
theorem layGroupDefinition_eq (options : Options) (node : Node) :
    layGroupDefinition options node = do
      let body ← definitionBody options node
      return .line node.level (remarked (opener (definitionFront node)) node.openingComment) ::
        body ++ [.line node.level (remarked (closer node.trailer false) node.closingComment),
          .gap] := by
  unfold layGroupDefinition definitionBody definitionFront
  rcases given : node.header with _ | (_ | ⟨c, rest⟩) <;>
    by_cases oneLine : node.oneLine = some true <;>
    by_cases structured : node.isStructured = true <;> simp [oneLine, structured]

theorem layNodes_append {options : Options} {front back : List Node} {pieces : List Piece}
    (laid : layNodes options (front ++ back) = .ok pieces) :
    ∃ upper lower, layNodes options front = .ok upper ∧ layNodes options back = .ok lower ∧
      pieces = upper ++ lower := by
  induction front generalizing pieces with
  | nil => exact ⟨[], pieces, rfl, laid, rfl⟩
  | cons node later ih =>
    simp only [List.cons_append, layNodes, bind_eq_ok] at laid
    obtain ⟨first, here, rest, there, done⟩ := laid
    cases done
    obtain ⟨upper, lower, laidUpper, laidLower, rfl⟩ := ih there
    refine ⟨first ++ upper, lower, ?_, laidLower, (List.append_assoc ..).symm⟩
    simp only [layNodes, bind_eq_ok]
    exact ⟨first, here, upper, laidUpper, rfl⟩

end Layout

namespace Tally

variable {M : Type} [Monoid M] {tally : Tally M} {good : Text → Prop}

def items (tally : Tally M) (all : List Item) : M := tally.texts (all.map Item.written)

@[simp]
theorem items_nil : tally.items [] = 1 := rfl

@[simp]
theorem items_cons (first : Item) (later : List Item) :
    tally.items (first :: later) = tally.text first.written * tally.items later := by
  simp [items]

@[simp]
theorem items_append (front back : List Item) :
    tally.items (front ++ back) = tally.items front * tally.items back := by
  simp [items]

theorem items_members (parts : List Text) :
    tally.items (parts.map (Item.member · none)) = tally.texts parts := by
  induction parts with
  | nil => rfl
  | cons part later ih => simp [Item.written, ih]

theorem items_ofSegments (comment : Option Text) (segments : List Text) (some : segments ≠ []) :
    tally.items (Item.ofSegments comment segments) =
      tally.texts segments * tally.remark comment := by
  induction segments with
  | nil => exact absurd rfl some
  | cons segment later ih =>
    cases later with
    | nil => simp [Item.ofSegments, Item.written, remark]
    | cons second more => simp [Item.ofSegments, Item.written, ih, mul_assoc]

theorem items_ofChild (cuttable : tally.Cuttable good) (node : Node)
    (sound : node.MembersIn good) : tally.items (Item.ofChild node) = tally.text node.written := by
  unfold Item.ofChild
  split
  · rename_i spans
    simp [Item.written, node.written_of_spansLines spans]
  · rename_i single
    have single' : node.spansLines = false := by simpa using single
    split
    · rename_i isField
      have content := (Node.membersIn_of_single good node single').mp sound isField
      have kept := cuttable.members_kept node.content content
      rw [node.written_of_isField isField single', text_append, ← remark]
      split
      · rename_i empty
        simp [Item.written, remark]
      · rename_i segments
        rw [items_ofSegments _ _ (by simpa using segments), kept]
    · rename_i noField
      rw [node.written_of_not_isField (by simpa using noField)]
      split <;> simp [Item.written]

theorem items_flatMap_ofChild (cuttable : tally.Cuttable good) (nodes : List Node)
    (sound : Node.AllMembersIn good nodes) :
    tally.items (nodes.flatMap Item.ofChild) = tally.text (Node.writtenAll nodes) := by
  induction nodes with
  | nil => rfl
  | cons node later ih =>
    rw [Node.allMembersIn_iff] at sound
    have here := items_ofChild cuttable node (sound node (List.mem_cons_self ..))
    have rest := ih ((Node.allMembersIn_iff good later).mpr fun other member =>
      sound other (List.mem_cons_of_mem node member))
    simp [here, rest]

variable (tally) in
theorem pieces_layItems (lay : Bool → Item → Except Fault (List Piece))
    (kept : ∀ comma item ps, item.In good → lay comma item = .ok ps →
      tally.pieces ps = tally.text item.written)
    (all : List Item) (sound : ∀ item ∈ all, item.In good) (ps : List Piece)
    (laid : Layout.layItems lay all = .ok ps) : tally.pieces ps = tally.items all := by
  induction all generalizing ps with
  | nil =>
    cases laid
    rfl
  | cons item later ih =>
    simp only [Layout.layItems, bind_eq_ok] at laid
    obtain ⟨first, here, rest, there, done⟩ := laid
    cases done
    rw [pieces_append, items_cons, kept _ _ _ (sound item (List.mem_cons_self ..)) here,
      ih (fun other member => sound other (List.mem_cons_of_mem item member)) rest there]

theorem text_inlineGroup? (cuttable : tally.Cuttable good) (front t : Text)
    (group : Layout.InlineGroup) (sound : Text.GroupIn good t)
    (found : Layout.inlineGroup? front t = some group) :
    tally.text group.header * tally.of '{' * tally.texts group.members * tally.of '}' *
        tally.text group.trailer = tally.text front * tally.text t ∧
      ∀ part ∈ group.members, good part := by
  obtain ⟨before, inside, after, rfl, opens, closes, header, members, trailer⟩ :=
    Layout.inlineGroup?_eq_some front t group found
  have content := sound before inside after rfl opens closes
  constructor
  · rw [header, members, trailer, cuttable.members_kept inside content]
    simp [mul_assoc]
  · rw [members]
    exact cuttable.member inside content

section

variable {options : Options} {room : Nat} {level : Int} {comma : Bool} {ps : List Piece}

theorem pieces_layItem_member {t : Text} {comment : Option Text} (cuttable : tally.Cuttable good)
    (kept : ∀ comma item ps, item.In good →
      Layout.layItem options room (level + 1) comma item = .ok ps →
      tally.pieces ps = tally.text item.written) (sound : good t)
    (laid : Layout.layItem options (room + 1) level comma (.member t comment) = .ok ps) :
    tally.pieces ps = tally.text (Item.member t comment).written := by
  simp only [Layout.layItem] at laid
  split at laid
  · cases laid
    simp [Item.written, Piece.written, remark]
  · rename_i group expands
    rw [bind_eq_ok] at laid
    obtain ⟨body, inner, done⟩ := laid
    cases done
    obtain ⟨parts, members⟩ := text_inlineGroup? cuttable [] t group (cuttable.inside t sound)
      (Layout.inlineGroup?_of_groupToExpand? expands)
    have within := pieces_layItems tally _ kept _ (by
      intro item member
      obtain ⟨part, inMembers, rfl⟩ := List.mem_map.mp member
      exact members part inMembers) body inner
    rw [items_members] at within
    simp only [List.cons_append, pieces_cons, pieces_append, Piece.written, text_opener,
      within, text_remarked, text_closer, pieces_nil, mul_one, Item.written, text_append, remark]
    rw [← one_mul (tally.text t), ← text_nil tally, ← parts]
    simp only [mul_assoc]

theorem pieces_layItem_group {node : Node} (cuttable : tally.Cuttable good)
    (kept : ∀ comma item ps, item.In good →
      Layout.layItem options room (level + 1) comma item = .ok ps →
      tally.pieces ps = tally.text item.written)
    (sound : node.isStructured = true → Node.AllMembersIn good node.children)
    (laid : Layout.layItem options (room + 1) level comma (.group node) = .ok ps) :
    tally.pieces ps = tally.text (Item.group node).written := by
  simp only [Layout.layItem] at laid
  obtain ⟨body, within, rfl⟩ : ∃ body, tally.pieces body = tally.text node.body ∧
      ps = .line level (Layout.remarked (Layout.opener (node.header.getD []))
          node.openingComment) :: body ++
        [.line level (Layout.remarked (Layout.closer node.trailer comma) node.closingComment)] := by
    split at laid
    · rename_i structured
      rw [bind_eq_ok] at laid
      obtain ⟨body, inner, done⟩ := laid
      cases done
      refine ⟨body, ?_, rfl⟩
      rw [pieces_layItems tally _ kept _ ?_ body inner,
        items_flatMap_ofChild cuttable _ (sound structured), Node.body, if_pos structured]
      intro item member
      obtain ⟨child, inChildren, member⟩ := List.mem_flatMap.mp member
      exact Item.ofChild_in cuttable child
        ((Node.allMembersIn_iff good _).mp (sound structured) child inChildren) item member
    · rename_i unstructured
      cases laid
      refine ⟨_, ?_, rfl⟩
      rw [pieces_keptLines, Node.body, if_neg unstructured]
  simp only [List.cons_append, pieces_cons, pieces_append, Piece.written, text_remarked,
    text_opener, within, text_closer, pieces_nil, mul_one, Item.written, text_framed]
  simp only [mul_assoc]

end

theorem pieces_layItem (cuttable : tally.Cuttable good) (options : Options) (room : Nat) :
    ∀ (level : Int) (comma : Bool) (item : Item) (ps : List Piece), item.In good →
      Layout.layItem options room level comma item = .ok ps →
      tally.pieces ps = tally.text item.written := by
  induction room with
  | zero =>
    intro level comma item ps sound laid
    cases item with
    | member t comment => simp [Layout.layItem] at laid
    | group node => simp [Layout.layItem] at laid
    | remark node =>
      cases laid
      simp [Item.written]
    | plain t =>
      cases laid
      simp [Item.written, Piece.written]
  | succ room ih =>
    intro level comma item ps sound laid
    cases item with
    | remark node =>
      cases laid
      simp [Item.written]
    | plain t =>
      cases laid
      simp [Item.written, Piece.written]
    | member t comment => exact pieces_layItem_member cuttable (ih (level + 1)) sound laid
    | group node => exact pieces_layItem_group cuttable (ih (level + 1)) sound laid

theorem pieces_layBody (cuttable : tally.Cuttable good) (options : Options) (level : Int)
    (all : List Item) (sound : ∀ item ∈ all, item.In good) (ps : List Piece)
    (laid : Layout.layBody options level all = .ok ps) : tally.pieces ps = tally.items all :=
  pieces_layItems tally _ (pieces_layItem cuttable options _ level) all sound ps laid

theorem pieces_layPlainDefinition (cuttable : tally.Cuttable good) (options : Options)
    (node : Node) (sound : Text.GroupIn good (node.header.getD [])) (ps : List Piece)
    (laid : Layout.layPlainDefinition options node = .ok ps) :
    tally.pieces ps = tally.text node.name * tally.text "::=".toList *
      tally.text (node.header.getD []) * tally.remark node.openingComment := by
  have assignment : tally.text (Layout.assignment node) =
      tally.text node.name * tally.text "::=".toList := by
    simp [Layout.assignment]
  simp only [Layout.layPlainDefinition] at laid
  split at laid
  · cases laid
    simp [Piece.written, assignment]
  · rename_i group expands
    rw [bind_eq_ok] at laid
    obtain ⟨body, inner, done⟩ := laid
    cases done
    have found : Layout.inlineGroup? (Layout.assignment node) (node.header.getD []) = some group := by
      split at expands
      · exact expands
      · cases expands
    obtain ⟨parts, members⟩ := text_inlineGroup? cuttable _ _ group sound found
    have within := pieces_layBody cuttable options _ _ (by
      intro item member
      obtain ⟨part, inMembers, rfl⟩ := List.mem_map.mp member
      exact members part inMembers) body inner
    rw [items_members] at within
    rw [← assignment, ← parts]
    simp only [List.cons_append, pieces_cons, pieces_append, Piece.written, text_opener, within,
      text_remarked, text_closer, text_nil, pieces_nil, mul_one, mul_assoc]

theorem pieces_layGroupDefinition (cuttable : tally.Cuttable good) (options : Options)
    (node : Node)
    (sound : if node.oneLine = some true then ∀ part ∈ node.inlineMembers.getD [], good part
      else node.isStructured → Node.AllMembersIn good node.children) (ps : List Piece)
    (laid : Layout.layGroupDefinition options node = .ok ps) :
    tally.pieces ps = tally.text node.name * tally.text "::=".toList *
      tally.text (if node.oneLine = some true then
        node.framed (node.inlineMembers.getD []).flatten else node.framed node.body) := by
  rw [Layout.layGroupDefinition_eq, bind_eq_ok] at laid
  obtain ⟨body, inner, done⟩ := laid
  cases done
  have within : tally.pieces body = tally.text (if node.oneLine = some true then
      (node.inlineMembers.getD []).flatten else node.body) := by
    unfold Layout.definitionBody at inner
    split at inner
    · rename_i oneLine
      rw [if_pos oneLine] at sound
      rw [pieces_layBody cuttable options _ _ ?_ body inner, items_members, if_pos oneLine]
      · rfl
      · intro item member
        obtain ⟨part, inMembers, rfl⟩ := List.mem_map.mp member
        exact sound part inMembers
    · rename_i several
      rw [if_neg several] at sound
      split at inner
      · rename_i structured
        rw [pieces_layBody cuttable options _ _ ?_ body inner,
          items_flatMap_ofChild cuttable _ (sound structured), if_neg several, Node.body,
          if_pos structured]
        intro item member
        obtain ⟨child, inChildren, member⟩ := List.mem_flatMap.mp member
        exact Item.ofChild_in cuttable child
          ((Node.allMembersIn_iff good _).mp (sound structured) child inChildren) item member
      · rename_i unstructured
        cases inner
        rw [pieces_keptLines, if_neg several, Node.body, if_neg unstructured]
  have front : tally.text (Layout.definitionFront node) =
      tally.text node.name * tally.text "::=".toList * tally.text (node.header.getD []) := by
    unfold Layout.definitionFront
    split
    · rename_i empty
      simp [Layout.assignment, empty]
    · simp [Layout.assignment, mul_assoc]
  simp only [List.cons_append, pieces_cons, pieces_append, Piece.written, text_opener, front,
    within, text_remarked, text_closer, text_nil, pieces_nil, mul_one]
  split <;> simp only [text_framed, mul_assoc]

theorem pieces_layNode (cuttable : tally.Cuttable good) (options : Options) (node : Node)
    (sound : node.ItemIn good) (ps : List Piece) (laid : Layout.layNode options node = .ok ps) :
    tally.pieces ps = tally.text node.writtenItem := by
  unfold Layout.layNode at laid
  split at laid
  · rename_i kind
    cases laid
    simp only [pieces_cons, Piece.written, Node.writtenItem, kind]
    split <;> simp [Piece.written]
  · rename_i kind
    cases laid
    simp only [pieces_cons, Piece.written, Node.writtenItem, kind]
    split <;> simp [Piece.written]
  · rename_i kind
    cases laid
    simp [Piece.written, Node.writtenItem, kind]
  · rename_i kind
    cases laid
    simp [Node.writtenItem, kind]
  · rename_i kind
    have sound := sound kind
    rw [Node.writtenItem, if_pos kind, text_append, text_append]
    by_cases plain : node.isPlain = true
    · rw [if_pos plain] at sound ⊢
      rw [Node.isPlain] at plain
      rw [if_pos plain] at laid
      rw [pieces_layPlainDefinition cuttable options node sound ps laid, text_append, remark]
      simp only [mul_assoc]
    · rw [if_neg plain] at sound ⊢
      rw [Node.isPlain] at plain
      rw [if_neg plain] at laid
      exact pieces_layGroupDefinition cuttable options node sound ps laid
  · rename_i noModule noBegin noEnd noComment noDefinition
    cases laid
    rw [Node.writtenItem, if_neg noDefinition]
    split
    · rename_i empty
      simp [Piece.written, empty]
    · simp [Piece.written]

/-- The layout of a tree has the tally of what is written of its nodes. -/
theorem text_toText (cuttable : tally.Cuttable good) (options : Options) (root : Node)
    (sound : ∀ node ∈ root.children, node.ItemIn good) (result : Text)
    (laid : root.toText options = .ok result) :
    tally.text result = tally.texts (root.children.map Node.writtenItem) := by
  have nodewise : ∀ (nodes : List Node) (ps : List Piece), (∀ node ∈ nodes, node.ItemIn good) →
      Layout.layNodes options nodes = .ok ps →
      tally.pieces ps = tally.texts (nodes.map Node.writtenItem) := by
    intro nodes
    induction nodes with
    | nil =>
      intro ps _ laid
      cases laid
      rfl
    | cons node later ih =>
      intro ps sound laid
      simp only [Layout.layNodes, bind_eq_ok] at laid
      obtain ⟨first, here, rest, there, done⟩ := laid
      cases done
      rw [pieces_append, List.map_cons, texts_cons,
        pieces_layNode cuttable options node (sound node (List.mem_cons_self ..)) first here,
        ih rest (fun other member => sound other (List.mem_cons_of_mem node member)) there]
  simp only [Node.toText, bind_eq_ok] at laid
  obtain ⟨ps, laidNodes, done⟩ := laid
  cases done
  rw [text_assemble, nodewise root.children ps sound laidNodes]

end Tally

end AsnLayout
