import AsnLayout.Proofs.BlankLines
import AsnLayout.Proofs.SteadyRows

/-!
# Layouts that are indented already

A tree of definitions whose groups are all structured is laid out so that each line stands as deep as
the braces before it tell: re-indenting the layout changes nothing.
-/

set_option autoImplicit false

namespace AsnLayout

/-! ## Texts of words -/

namespace Text

variable {t : Text}

/-- Whether a word is made of letters and digits and has no structural meaning. -/
def isPlainWord (w : Text) : Bool := isAtom w && w ≠ ellipsis

def isGroupWord (w : Text) : Bool := GroupKind.structured.any fun kind => w = kind.keyword.toList

def isPhrase (t : Text) : Bool := (t.splitOn ' ').all isPlainWord

/-- Whether a text is words with single spaces between them, the last of which heads a structured
group. -/
def isGroupHeader (t : Text) : Bool :=
  (t.splitOn ' ').dropLast.all isPlainWord && (t.splitOn ' ').getLast?.any isGroupWord

theorem exists_atoms {ws : List Text} (all : ws.all isPlainWord = true) :
    ∃ atoms, ws = wordsOf atoms := by
  induction ws with
  | nil => exact ⟨[], rfl⟩
  | cons w later ih =>
    rw [List.all_cons, Bool.and_eq_true] at all
    obtain ⟨atoms, rfl⟩ := ih all.2
    have word := all.1
    rw [isPlainWord, Bool.and_eq_true] at word
    exact ⟨⟨w, word.1⟩ :: atoms, rfl⟩

theorem unwords_splitOn (t : Text) : unwords (t.splitOn ' ') = t := List.intercalate_splitOn ' '

theorem exists_atoms_of_isPhrase (phrase : isPhrase t = true) :
    ∃ first more, t = unwords (wordsOf (first :: more)) := by
  obtain ⟨atoms, cut⟩ := exists_atoms phrase
  cases atoms with
  | nil => exact absurd cut (List.splitOn_ne_nil ' ' t)
  | cons first more => exact ⟨first, more, by rw [← cut, unwords_splitOn]⟩

theorem exists_groupWord {w : Text} (keyword : isGroupWord w = true) :
    ∃ word : GroupWord, w = word.text := by
  obtain ⟨kind, isStructured, same⟩ := List.any_eq_true.mp keyword
  obtain rfl := of_decide_eq_true same
  have all : ∀ kind ∈ GroupKind.structured, kind.isStructured = true := by decide
  exact ⟨⟨kind, all kind isStructured⟩, rfl⟩

theorem exists_of_isGroupHeader (header : isGroupHeader t = true) :
    ∃ front word, t = unwords (wordsOf front ++ [GroupWord.text word]) := by
  rw [isGroupHeader, Bool.and_eq_true, Option.any_eq_true] at header
  obtain ⟨before, last, isLast, keyword⟩ := header
  obtain ⟨front, early⟩ := exists_atoms before
  obtain ⟨word, rfl⟩ := exists_groupWord keyword
  refine ⟨front, word, ?_⟩
  rw [← early, List.dropLast_append_getLast? _ isLast, unwords_splitOn]

end Text

/-! ## Outlined trees -/

namespace Node

def isTidyRemark (node : Node) : Bool :=
  node.kind = .comment && !node.blockLine && Text.isTidyNote node.content

/-- Whether the group of a node takes several lines, one for each member, with nothing but words and
comments around it. -/
def hasTidyGroup (node : Node) : Bool :=
  node.oneLine = some false && node.isStructured &&
    (node.trailer = [] || Text.isPhrase node.trailer) &&
    node.openingComment.all Text.isTidyNote && node.closingComment.all Text.isTidyNote

/-- Whether a node in a structured group is a comment line, a member that is words, or a structured
group of such nodes, with room for members inside of each other. -/
def isOutlined : Nat → Node → Bool
  | 0, node => node.isTidyRemark
  | room + 1, node => node.isTidyRemark || (node.isField &&
      if node.oneLine = some false then
        node.hasTidyGroup && Text.isGroupHeader (node.header.getD []) &&
          node.children.all (isOutlined room)
      else Text.isPhrase node.content && node.openingComment.all Text.isTidyNote)

def isOutlinedDefinition (room : Nat) (node : Node) : Bool :=
  node.kind = .typeDefinition && node.level = 0 && Text.isPlainWord node.name &&
    node.hasTidyGroup && node.header.any Text.isGroupWord &&
    node.children.all (isOutlined room)

end Node

/-! ## Items -/

section Layouts

variable {options : Options} {width : Nat}

/-- An item is laid out on pieces that are kept at any depth. -/
def Item.Steady (options : Options) (width room : Nat) (item : Item) : Prop :=
  ∀ (depth : Nat) (comma : Bool), ∃ pieces,
    Layout.layItem options room depth comma item = .ok pieces ∧
      Piece.Steady width depth pieces depth

theorem steady_layItems {room : Nat} {items : List Item}
    (all : ∀ item ∈ items, item.Steady options width room) (depth : Nat) :
    ∃ pieces, Layout.layItems (Layout.layItem options room depth) items = .ok pieces ∧
      Piece.Steady width depth pieces depth := by
  induction items with
  | nil => exact ⟨[], rfl, Piece.steady_nil width depth⟩
  | cons item later ih =>
    obtain ⟨isHere, isThere⟩ := List.forall_mem_cons.mp all
    obtain ⟨early, laidHere, steadyHere⟩ := isHere depth (later.any Item.isMember)
    obtain ⟨late, laidThere, steadyThere⟩ := ih isThere
    refine ⟨early ++ late, ?_, steadyHere.append steadyThere⟩
    rw [Layout.layItems, laidHere, laidThere]
    rfl

theorem closer_eq (back : List Atom) (comma : Bool) :
    Layout.closer (unwords (wordsOf back)) comma = memberText (['}'] :: wordsOf back) (!comma) := by
  have line := closer_trailer back (!comma)
  rwa [Bool.not_not] at line

namespace Node

variable {node : Node} {room : Nat}

/-- The pieces between the lines that open and close a structured group are one level deeper. -/
theorem steady_around (tidy : node.hasTidyGroup = true) (opening : Text) (depth : Nat)
    {body : List Piece}
    (opens : ∀ comment : Option Text, comment.all Text.isTidyNote = true →
      Piece.Steady width depth [.line depth (Layout.remarked opening comment)] (depth + 1))
    (inside : Piece.Steady width (depth + 1) body (depth + 1)) (comma : Bool) :
    Piece.Steady width depth (.line depth (Layout.remarked opening node.openingComment) :: body ++
      [.line depth (Layout.remarked (Layout.closer node.trailer comma) node.closingComment)])
      depth := by
  simp only [hasTidyGroup, Bool.and_eq_true, Bool.or_eq_true, decide_eq_true_eq] at tidy
  obtain ⟨⟨⟨-, behind⟩, opening'⟩, closing⟩ := tidy
  obtain ⟨back, trailer⟩ : ∃ back, node.trailer = unwords (wordsOf back) := by
    rcases behind with none | phrase
    · exact ⟨[], none⟩
    · obtain ⟨first, more, whole⟩ := Text.exists_atoms_of_isPhrase phrase
      exact ⟨first :: more, whole⟩
  rw [trailer, closer_eq]
  exact ((opens _ opening').append inside).append
    (Piece.steady_closing (areWords_wordsOf back) closing (!comma))

theorem steady_member {text : Text} {comment : Option Text} (phrase : Text.isPhrase text = true)
    (tidy : comment.all Text.isTidyNote = true) :
    (Item.member text comment).Steady options width (room + 1) := by
  intro depth comma
  obtain ⟨first, more, rfl⟩ := Text.exists_atoms_of_isPhrase phrase
  have words := areWords_wordsOf (first :: more)
  obtain ⟨noOpener, -⟩ := words.no_braces true
  have unquoted := words.not_mem true (c := '"') (by decide) (by decide) (by decide)
  simp only [memberText, if_true, List.append_nil] at noOpener unquoted
  have single : Layout.groupToExpand? options depth (unwords (wordsOf (first :: more)))
      (Layout.remarked (Layout.withComma (unwords (wordsOf (first :: more))) comma) comment) =
        none := by
    rw [Layout.groupToExpand?, Layout.inlineGroup?, Text.findExposed?_of_not_mem unquoted noOpener]
  have line : Layout.withComma (unwords (wordsOf (first :: more))) comma =
      memberText (wordsOf (first :: more)) (!comma) := by
    cases comma <;> simp [Layout.withComma, memberText]
  refine ⟨_, by rw [Layout.layItem, single]; rfl, ?_⟩
  rw [line]
  exact Piece.steady_words words (List.cons_ne_nil _ _) tidy (!comma)

theorem members_of_isPhrase {t : Text} (phrase : Text.isPhrase t = true) : Text.members t = [t] := by
  obtain ⟨first, more, rfl⟩ := Text.exists_atoms_of_isPhrase phrase
  have cut : Text.lexemes (unwords (wordsOf (first :: more))) =
      Member.list [.plain first more] := by
    rw [lexemes_unwords (isToken_wordsOf _), Member.list, Member.tokensAll_eq]
    exact (commaSeparated_single _).symm
  obtain ⟨parts, found, each⟩ := members_list [.plain first more] cut
  obtain ⟨part, none, here, there, rfl⟩ := List.forall₂_cons_right_iff.mp each
  cases List.forall₂_nil_right_iff.mp there
  have tokenized := Text.Tokenized.of_eq here (Member.isToken _)
  have form := tokenized.memberForm_words (all_isWordChar_wordsOf (first :: more)) here
  rw [found, List.map_singleton, form]

theorem steady_remark (remark : node.isTidyRemark = true) :
    ∀ item ∈ Item.ofChild node, item.Steady options width room := by
  simp only [isTidyRemark, Bool.and_eq_true, decide_eq_true_eq, Bool.not_eq_true'] at remark
  obtain ⟨⟨kind, whole⟩, tidy⟩ := remark
  have items : Item.ofChild node = [.remark node] := by
    simp [Item.ofChild, spansLines, isField, kind]
  rw [items]
  refine List.forall_mem_singleton.mpr fun depth comma => ⟨[.line depth node.content], ?_, ?_⟩
  · cases room <;> simp [Layout.layItem, Layout.commentPiece, whole]
  · exact Piece.steady_note tidy

theorem steady_ofChildren (all : ∀ child ∈ node.children, ∀ item ∈ Item.ofChild child,
      item.Steady options width room) (depth : Nat) :
    ∃ pieces, Layout.layItems (Layout.layItem options room depth)
        (node.children.flatMap Item.ofChild) = .ok pieces ∧
      Piece.Steady width depth pieces depth := by
  refine steady_layItems (fun item member => ?_) depth
  obtain ⟨child, isChild, isItem⟩ := List.mem_flatMap.mp member
  exact all child isChild item isItem

/-- Every outlined node is one item, which is kept where it is laid out. -/
theorem steady_ofChild (room : Nat) : ∀ node : Node, node.isOutlined room = true →
    ∀ item ∈ Item.ofChild node, item.Steady options width room := by
  induction room with
  | zero => exact fun node outlined => steady_remark outlined
  | succ room ih =>
    intro node outlined
    rw [isOutlined, Bool.or_eq_true, Bool.and_eq_true] at outlined
    rcases outlined with remark | ⟨isField, outlined⟩
    · exact steady_remark remark
    split at outlined
    · rename_i spans
      simp only [Bool.and_eq_true] at outlined
      obtain ⟨⟨tidy, header⟩, inside⟩ := outlined
      have items : Item.ofChild node = [.group node] := by
        simp [Item.ofChild, spansLines, isField, spans]
      have structured : node.isStructured = true := by
        simp only [hasTidyGroup, Bool.and_eq_true] at tidy
        exact tidy.1.1.1.2
      obtain ⟨front, word, header⟩ := Text.exists_of_isGroupHeader header
      rw [items]
      refine List.forall_mem_singleton.mpr fun depth comma => ?_
      obtain ⟨body, laid, steady⟩ := steady_ofChildren
        (fun child isChild => ih child (List.all_eq_true.mp inside child isChild)) (depth + 1)
      refine ⟨_, ?_, steady_around tidy (unwords (wordsOf front ++ [word.text, ['{']])) depth
        (fun comment tidy => ?_) steady comma⟩
      · rw [Layout.layItem, header, opener_header]
        push_cast at laid
        simp only [structured, if_true, laid]
        rfl
      · have opening := @Piece.steady_opening width depth _ _ (areWords_header front word) (by simp)
          tidy
        rwa [List.append_assoc] at opening
    · rename_i single
      rw [Bool.and_eq_true] at outlined
      obtain ⟨phrase, tidy⟩ := outlined
      have items : Item.ofChild node = [.member node.content node.openingComment] := by
        simp [Item.ofChild, spansLines, single, isField, members_of_isPhrase phrase,
          Item.ofSegments]
      rw [items]
      exact List.forall_mem_singleton.mpr (steady_member phrase tidy)

/-- An outlined definition is kept where no group is open, and a gap stands behind it. -/
theorem steady_layNode (width : Nat)
    (outlined : node.isOutlinedDefinition options.maxDepth.toNat = true) :
    ∃ pieces, Layout.layNode options node = .ok (pieces ++ [.gap]) ∧
      Piece.Steady width 0 (pieces ++ [.gap]) 0 := by
  simp only [isOutlinedDefinition, Bool.and_eq_true, decide_eq_true_eq, Option.any_eq_true]
    at outlined
  obtain ⟨⟨⟨⟨⟨kind, level⟩, name⟩, tidy⟩, given, header, keyword⟩, inside⟩ := outlined
  have group := tidy
  simp only [hasTidyGroup, Bool.and_eq_true, decide_eq_true_eq] at group
  obtain ⟨⟨⟨⟨several, structured⟩, -⟩, -⟩, -⟩ := group
  obtain ⟨word, rfl⟩ := Text.exists_groupWord keyword
  rw [Text.isPlainWord, Bool.and_eq_true, decide_eq_true_eq] at name
  obtain ⟨definition, isName, isWord⟩ : ∃ definition : Definition,
      node.name = definition.name.text ∧ word = definition.word :=
    ⟨⟨⟨node.name, name.1⟩, name.2, word, []⟩, rfl, rfl⟩
  subst isWord
  obtain ⟨body, laid, steady⟩ : ∃ body, Layout.layItems
      (Layout.layItem options options.maxDepth.toNat 1) (node.children.flatMap Item.ofChild) =
        .ok body ∧ Piece.Steady width 1 body 1 :=
    steady_ofChildren (fun child isChild =>
      steady_ofChild _ child (List.all_eq_true.mp inside child isChild)) 1
  have around := steady_around tidy _ 0
    (fun comment tidy => Piece.steady_definition definition tidy) steady false
  refine ⟨_, ?_, around.append (Piece.steady_gap width 0)⟩
  have front := opener_definitionFront isName header
  have bodyLaid : Layout.definitionBody options node = .ok body := by
    rw [Layout.definitionBody, several, if_neg (by simp), if_pos structured, level]
    exact laid
  rw [Layout.layNode, kind]
  simp only [several, structured, Bool.not_true, Bool.and_false, Bool.false_eq_true, if_false]
  rw [Layout.layGroupDefinition_eq, front, bodyLaid, level]
  simp [bind, Except.bind, pure, Except.pure]

theorem steady_layNodes (width : Nat) {nodes : List Node}
    (outlined : ∀ node ∈ nodes, node.isOutlinedDefinition options.maxDepth.toNat = true) :
    ∃ pieces, Layout.layNodes options nodes = .ok pieces ∧ Piece.Steady width 0 pieces 0 ∧
      (pieces = [] ∨ ∃ ahead, pieces = ahead ++ [.gap]) := by
  induction nodes with
  | nil => exact ⟨[], rfl, Piece.steady_nil width 0, .inl rfl⟩
  | cons node later ih =>
    obtain ⟨isHere, isThere⟩ := List.forall_mem_cons.mp outlined
    obtain ⟨early, laidHere, steadyHere⟩ := steady_layNode width isHere
    obtain ⟨late, laidThere, steadyThere, ends⟩ := ih isThere
    refine ⟨early ++ [.gap] ++ late, ?_, steadyHere.append steadyThere, .inr ?_⟩
    · rw [Layout.layNodes, laidHere, laidThere]
      rfl
    · rcases ends with rfl | ⟨ahead, rfl⟩
      · exact ⟨early, by rw [List.append_nil]⟩
      · exact ⟨early ++ [.gap] ++ ahead, by simp⟩

end Node

/-! ## Texts -/

theorem Piece.lines_assemble_concat_gap {pieces : List Piece} (width : Int)
    (visible : ∀ piece ∈ pieces ++ [.gap], piece.Visible false) :
    assemble width (pieces ++ [.gap]) = [] ∨
      Text.lines (assemble width (pieces ++ [.gap])) = rows width none (pieces ++ [.gap]) := by
  rcases rows_concat_gap width none pieces with ⟨none, -⟩ | ⟨others, found⟩
  · left
    rw [assemble, none]
    rfl
  · right
    have spaced := (spaced_rows width visible none).1
    rw [lines_assemble_of_visible visible, page_eq width visible, found,
      List.rdropWhile_concat_pos _ _ _ (by decide)]
    congr 1
    -- A blank row stands behind the others, so their last one is not blank.
    rw [List.rdropWhile_eq_self_iff]
    intro filled blank
    rw [found, Text.Spaced, List.isChain_append] at spaced
    rcases spaced.2.2 _ (List.getLast?_eq_some_getLast filled) [] rfl with seen | seen
    · rw [blank] at seen
      cases seen
    · cases seen

end Layouts

/-- A tree of structured definitions is laid out, and re-indenting its layout changes nothing. -/
theorem realign_toText {root : Node} {options : Options} (wide : 1 ≤ options.indentWidth)
    (outlined : ∀ node ∈ root.children,
      node.isOutlinedDefinition options.maxDepth.toNat = true) :
    ∃ out, root.toText options = .ok out ∧ out.realign options.indentWidth = out := by
  obtain ⟨width, isWidth⟩ := Int.eq_ofNat_of_zero_le (show 0 ≤ options.indentWidth by omega)
  obtain ⟨pieces, laid, steady, ends⟩ := Node.steady_layNodes width outlined
  refine ⟨Piece.assemble width pieces, ?_, ?_⟩
  · rw [Node.toText, laid, isWidth]
    rfl
  have same : (max 1 (width : Int)).toNat = width := by omega
  rw [isWidth, Text.realign, same]
  have kept : Piece.assemble width pieces = [] ∨
      Text.lines (Piece.assemble width pieces) = Piece.rows width none pieces := by
    rcases ends with rfl | ⟨ahead, rfl⟩
    · exact .inl rfl
    · exact Piece.lines_assemble_concat_gap width steady.visible
  rcases kept with empty | whole
  · rw [empty]
    rfl
  · rw [whole, (steady.keeps none).lines_eq, ← whole, Text.ofLines_lines]

/-- A definition with a comment and a group in its group. -/
theorem realign_toText_nested :
    let member : Node := { kind := .field, content := "a INTEGER".toList }
    let remark : Node := { kind := .comment, content := "-- b \x7b".toList }
    let inner : Node :=
      { kind := .field, header := some "c SET".toList, groupKind := some .set, oneLine := some false,
        trailer := "OPTIONAL".toList, children := [remark, member] }
    let definition : Node :=
      { kind := .typeDefinition, name := "A".toList, header := some "SEQUENCE".toList,
        groupKind := some .sequence, oneLine := some false, children := [inner, remark, member] }
    ∃ out, ({ kind := .root, children := [definition] } : Node).toText {} = .ok out ∧
      out.realign 2 = out := by
  intro member remark inner definition
  exact @realign_toText _ {} (by decide)
    (List.forall_mem_singleton.mpr (by decide +kernel))

end AsnLayout
