import AsnLayout.Proofs.QuotedReading

/-!
# Literals in a layout

The rows of a layout are read as what they were laid out from: a row of code with a comment behind
it is cut where the comment starts, so the rows hide what the nodes bear.
-/

set_option autoImplicit false

namespace AsnLayout

/-! ## Rows -/

namespace Quoting

theorem commentIndex?_of_hasSign {q : Quoting} {t : Text} (noSign : q.hasSign t = false) :
    q.commentIndex? t = none := by
  induction t generalizing q with
  | nil => rfl
  | cons c rest ih =>
    rw [hasSign, Bool.or_eq_false_iff] at noSign
    rw [commentIndex?, if_neg, ih noSign.2]
    · rfl
    · intro starts
      simp only [Bool.and_eq_true, decide_eq_true_eq] at starts
      obtain ⟨⟨shown, rfl⟩, second⟩ := starts
      simp [shown, second] at noSign

end Quoting

namespace Text

theorem startsWith_of_hasSign {t : Text} (noSign : Quoting.hasSign {} t = false) {c : Char}
    (sign : c = '-' ∨ c = '*') : startsWith t ['-', c] = false := by
  rw [Bool.eq_false_iff]
  intro starts
  obtain ⟨rest, rfl⟩ := List.isPrefixOf_iff_prefix.mp starts
  rcases sign with rfl | rfl <;> simp [Quoting.hasSign, Quoting.exposes, Quoting.isQuote] at noSign

abbrev Rows : Bool → List Text → Text → Bool → Prop := Series IsRemark IsCode

theorem isCode_of_trim {row code held : Text} (hides : Hides code held) (single : '\n' ∉ row)
    (same : trim row = trim code) : IsCode row held := by
  have trimmed := hides.trim
  have noSign := trimmed.tame.noSign
  refine ⟨?_, single, ?_⟩
  · simp [Reader.isRemark, isLineComment, startsBlock, same, startsWith_of_hasSign noSign]
  · rw [same, codeLine, Quoting.commentIndex?_of_hasSign noSign]
    exact trimmed

theorem isCode_of_remarked {row code held rest : Text} (hides : Hides code held) (some : code ≠ [])
    (single : '\n' ∉ row) (same : trim row = code ++ ' ' :: '-' :: '-' :: rest) :
    IsCode row held := by
  have spaced : Hides (code ++ [' ']) held := hides.append_unmarked (by decide)
  have start : code ++ [' '] <+: trim row := ⟨'-' :: '-' :: rest, by rw [same]; simp⟩
  have noSign : ∀ c : Char, c = '-' ∨ c = '*' → startsWith (trim row) ['-', c] = false := by
    intro c sign
    rw [Bool.eq_false_iff]
    intro starts
    have short : ['-', c].length ≤ (code ++ [' ']).length := by
      have := List.length_pos_iff.mpr some
      simp only [List.length_append, List.length_cons, List.length_nil]
      omega
    have early : startsWith (code ++ [' ']) ['-', c] = true :=
      List.isPrefixOf_iff_prefix.mpr
        (List.prefix_of_prefix_length_le (List.isPrefixOf_iff_prefix.mp starts) start short)
    rw [startsWith_of_hasSign spaced.tame.noSign sign] at early
    cases early
  refine ⟨?_, single, ?_⟩
  · simp [Reader.isRemark, isLineComment, startsBlock, noSign]
  · have cut : (code ++ ' ' :: '-' :: '-' :: rest).take (code.length + 1) = code ++ [' '] := by
      rw [List.take_append]
      simp
    rw [same, codeLine, Quoting.commentIndex?_behind
      (Quoting.commentIndex?_of_hasSign hides.tame.noSign) hides.tame.closed]
    simp only [cut]
    exact spaced.trimEndBy (by decide)

theorem trim_remarked {code : Text} (seen : isBlankText code = false) (rest : Text) :
    trim (code ++ ' ' :: '-' :: '-' :: rest) =
      trimStart code ++ ' ' :: '-' :: '-' :: trimEnd rest := by
  have solid : isBlank '-' = false := by decide
  have some : (code.dropWhile isBlank).isEmpty = false := by
    simpa [isBlankText, List.isEmpty_eq_false_iff, List.dropWhile_eq_nil_iff] using seen
  rw [trim, trimStart, trimStartBy, List.dropWhile_append, some, if_neg (by simp)]
  have ends := trimEnd_append_mark solid (trimStart code ++ [' ', '-']) rest
  simpa [trimStart, trimStartBy] using ends

theorem isRemark_of_remarked {row code rest : Text} (blank : isBlankText code = true)
    (single : '\n' ∉ row) (same : trim row = trim (code ++ ' ' :: '-' :: '-' :: rest)) :
    IsRemark false row false := by
  have trimmed : trim row = '-' :: '-' :: trimEnd rest := by
    have solid : isBlank '-' = false := by decide
    rw [same, trim_append_of_blank blank, trim_space_cons, trim, trimStart_of_not_blank solid]
    exact trimEnd_append_mark solid ['-'] rest
  refine ⟨?_, single, ?_⟩
  · simp [Reader.isRemark, isLineComment, trimmed, startsWith, List.isPrefixOf]
  · simp [LineKind.blockAfter, leavesBlockOpen, startsBlock, trimmed, startsWith, List.isPrefixOf]

/-- A row of code with a comment behind it is read as such, or as the comment if there is no
code. -/
theorem rows_remarked {row code held : Text} {comment : Option Text} (hides : Hides code held)
    (noted : IsNoted comment) (single : '\n' ∉ row)
    (same : trim row = trim (Layout.remarked code comment)) : Rows false [row] held false := by
  cases comment with
  | none => exact .single_code (isCode_of_trim hides single same)
  | some note =>
    obtain ⟨⟨rest, rfl⟩, -⟩ := noted note rfl
    have same : trim row = trim (code ++ ' ' :: '-' :: '-' :: rest) := same
    by_cases blank : isBlankText code = true
    · have none := hides.eq_nil_of_blank blank
      subst none
      exact .single_comment (isRemark_of_remarked blank single same)
    · have seen : isBlankText code = false := by simpa using blank
      rw [trim_remarked seen] at same
      refine .single_code (isCode_of_remarked hides.trimStart ?_ single same)
      intro empty
      rw [trimStart, trimStartBy, List.dropWhile_eq_nil_iff] at empty
      rw [isBlankText, List.all_eq_true] at blank
      exact blank empty

end Text

/-! ## Pieces -/

namespace Piece

def Reads (width : Int) (before : Bool) (pieces : List Piece) (held : Text) (after : Bool) : Prop :=
  Text.Rows before (pieces.map (row width)) held after

variable {width : Int} {before between after : Bool} {front back : List Piece} {held held' : Text}

theorem Reads.append (first : Reads width before front held between)
    (second : Reads width between back held' after) :
    Reads width before (front ++ back) (held ++ held') after := by
  rw [Reads, List.map_append]
  exact Series.append first second

theorem trim_row_line (width level : Int) (text : Text) :
    Text.trim ((line level text).row width) = Text.trim text := by
  refine Text.trim_append_of_blank (List.all_eq_true.mpr ?_) text
  intro c member
  rw [List.eq_of_mem_replicate member]
  decide

theorem newline_not_mem_row_line {text : Text} (single : '\n' ∉ text) (width level : Int) :
    '\n' ∉ (line level text).row width := by
  simp [row, indented, Text.spaces, single]

theorem newline_not_mem_remarked {code : Text} {comment : Option Text}
    (hides : Text.Hides code held) (noted : IsNoted comment) :
    '\n' ∉ Layout.remarked code comment := by
  have single := hides.tame.single
  cases comment with
  | none => exact single
  | some note =>
    obtain ⟨⟨rest, rfl⟩, single'⟩ := noted note rfl
    change '\n' ∉ code ++ ' ' :: '-' :: '-' :: rest
    rw [List.mem_append, List.mem_cons]
    rintro (inCode | space | inNote)
    · exact single inCode
    · cases space
    · exact single' inNote

theorem reads_line {code : Text} {comment : Option Text} (hides : Text.Hides code held)
    (noted : IsNoted comment) (level : Int) :
    Reads width false [line level (Layout.remarked code comment)] held false :=
  Text.rows_remarked hides noted
    (newline_not_mem_row_line (newline_not_mem_remarked hides noted) width level)
    (trim_row_line width level _)

theorem reads_beside {code : Text} {comment : Option Text} (hides : Text.Hides code held)
    (noted : IsNoted comment) (level : Int) :
    Reads width false [line level (beside code comment)] held false := by
  cases comment with
  | none => exact reads_line hides noted level
  | some note =>
    obtain ⟨⟨rest, rfl⟩, single⟩ := noted note rfl
    by_cases empty : code = []
    · subst empty
      have alone : beside [] (some ('-' :: '-' :: rest)) = '-' :: '-' :: rest := rfl
      refine Text.rows_remarked hides noted ?_ ?_
      · rw [alone]
        exact newline_not_mem_row_line single width level
      · rw [alone, trim_row_line]
        exact (Text.trim_space_cons _).symm
    · have same : beside code (some ('-' :: '-' :: rest)) =
          Layout.remarked code (some ('-' :: '-' :: rest)) := by
        simp [beside, Layout.remarked, empty]
      rw [same]
      exact reads_line hides noted level

theorem reads_gap : Reads width false [gap] [] false :=
  Text.rows_remarked .nil isNoted_none List.not_mem_nil rfl

theorem Reads.gap {pieces : List Piece} (reads : Reads width before pieces held false) :
    Reads width before (pieces ++ [.gap]) held false := by
  have whole := reads.append reads_gap
  rwa [List.append_nil] at whole

theorem Reads.around {body : List Piece} {header trailer first second third : Text}
    {comment comment' : Option Text} (reads : Reads width false body second false)
    (opening : Text.Hides header first) (noted : IsNoted comment)
    (closing : Text.Hides trailer third) (noted' : IsNoted comment') (level : Int) (comma : Bool) :
    Reads width false (.line level (Layout.remarked (Layout.opener header) comment) ::
      body ++ [.line level (Layout.remarked (Layout.closer trailer comma) comment')])
      (first ++ second ++ third) false :=
  ((reads_line opening.opener noted level).append reads).append
    (reads_line (closing.closer comma) noted' level)

theorem isRemark_commentPiece {node : Node} (isComment : node.IsComment before after)
    (level : Int) :
    Text.IsRemark before ((Layout.commentPiece node level).row width) after := by
  obtain ⟨-, blockLine, remark, single, behind⟩ := isComment
  unfold Layout.commentPiece
  cases before with
  | true =>
    rw [blockLine, if_pos rfl]
    exact ⟨remark, single, behind⟩
  | false =>
    rw [blockLine, if_neg (by simp)]
    refine ⟨?_, newline_not_mem_row_line single width level, ?_⟩
    · simpa [Reader.isRemark, Text.isLineComment, Text.startsBlock, trim_row_line] using remark
    · simpa [LineKind.blockAfter, Text.leavesBlockOpen, Text.startsBlock, Text.endsBlock,
        trim_row_line] using behind

theorem reads_comment {node : Node} (isComment : node.IsComment before after) (level : Int) :
    Reads width before [Layout.commentPiece node level] [] after :=
  .single_comment (isRemark_commentPiece isComment level)

end Piece

/-! ## Members -/

namespace Item

inductive Bears : Item → Text → Prop where
  | member {text held : Text} {comment : Option Text} (hides : Text.Hides text held)
      (noted : IsNoted comment) : Bears (.member text comment) held
  | group {node : Node} {held : Text} (spans : node.spansLines = true) (bears : node.Bears held) :
      Bears (.group node) held
  | plain {code held : Text} {comment : Option Text} (hides : Text.Hides code held)
      (noted : IsNoted comment) : Bears (.plain (beside code comment)) held

inductive IsComment : Bool → Item → Bool → Prop where
  | remark {before after : Bool} {node : Node} (isComment : node.IsComment before after) :
      IsComment before (.remark node) after

abbrev InSeries : Bool → List Item → Text → Bool → Prop := Series IsComment Bears

theorem series_members {texts : List Text} {held : Text} (all : Text.HidesAll texts held) :
    InSeries false (texts.map (Item.member · none)) held false := by
  induction all with
  | nil => exact .done
  | cons hides others ih => exact .code (.member hides isNoted_none) ih

theorem series_ofSegments {comment : Option Text} {texts : List Text} {held : Text}
    (all : Text.HidesAll texts held) (noted : IsNoted comment) :
    InSeries false (ofSegments comment texts) held false := by
  induction all with
  | nil => exact .done
  | @cons text later held held' hides others ih =>
    cases later with
    | nil => exact .code (.member hides noted) ih
    | cons next later => exact .code (.member hides isNoted_none) ih

theorem series_ofChild {node : Node} {held : Text} (bears : node.Bears held) :
    InSeries false (ofChild node) held false := by
  unfold ofChild
  cases bears with
  | member isField single content noted =>
    have all := content.members
    rw [if_neg (by simp [single]), if_pos isField]
    split
    · exact .single_code (.member content noted)
    · exact series_ofSegments all noted
  | group spans keeps header opening children trailer closing =>
    rw [if_pos spans]
    exact .single_code (.group spans (.group spans keeps header opening children trailer closing))
  | line kind content hides noted settled filled =>
    rw [if_neg (by simp [Node.spansLines, Node.isField, kind]),
      if_neg (by simp [Node.isField, kind]), if_neg (by simp [kind]), content]
    exact .single_code (.plain hides noted)

theorem series_ofChildren {nodes : List Node} {held : Text} {before after : Bool}
    (series : Node.InSeries before nodes held after) :
    InSeries before (nodes.flatMap ofChild) held after := by
  refine series.flatMap ?_ fun _ _ => series_ofChild
  intro before node after isComment
  have kind := isComment.kind
  unfold ofChild
  rw [if_neg (by simp [Node.spansLines, Node.isField, kind]), if_neg (by simp [Node.isField, kind]),
    if_pos kind]
  exact .single_comment (.remark isComment)

end Item

namespace Layout

open Piece (Reads)

variable {width : Int} {options : Options}

theorem reads_keptLines {nodes : List Node} {before after : Bool} {held : Text}
    (series : Node.InSeries before nodes held after)
    (lines : ∀ child ∈ nodes, child.isField = false) (level : Node → Int) :
    Reads width before (nodes.map fun child =>
      if child.kind = .comment then commentPiece child (level child)
      else .line (level child) child.content) held after := by
  induction series with
  | done => exact .done
  | comment isComment later ih =>
    rw [List.map_cons, if_pos isComment.kind]
    exact (Piece.reads_comment isComment _).append
      (ih fun child member => lines child (List.mem_cons_of_mem _ member))
  | code bearing later ih =>
    rw [List.map_cons, if_neg bearing.kind_ne]
    have noField := lines _ (List.mem_cons_self ..)
    have rest := ih fun child member => lines child (List.mem_cons_of_mem _ member)
    cases bearing with
    | member isField => simp [isField] at noField
    | group spans => simp [Node.spansLines, noField] at spans
    | line kind content hides noted settled filled =>
      rw [content]
      exact (Piece.reads_beside hides noted _).append rest

theorem reads_layItems {lay : Bool → Item → Except Fault (List Piece)}
    (comments : ∀ comma before item after pieces, Item.IsComment before item after →
      lay comma item = .ok pieces → Reads width before pieces [] after)
    (codes : ∀ comma item held pieces, Item.Bears item held → lay comma item = .ok pieces →
      Reads width false pieces held false)
    {items : List Item} {pieces : List Piece} {before after : Bool} {held : Text}
    (series : Item.InSeries before items held after) (laid : layItems lay items = .ok pieces) :
    Reads width before pieces held after := by
  induction series generalizing pieces with
  | done =>
    cases laid
    exact .done
  | comment isComment later ih =>
    simp only [layItems, bind_eq_ok] at laid
    obtain ⟨first, here, rest, there, done⟩ := laid
    cases done
    exact (comments _ _ _ _ _ isComment here).append (ih there)
  | code bearing later ih =>
    simp only [layItems, bind_eq_ok] at laid
    obtain ⟨first, here, rest, there, done⟩ := laid
    cases done
    exact (codes _ _ _ _ bearing here).append (ih there)

theorem reads_layItem_remark (room : Nat) (level : Int) (comma before : Bool) (item : Item)
    (after : Bool) (pieces : List Piece) (isComment : Item.IsComment before item after)
    (laid : layItem options room level comma item = .ok pieces) :
    Reads width before pieces [] after := by
  cases isComment with
  | remark isComment =>
    cases room <;>
    · cases laid
      exact Piece.reads_comment isComment level

/-- An item is laid out on rows that hide what it bears. -/
theorem reads_layItem (room : Nat) :
    ∀ (level : Int) (comma : Bool) (item : Item) (held : Text) (pieces : List Piece),
      item.Bears held → layItem options room level comma item = .ok pieces →
      Reads width false pieces held false := by
  -- On the room that is left; without any, only comments and plain lines are laid out.
  induction room with
  | zero =>
    intro level comma item held pieces bears laid
    cases bears with
    | member hides noted => simp [layItem] at laid
    | group spans bears => simp [layItem] at laid
    | plain hides noted =>
      cases laid
      exact Piece.reads_beside hides noted level
  | succ room ih =>
    intro level comma item held pieces bears laid
    have inner : ∀ {items : List Item} {body : List Piece} {held : Text},
        Item.InSeries false items held false →
        layItems (layItem options room (level + 1)) items = .ok body →
        Reads width false body held false :=
      fun series laid => reads_layItems (reads_layItem_remark room (level + 1)) (ih (level + 1))
        series laid
    cases bears with
    | plain hides noted =>
      cases laid
      exact Piece.reads_beside hides noted level
    | member hides noted =>
      simp only [layItem] at laid
      split at laid
      · cases laid
        exact Piece.reads_line (hides.withComma comma) noted level
      · rename_i group expands
        rw [bind_eq_ok] at laid
        obtain ⟨body, laidBody, done⟩ := laid
        cases done
        obtain ⟨first, second, third, rfl, header, members, trailer⟩ :=
          Text.Hides.inlineGroup? .nil hides (inlineGroup?_of_groupToExpand? expands)
        exact (inner (Item.series_members members) laidBody).around header isNoted_none trailer
          noted level comma
    | @group node held spans bears =>
      simp only [layItem] at laid
      cases bears with
      | member _ single => simp [single] at spans
      | line kind => simp [Node.spansLines, Node.isField, kind] at spans
      | @group _ first second third _ keeps header opening children trailer closing =>
        obtain ⟨body, reads, rfl⟩ : ∃ body, Reads width false body second false ∧
            pieces = .line level (remarked (opener (node.header.getD [])) node.openingComment) ::
              body ++ [.line level (remarked (closer node.trailer comma) node.closingComment)] := by
          split at laid
          · rw [bind_eq_ok] at laid
            obtain ⟨body, laidBody, done⟩ := laid
            cases done
            exact ⟨body, inner (Item.series_ofChildren children) laidBody, rfl⟩
          · rename_i unstructured
            cases laid
            exact ⟨_, reads_keptLines children (keeps (by simpa using unstructured)) _, rfl⟩
        exact reads.around header opening trailer closing level comma

theorem reads_layBody {level : Int} {items : List Item} {pieces : List Piece} {held : Text}
    (series : Item.InSeries false items held false)
    (laid : layBody options level items = .ok pieces) : Reads width false pieces held false :=
  reads_layItems (reads_layItem_remark _ level) (reads_layItem _ level) series laid

/-! ## Definitions -/

theorem hides_assignment {node : Node} {held : Text} (name : Text.Hides node.name held) :
    Text.Hides (assignment node) held := name.append_unmarked (by decide)

theorem reads_layPlainDefinition {node : Node} {pieces : List Piece} {first second : Text}
    (laid : layPlainDefinition options node = .ok pieces) (name : Text.Hides node.name first)
    (header : Text.Hides (node.header.getD []) second) (noted : IsNoted node.openingComment) :
    Reads width false pieces (first ++ second) false := by
  have front := hides_assignment name
  simp only [layPlainDefinition] at laid
  split at laid
  · cases laid
    exact Piece.reads_line (front.space header) noted node.level
  · rename_i group found
    rw [bind_eq_ok] at laid
    obtain ⟨body, laidBody, done⟩ := laid
    cases done
    have found : inlineGroup? (assignment node) (node.header.getD []) = some group := by
      split at found
      · exact found
      · cases found
    obtain ⟨one, two, three, rfl, opened, members, trailer⟩ := front.inlineGroup? header found
    have reads : Reads width false body two false :=
      reads_layBody (Item.series_members members) laidBody
    have whole := (reads.around opened isNoted_none trailer noted node.level false).gap
    simp only [List.append_assoc] at whole ⊢
    exact whole

theorem hides_definitionFront {node : Node} {first second : Text}
    (name : Text.Hides node.name first) (header : Text.Hides (node.header.getD []) second) :
    Text.Hides (definitionFront node) (first ++ second) := by
  have front := hides_assignment name
  unfold definitionFront
  split
  · rename_i empty
    rw [empty] at header
    rw [header.eq_nil, List.append_nil]
    exact front
  · exact front.space header

theorem reads_layGroupDefinition {node : Node} {pieces : List Piece}
    {first second third fourth : Text} (laid : layGroupDefinition options node = .ok pieces)
    (name : Text.Hides node.name first) (header : Text.Hides (node.header.getD []) second)
    (opening : IsNoted node.openingComment)
    (inner : ∀ body, definitionBody options node = .ok body → Reads width false body third false)
    (trailer : Text.Hides node.trailer fourth) (closing : IsNoted node.closingComment) :
    Reads width false pieces (first ++ (second ++ (third ++ fourth))) false := by
  rw [layGroupDefinition_eq, bind_eq_ok] at laid
  obtain ⟨body, laidBody, done⟩ := laid
  cases done
  have whole := ((inner body laidBody).around (hides_definitionFront name header) opening trailer
    closing node.level false).gap
  simp only [List.append_assoc] at whole ⊢
  exact whole

/-! ## Nodes -/

theorem layNode_of_defines {node : Node} (defines : node.kind = .typeDefinition) :
    layNode options node =
      if node.isPlain then layPlainDefinition options node
      else layGroupDefinition options node := by
  rw [layNode, defines]
  rfl

theorem eq_nil_of_beside {code : Text} {comment : Option Text} (noted : IsNoted comment)
    (empty : beside code comment = []) : code = [] := by
  cases comment with
  | none => exact empty
  | some note =>
    obtain ⟨⟨rest, rfl⟩, -⟩ := noted note rfl
    by_contra some
    simp [beside, some] at empty

theorem reads_layNode_line {node : Node} {pieces : List Piece} {code held : Text}
    {comment : Option Text} (single : node.kind ≠ .typeDefinition ∧ node.kind ≠ .comment)
    (content : node.content = beside code comment) (hides : Text.Hides code held)
    (noted : IsNoted comment) (laid : layNode options node = .ok pieces) :
    Reads width false pieces held false := by
  have line : Reads width false [.line node.level node.content] held false := by
    rw [content]
    exact Piece.reads_beside hides noted node.level
  have opening : ∀ ends : Bool,
      Reads width false (.line node.level node.content :: if ends then [.gap] else []) held
        false := by
    intro ends
    cases ends with
    | true => exact line.gap
    | false => exact line
  unfold layNode at laid
  split at laid
  · cases laid
    exact opening _
  · cases laid
    exact opening _
  · cases laid
    exact Piece.reads_gap.append line
  · rename_i kind
    exact absurd kind single.2
  · rename_i kind
    exact absurd kind single.1
  · cases laid
    split
    · rename_i empty
      rw [eq_nil_of_beside noted (content.symm.trans empty)] at hides
      rw [hides.eq_nil]
      exact Piece.reads_gap
    · exact line

theorem reads_layNode {node : Node} {pieces : List Piece} {held : Text}
    (bears : node.ItemBears held) (laid : layNode options node = .ok pieces) :
    Reads width false pieces held false := by
  cases bears with
  | line single content hides noted settled => exact reads_layNode_line single content hides noted laid
  | plain defines plain name header opening =>
    rw [layNode_of_defines defines, if_pos plain] at laid
    exact reads_layPlainDefinition laid name header opening
  | inline defines inline name header opening members trailer closing =>
    rw [layNode_of_defines defines, if_neg (by simp [inline.1])] at laid
    rw [List.append_assoc]
    refine reads_layGroupDefinition laid name header opening ?_ trailer closing
    intro body laidBody
    rw [definitionBody, if_pos inline.2] at laidBody
    exact reads_layBody (Item.series_members members) laidBody
  | group defines several keeps name header opening children trailer closing =>
    rw [layNode_of_defines defines, if_neg (by simp [Node.isPlain, several])] at laid
    refine reads_layGroupDefinition laid name header opening ?_ trailer closing
    intro body laidBody
    rw [definitionBody, if_neg (by simp [several])] at laidBody
    split at laidBody
    · exact reads_layBody (Item.series_ofChildren children) laidBody
    · rename_i unstructured
      cases laidBody
      exact reads_keptLines children (keeps (by simpa using unstructured)) _

theorem reads_layNodes {nodes : List Node} {pieces : List Piece} {before after : Bool} {held : Text}
    (series : Series Node.IsComment Node.ItemBears before nodes held after)
    (laid : layNodes options nodes = .ok pieces) : Reads width before pieces held after := by
  induction series generalizing pieces with
  | done =>
    cases laid
    exact .done
  | comment isComment later ih =>
    simp only [layNodes, bind_eq_ok] at laid
    obtain ⟨first, here, rest, there, done⟩ := laid
    cases done
    rw [layNode, isComment.kind] at here
    cases here
    exact (Piece.reads_comment isComment _).append (ih there)
  | code bearing later ih =>
    simp only [layNodes, bind_eq_ok] at laid
    obtain ⟨first, here, rest, there, done⟩ := laid
    cases done
    exact (reads_layNode bearing here).append (ih there)

end Layout

end AsnLayout
