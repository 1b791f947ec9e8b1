import AsnLayout.Proofs.ItemOrder
import AsnLayout.Proofs.ItemRows

/-!
# Rows of a schema

The items of a schema whose texts are clear are laid out on rows that are read as items again: the
row of a plain type is followed by no brace, as no brace followed the type where it was read, and
the rows of a group are read as its body.
-/

set_option autoImplicit false

namespace AsnLayout

/-! ## Clear texts -/

namespace Node

instance (lines : List Node) : Decidable (LinesFit lines) :=
  decidable_of_iff ((∀ line ∈ lines, Text.Calm line.lineCode) ∧
    Text.WellNested (lines.flatMap fun line => Text.brackets line.lineCode))
    ⟨fun both => ⟨both.1, both.2⟩, fun fit => ⟨fit.calm, fit.nested⟩⟩

mutual

/-- Whether a node fits into a body with room for `levels` groups inside of each other. -/
def fits : Node → Nat → Bool
  | node@{ children, .. }, levels =>
    if node.kind = .comment then true
    else if node.spansLines then
      0 < levels && decide (Text.Fit levels (node.header.getD [])) &&
        decide (Text.Fit levels node.trailer) &&
        if node.isStructured then fitAll children (levels - 1) else decide (LinesFit children)
    else node.isField && decide (Text.Fit levels node.content)

def fitAll : List Node → Nat → Bool
  | [], _ => true
  | node :: later, levels => fits node levels && fitAll later levels

end

theorem fits_eq (node : Node) (levels : Nat) : node.fits levels =
    if node.kind = .comment then true
    else if node.spansLines then
      0 < levels && decide (Text.Fit levels (node.header.getD [])) &&
        decide (Text.Fit levels node.trailer) &&
        if node.isStructured then fitAll node.children (levels - 1)
        else decide (LinesFit node.children)
    else node.isField && decide (Text.Fit levels node.content) := by
  cases node
  rw [fits]

theorem fitAll_iff (nodes : List Node) (levels : Nat) :
    fitAll nodes levels = true ↔ ∀ node ∈ nodes, node.fits levels = true := by
  induction nodes with
  | nil => simp [fitAll]
  | cons node later ih => rw [fitAll, Bool.and_eq_true, ih, List.forall_mem_cons]

theorem Fits.of_fits {node : Node} {levels : Nat} (fit : node.fits levels = true) :
    node.Fits levels := by
  rw [fits_eq] at fit
  split at fit
  · rename_i comment
    exact .comment comment
  split at fit
  · rename_i spans
    simp only [Bool.and_eq_true, decide_eq_true_eq] at fit
    obtain ⟨⟨⟨deep, header⟩, trailer⟩, inner⟩ := fit
    obtain ⟨deeper, rfl⟩ := Nat.exists_eq_succ_of_ne_zero (Nat.pos_iff_ne_zero.mp deep)
    refine .group spans header trailer (fun structured child member => ?_) fun unstructured => ?_
    · rw [if_pos structured, fitAll_iff] at inner
      exact of_fits (inner child member)
    · rw [if_neg (by simp [unstructured])] at inner
      exact of_decide_eq_true inner
  · rename_i single
    obtain ⟨isField, content⟩ := Bool.and_eq_true_iff.mp fit
    exact .member isField (by simpa using single) (of_decide_eq_true content)
termination_by sizeOf node
decreasing_by
  have smaller := List.sizeOf_lt_of_mem member
  cases node
  simp only [Node.mk.sizeOf_spec] at smaller ⊢
  omega

end Node

namespace Layout

/-- The group of a type that stays on its line, if it has to be laid out. -/
def wrappedGroup? (options : Options) (node : Node) : Option InlineGroup :=
  let line := remarked (assignment node ++ ' ' :: node.header.getD []) node.openingComment
  if isTooLong options node.level line then inlineGroup? (assignment node) (node.header.getD [])
  else none

end Layout

namespace Node

def groupFits (node : Node) (levels : Nat) : Bool :=
  if node.oneLine = some true then
    (node.inlineMembers.getD []).all fun text => decide (Text.Fit levels text)
  else if node.isStructured then fitAll node.children levels
  else decide (LinesFit node.children)

/-- Whether an item is laid out on one row, or its texts hold no sign of the frame of a module, pair
their brackets and nest as many groups as may be nested. -/
def isClear (options : Options) (node : Node) : Bool :=
  let depth := options.maxDepth.toNat
  node.kind ≠ .typeDefinition ||
    node.isPlain && (Layout.wrappedGroup? options node).isNone ||
    decide (Text.Calm node.name) && decide (Text.Fit depth (node.header.getD [])) &&
      decide (Text.Fit depth node.trailer) && node.groupFits (depth - 1)

end Node

/-! ## Single rows -/

namespace Layout

variable {limits : Limits} {options : Options} {width : Int} {rest : List Text}

open Reader (Admits)

theorem admits_gap (later : Admits limits false rest) : Admits limits false ([] :: rest) :=
  Reader.admits_cons (by decide) later

theorem admits_comment {node : Node} {before after : Bool}
    (isComment : node.IsComment before after) (level : Int) (later : Admits limits after rest) :
    Admits limits before ((commentPiece node level).row width :: rest) := by
  obtain ⟨remark, -, behind⟩ := @Piece.isRemark_commentPiece width _ _ _ isComment level
  refine Reader.admits_cons ?_ (by rwa [behind])
  rw [(LineKind.ofLine_eq_comment ..).mpr remark]
  simp

theorem admits_line {code held : Text} {comment : Option Text} (hides : Text.Hides code held)
    (noted : IsNoted comment)
    (kind : LineKind.ofLine false (beside code comment) ≠ .typeDefinition) (level : Int)
    (later : Admits limits false rest) :
    Admits limits false ((Piece.line level (beside code comment)).row width :: rest) := by
  have same : LineKind.ofLine false ((Piece.line level (beside code comment)).row width) =
      LineKind.ofLine false (beside code comment) := by
    unfold LineKind.ofLine Text.isLineComment Text.startsBlock
    rw [Piece.trim_row_line]
  have behind : LineKind.blockAfter false ((Piece.line level (beside code comment)).row width) =
      false := by
    cases @Piece.reads_beside width held code comment hides noted level with
    | comment isRemark later =>
      cases later
      exact isRemark.behind
    | code isCode later => exact LineKind.blockAfter_of_not_isRemark isCode.noRemark
  exact Reader.admits_cons (same.trans_ne kind) (by rwa [behind])

theorem layNode_line_cases {node : Node} {pieces : List Piece}
    (noDefinition : node.kind ≠ .typeDefinition) (noComment : node.kind ≠ .comment)
    (laid : layNode options node = .ok pieces) :
    pieces = [.line node.level node.content] ∨ pieces = [.line node.level node.content, .gap] ∨
      pieces = [.gap, .line node.level node.content] ∨ node.content = [] ∧ pieces = [.gap] := by
  have opening : ∀ ends : Bool,
      ((.line node.level node.content :: if ends then [.gap] else []) : List Piece) =
        [.line node.level node.content] ∨
      ((.line node.level node.content :: if ends then [.gap] else []) : List Piece) =
        [.line node.level node.content, .gap] := by
    intro ends
    cases ends with
    | true => exact .inr rfl
    | false => exact .inl rfl
  unfold layNode at laid
  split at laid
  · cases laid
    exact (opening _).imp_right .inl
  · cases laid
    exact (opening _).imp_right .inl
  · cases laid
    exact .inr (.inr (.inl rfl))
  · rename_i kind
    exact absurd kind noComment
  · rename_i kind
    exact absurd kind noDefinition
  · cases laid
    split
    · rename_i empty
      exact .inr (.inr (.inr ⟨empty, rfl⟩))
    · exact .inl rfl

theorem admits_layNode_line {node : Node} {pieces : List Piece} {code held : Text}
    {comment : Option Text} (single : node.kind ≠ .typeDefinition ∧ node.kind ≠ .comment)
    (content : node.content = beside code comment) (hides : Text.Hides code held)
    (noted : IsNoted comment) (kind : LineKind.ofLine false node.content ≠ .typeDefinition)
    (laid : layNode options node = .ok pieces) (later : Admits limits false rest) :
    Admits limits false (pieces.map (Piece.row width) ++ rest) := by
  have line : ∀ {rest : List Text}, Admits limits false rest →
      Admits limits false ((Piece.line node.level node.content).row width :: rest) := by
    intro rest later
    rw [content] at kind ⊢
    exact admits_line hides noted kind node.level later
  rcases layNode_line_cases single.1 single.2 laid with rfl | rfl | rfl | ⟨-, rfl⟩
  · exact line later
  · exact line (admits_gap later)
  · exact admits_gap (line later)
  · exact admits_gap later

/-! ## Definitions -/

theorem assignment_eq (node : Node) (text : Text) : assignment node ++ ' ' :: text =
    node.name ++ ' ' :: (Text.assignmentSign ++ ' ' :: text) := by
  simp [assignment, Text.assignmentSign]

theorem admits_assignment {node : Node} {first second : Text} {comment : Option Text}
    (name : Text.Hides node.name first) (header : Text.Hides (node.header.getD []) second)
    (noted : IsNoted comment) (defined : node.Defined) (plain : node.isPlain = true)
    (ends : Reader.hasBrace (node.header.getD []) = true ∨ Reader.bracesNext rest = false)
    (level : Int) (later : Admits limits false rest) :
    Admits limits false ((Piece.line level (remarked (assignment node ++ ' ' ::
      node.header.getD []) comment)).row width :: rest) := by
  obtain ⟨seen, whole⟩ := defined.plain plain
  have hides := (hides_assignment name).space header
  rw [assignment_eq] at hides ⊢
  have filled : Text.isBlankText (node.name ++ ' ' :: (Text.assignmentSign ++ ' ' ::
      node.header.getD [])) = false :=
    @Text.isBlankText_of_mem _ ':' (by simp [Text.assignmentSign]) (by decide)
  have isRow := Text.isRow_remarked hides noted (Piece.newline_not_mem_row_line
    (Piece.newline_not_mem_remarked hides noted) width level) filled
    (Piece.trim_row_line width level _)
  by_cases kind : LineKind.ofLine false ((Piece.line level (remarked (node.name ++ ' ' ::
      (Text.assignmentSign ++ ' ' :: node.header.getD [])) comment)).row width) = .typeDefinition
  · refine Reader.admits_whole kind isRow.noRemark (isRow.isAssignment defined.name) ?_ ?_ ?_ later
    · intro empty
      rw [← Text.isBlankText_trim, empty] at seen
      cases seen
    · rwa [Text.hasBrace_iff, Text.brackets_trim, ← Text.hasBrace_iff]
    · rw [Reader.isWhole_trim, Reader.isWhole, whole]
  · refine Reader.admits_cons kind ?_
    rwa [LineKind.blockAfter_of_not_isRemark isRow.noRemark]

theorem opener_definitionFront (node : Node) : opener (definitionFront node) =
    node.name ++ ' ' :: (Text.assignmentSign ++ ' ' :: opener (node.header.getD [])) := by
  unfold definitionFront
  split
  · rename_i empty
    simp [opener, empty, assignment, Text.assignmentSign]
  · rename_i some
    simp [opener, some, assignment, Text.assignmentSign]

theorem leads_layBody {level : Int} {items : List Item} {pieces : List Piece} {held : Text}
    {levels : Nat} (series : Item.InSeries false items held false)
    (fits : ∀ item ∈ items, item.Fits levels) (deep : (1 + levels : Int) ≤ limits.depth)
    (laid : layBody options level items = .ok pieces) :
    Piece.Leads limits width false (Body.Rests · ['}'] true) pieces false
      (Body.Rests · ['}'] false) := by
  have leads := @leads_layItem limits width options options.maxDepth.toNat ['}'] levels (by simp)
    (by simpa using deep) level
  exact (leads_layItems (leads_layItem_remark _ level) leads series fits laid).of_start
    fun _ rests => rests.weaken _

theorem admits_layGroupDefinition {node : Node} {pieces : List Piece} {first second third : Text}
    (name : Text.Hides node.name first) (header : Text.Hides (node.header.getD []) second)
    (opening : IsNoted node.openingComment) (trailer : Text.Hides node.trailer third)
    (closing : IsNoted node.closingComment) (defined : node.Defined) (group : node.isPlain = false)
    (calmName : Text.Calm node.name) (calm : Text.Calm (node.header.getD []))
    {levels : Nat} (fit : Text.Fit levels node.trailer) (deep : 0 < limits.depth)
    {middle : Body → Prop}
    (starts : ∀ body : Body, body.Rests ['}'] true →
      (node.isStructured = false → body.Counts [] ['}']) → middle body)
    (inner : ∀ body, definitionBody options node = .ok body →
      Piece.Leads limits width false middle body false (Body.Rests · ['}'] false))
    (laid : layGroupDefinition options node = .ok pieces) (later : Admits limits false rest) :
    Admits limits false (pieces.map (Piece.row width) ++ rest) := by
  obtain ⟨unbraced, kind, -⟩ := defined.group group
  rw [layGroupDefinition_eq, bind_eq_ok] at laid
  obtain ⟨body, laidBody, done⟩ := laid
  cases done
  have structured : node.isStructured =
      (GroupKind.ofHeader (node.header.getD [])).isStructured := by
    rw [Node.isStructured, kind]
    rfl
  have admitted := admits_definition name defined.name calmName header opening calm unbraced
    trailer closing fit.calm fit.braceBalance_eq deep
    (fun body rests counts => starts body rests fun unstructured =>
      counts (structured ▸ unstructured))
    (inner body laidBody) node.level (admits_gap later)
  rw [← opener_definitionFront] at admitted
  simpa [Piece.row] using admitted

/-- What stands before a text comes before the header of its first group only. -/
theorem exists_inlineGroup? {front text : Text} {group : InlineGroup}
    (found : inlineGroup? front text = some group) :
    ∃ inner, inlineGroup? [] text = some inner ∧
      group = { inner with header := Text.trim (front ++ ' ' :: inner.header) } ∧
      Text.trim inner.header = inner.header := by
  unfold inlineGroup? at found ⊢
  split at found
  · cases found
  · simp only at found ⊢
    split at found
    · cases found
    · cases found
      refine ⟨_, rfl, ?_, Text.trim_trim _⟩
      simp only [List.nil_append, Text.trim_space_cons, Text.trim_trim]

theorem opener_trim {name header : Text} (isName : Text.IsName name)
    (trimmed : Text.trim header = header) :
    opener (Text.trim (name ++ ' ' :: (Text.assignmentSign ++ ' ' :: header))) =
      name ++ ' ' :: (Text.assignmentSign ++ ' ' :: opener header) := by
  rw [Text.trim_assignment isName]
  by_cases empty : header = []
  · subst empty
    have blank : Text.trimEnd [' '] = [] := by decide
    simp [opener, blank, Text.assignmentSign]
  · have ends : Text.trimEnd header = header := by
      have twice : Text.trimEnd (Text.trim header) = Text.trim header :=
        List.rdropWhile_idempotent _ _
      rwa [trimmed] at twice
    have solid := List.rdropWhile_eq_self_iff.mp ends empty
    have kept : Text.trimEnd (' ' :: header) = ' ' :: header := by
      refine List.rdropWhile_eq_self_iff.mpr fun _ => ?_
      rwa [List.getLast_cons empty]
    simp [opener, kept, empty, Text.assignmentSign]

/-- A definition that stands on one line and is laid out on several. -/
theorem admits_wrapped {node : Node} {group : InlineGroup} {body : List Piece}
    {first second : Text}
    (found : inlineGroup? (assignment node) (node.header.getD []) = some group)
    (name : Text.Hides node.name first) (header : Text.Hides (node.header.getD []) second)
    (noted : IsNoted node.openingComment) (defined : node.Defined)
    (calmName : Text.Calm node.name) {levels : Nat} (fit : Text.Fit levels (node.header.getD []))
    (deep : (levels : Int) ≤ limits.depth)
    (laid : layBody options (node.level + 1) (group.members.map (Item.member · none)) = .ok body)
    (later : Admits limits false rest) :
    Admits limits false ((.line node.level (opener group.header) :: body ++
      [.line node.level (remarked (closer group.trailer false) node.openingComment), .gap] :
        List Piece).map (Piece.row width) ++ rest) := by
  obtain ⟨inner, foundInner, rfl, trimmed⟩ := exists_inlineGroup? found
  obtain ⟨one, two, three, rfl, opening, members, trailer⟩ :=
    Text.Hides.inlineGroup? .nil header foundInner
  obtain ⟨outer, before, positive, same, parts⟩ := fit.inlineGroup? foundInner
  rw [List.nil_append, Text.trim_space_cons, Text.trim_trim] at same
  have calm : Text.Calm inner.header := same ▸ parts.calm.trim
  have unbraced : '{' ∉ Text.brackets inner.header := by
    rw [same, Text.brackets_trim]
    exact parts.noBrace
  have leads := @leads_layBody limits options width _ _ _ _ _ (Item.series_members members)
    (Item.fits_members parts.members) (by omega) laid
  have admitted := admits_definition name defined.name calmName opening isNoted_none calm unbraced
    trailer noted parts.calmTrailer parts.braceBalance_trailer (by omega) (fun _ rests _ => rests)
    leads node.level (admits_gap later)
  simp only [assignment_eq, opener_trim defined.name trimmed]
  simpa [Piece.row, remarked] using admitted

/-- A definition without a group, or whose group is kept on its line if it is short enough. -/
theorem admits_layPlainDefinition {node : Node} {pieces : List Piece} {first second : Text}
    (name : Text.Hides node.name first) (header : Text.Hides (node.header.getD []) second)
    (noted : IsNoted node.openingComment) (defined : node.Defined) (plain : node.isPlain = true)
    (ends : Reader.hasBrace (node.header.getD []) = true ∨ Reader.bracesNext rest = false)
    {levels : Nat} (deep : (levels : Int) ≤ limits.depth)
    (wraps : (wrappedGroup? options node).isSome = true →
      Text.Calm node.name ∧ Text.Fit levels (node.header.getD []))
    (laid : layPlainDefinition options node = .ok pieces) (later : Admits limits false rest) :
    Admits limits false (pieces.map (Piece.row width) ++ rest) := by
  simp only [layPlainDefinition] at laid
  split at laid
  · cases laid
    exact admits_assignment name header noted defined plain ends node.level later
  · rename_i group found
    rw [bind_eq_ok] at laid
    obtain ⟨body, laidBody, done⟩ := laid
    cases done
    obtain ⟨calm, fit⟩ := wraps (by rw [wrappedGroup?, found]; rfl)
    split at found
    · exact admits_wrapped found name header noted defined calm fit deep laidBody later
    · cases found

/-! ## Nodes -/

theorem texts_of_isClear {node : Node} (clear : node.isClear options = true)
    (defines : node.kind = .typeDefinition)
    (several : node.isPlain = true → (wrappedGroup? options node).isSome = true) :
    Text.Calm node.name ∧ Text.Fit options.maxDepth.toNat (node.header.getD []) ∧
      Text.Fit options.maxDepth.toNat node.trailer ∧
      node.groupFits (options.maxDepth.toNat - 1) = true := by
  simp only [Node.isClear, Bool.or_eq_true, Bool.and_eq_true, decide_eq_true_eq] at clear
  rcases clear with (other | ⟨plain, none⟩) | ⟨⟨⟨name, header⟩, trailer⟩, group⟩
  · exact absurd defines other
  · rw [Option.isNone_iff_eq_none] at none
    have some := several plain
    rw [none] at some
    cases some
  · exact ⟨name, header, trailer, group⟩

theorem admits_layNode {node : Node} {later : List Node} {pieces : List Piece} {held : Text}
    (positive : 1 ≤ options.maxDepth) (depth : limits.depth = options.maxDepth)
    (bears : node.ItemBears held) (isItem : node.IsItem later)
    (clear : node.isClear options = true) (laid : layNode options node = .ok pieces)
    (unbraced : Node.bracesNext later = false → Reader.bracesNext rest = false)
    (admitted : Admits limits false rest) :
    Admits limits false (pieces.map (Piece.row width) ++ rest) := by
  have deep : (options.maxDepth.toNat : Int) = limits.depth := by omega
  cases bears with
  | line single content hides noted settled =>
    exact admits_layNode_line single content hides noted (isItem.line single.1 single.2) laid
      admitted
  | plain defines plain name header opening =>
    obtain ⟨defined, ends⟩ := isItem.defined defines
    rw [layNode_of_defines defines, if_pos plain] at laid
    refine admits_layPlainDefinition name header opening defined plain
      ((ends plain).imp_right unbraced) deep.le (fun wraps => ?_) laid admitted
    obtain ⟨calm, fit, -, -⟩ := texts_of_isClear clear defines fun _ => wraps
    exact ⟨calm, fit⟩
  | inline defines inline name header opening members trailer closing =>
    obtain ⟨noPlain, oneLine⟩ := inline
    obtain ⟨calm, fit, fitTrailer, fits⟩ :=
      texts_of_isClear clear defines fun plain => by simp [noPlain] at plain
    rw [layNode_of_defines defines, if_neg (by simp [noPlain])] at laid
    refine admits_layGroupDefinition name header opening trailer closing
      (isItem.defined defines).1 noPlain calm fit.calm fitTrailer (by omega)
      (fun _ rests _ => rests) (fun body laidBody => ?_) laid admitted
    rw [definitionBody, if_pos oneLine] at laidBody
    rw [Node.groupFits, if_pos oneLine, List.all_eq_true] at fits
    exact leads_layBody (Item.series_members members)
      (Item.fits_members fun text member => of_decide_eq_true (fits text member)) (by omega)
      laidBody
  | group defines several keeps name header opening children trailer closing =>
    have noPlain : node.isPlain = false := by simp [Node.isPlain, several]
    obtain ⟨calm, fit, fitTrailer, fits⟩ :=
      texts_of_isClear clear defines fun plain => by simp [noPlain] at plain
    obtain ⟨-, -, titled⟩ := (isItem.defined defines).1.group noPlain
    rw [layNode_of_defines defines, if_neg (by simp [noPlain])] at laid
    rw [Node.groupFits, if_neg (by simp [several])] at fits
    have body : ∀ body, definitionBody options node = .ok body →
        (if node.isStructured then
          layBody options (node.level + 1) (node.children.flatMap Item.ofChild)
        else pure (keptLines node (node.level + 1))) = .ok body := by
      intro body laidBody
      rwa [definitionBody, if_neg (by simp [several])] at laidBody
    by_cases structured : node.isStructured = true
    · refine admits_layGroupDefinition name header opening trailer closing
        (isItem.defined defines).1 noPlain calm fit.calm fitTrailer (by omega)
        (fun _ rests _ => rests) (fun inner laidBody => ?_) laid admitted
      have laidBody := body inner laidBody
      rw [if_pos structured] at laidBody
      rw [if_pos structured, Node.fitAll_iff] at fits
      exact leads_layBody (Item.series_ofChildren children) (Item.fits_ofChildren
        (fun child member => .of_fits (fits child member)) titled) (by omega) laidBody
    · refine admits_layGroupDefinition name header opening trailer closing
        (isItem.defined defines).1 noPlain calm fit.calm fitTrailer (by omega)
        (fun _ _ counts => counts (by simpa using structured)) (fun inner laidBody => ?_) laid
        admitted
      have laidBody := body inner laidBody
      rw [if_neg structured] at laidBody
      rw [if_neg structured] at fits
      obtain ⟨calmLines, nested⟩ := of_decide_eq_true fits
      cases laidBody
      exact (leads_keptLines children (keeps (by simpa using structured)) calmLines nested
        _).of_finish fun _ => Body.Counts.rests

/-! ## Schemas -/

theorem exists_remarked (text : Text) (comment : Option Text) :
    ∃ back, remarked text comment = text ++ back := by
  unfold remarked
  split
  · exact ⟨[], (List.append_nil text).symm⟩
  · split
    · exact ⟨[], (List.append_nil text).symm⟩
    · exact ⟨_, rfl⟩

/-- The first row of a definition starts with its name. -/
theorem exists_first_layNode {node : Node} {pieces : List Piece}
    (defines : node.kind = .typeDefinition) (isName : Text.IsName node.name)
    (laid : layNode options node = .ok pieces) :
    ∃ back more, pieces = .line node.level (node.name ++ back) :: more := by
  rw [layNode_of_defines defines] at laid
  split at laid
  · simp only [layPlainDefinition] at laid
    split at laid
    · cases laid
      obtain ⟨back, starts⟩ :=
        exists_remarked (assignment node ++ ' ' :: node.header.getD []) node.openingComment
      rw [starts, assignment, List.append_assoc, List.append_assoc]
      exact ⟨_, [], rfl⟩
    · rename_i group found
      rw [bind_eq_ok] at laid
      obtain ⟨body, -, done⟩ := laid
      cases done
      split at found
      · obtain ⟨inner, -, rfl, trimmed⟩ := exists_inlineGroup? found
        simp only [assignment_eq, opener_trim isName trimmed]
        exact ⟨_, _, rfl⟩
      · cases found
  · rw [layGroupDefinition_eq, bind_eq_ok] at laid
    obtain ⟨body, -, done⟩ := laid
    cases done
    obtain ⟨back, starts⟩ := exists_remarked (opener (definitionFront node)) node.openingComment
    rw [starts, opener_definitionFront, List.append_assoc]
    exact ⟨_, _, rfl⟩

theorem bracesNext_line (level : Int) (text : Text) :
    Reader.bracesNext ((Piece.line level text).row width :: rest) =
      (Text.trim text).head?.elim (Reader.bracesNext rest) (· = '{') := by
  rw [Reader.bracesNext_cons, Piece.trim_row_line]

theorem bracesNext_gap : Reader.bracesNext (Piece.gap.row width :: rest) = Reader.bracesNext rest :=
  Reader.bracesNext_cons [] rest

theorem bracesNext_layNode {node : Node} {pieces : List Piece} (seen : node.kind ≠ .comment)
    (isName : node.kind = .typeDefinition → Text.IsName node.name)
    (laid : layNode options node = .ok pieces) :
    Reader.bracesNext (pieces.map (Piece.row width) ++ rest) =
      node.start.elim (Reader.bracesNext rest) (· = '{') := by
  by_cases defines : node.kind = .typeDefinition
  · obtain ⟨back, more, rfl⟩ := exists_first_layNode defines (isName defines) laid
    obtain ⟨c, later, named, solid⟩ := (isName defines).starts
    rw [List.map_cons, List.cons_append, bracesNext_line, Node.start, if_pos defines, named,
      List.cons_append, Text.head?_trim solid, Text.head?_trim solid]
    rfl
  · have start : node.start = (Text.trim node.content).head? := by
      rw [Node.start, if_neg defines]
    rw [start]
    rcases layNode_line_cases defines seen laid with rfl | rfl | rfl | ⟨empty, rfl⟩
    · exact bracesNext_line ..
    · simp only [List.map_cons, List.map_nil, List.cons_append, List.nil_append, bracesNext_line,
        bracesNext_gap]
    · exact bracesNext_gap.trans (bracesNext_line ..)
    · rw [empty]
      exact bracesNext_gap

/-- The rows of a schema are read as items again, and no brace is next where no item starts with
one. -/
theorem admits_layNodes {nodes : List Node} {pieces : List Piece} {held : Text}
    {before after : Bool} (positive : 1 ≤ options.maxDepth)
    (depth : limits.depth = options.maxDepth)
    (series : Series Node.IsComment Node.ItemBears before nodes held after)
    (items : Node.AreItems nodes) (clear : ∀ node ∈ nodes, node.isClear options = true)
    (laid : layNodes options nodes = .ok pieces) :
    Admits limits before (pieces.map (Piece.row width)) ∧
      (before = false → Node.bracesNext nodes = false →
        Reader.bracesNext (pieces.map (Piece.row width)) = false) := by
  induction series generalizing pieces with
  | done =>
    cases laid
    exact ⟨Reader.admits_nil, fun _ _ => rfl⟩
  | @comment before between after node later held isComment others ih =>
    simp only [layNodes, bind_eq_ok] at laid
    obtain ⟨first, here, rest, there, done⟩ := laid
    cases done
    rw [layNode, isComment.kind] at here
    cases here
    cases items with
    | cons isItem items =>
      obtain ⟨admitted, -⟩ := ih items (List.forall_mem_cons.mp clear).2 there
      refine ⟨admits_comment isComment node.level admitted, ?_⟩
      rintro rfl -
      have remark := (@Piece.isRemark_commentPiece width _ _ _ isComment node.level).isRemark
      exact Reader.bracesNext_of_head? (Text.head?_of_isRemark remark) _
  | @code after node later held held' bears others ih =>
    simp only [layNodes, bind_eq_ok] at laid
    obtain ⟨first, here, rest, there, done⟩ := laid
    cases done
    cases items with
    | cons isItem items =>
      obtain ⟨clear, clearLater⟩ := List.forall_mem_cons.mp clear
      obtain ⟨admitted, unbraced⟩ := ih items clearLater there
      rw [List.map_append]
      refine ⟨admits_layNode positive depth bears isItem clear here (unbraced rfl) admitted, ?_⟩
      intro _ none
      have code : node.kind ≠ .comment := by
        cases bears with
        | line single => exact single.2
        | plain defines | inline defines | group defines => simp [defines]
      rw [bracesNext_layNode code (fun defines => (isItem.defined defines).1.name) here]
      rw [Node.bracesNext] at none
      cases start : node.start with
      | none =>
        rw [start] at none
        exact unbraced rfl none
      | some c => rwa [start] at none

end Layout

end AsnLayout
