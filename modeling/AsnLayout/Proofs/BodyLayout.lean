import AsnLayout.Proofs.Headings

/-!
# Laid out bodies

The pieces that the members of a group are laid out on lead a body from a state in which a member
may start to one that waits for the same brackets.  This asks of the members that they hold no sign
of the frame of a module and that their brackets are paired.
-/

set_option autoImplicit false

namespace AsnLayout

/-! ## Nodes that fit into a body -/

namespace Node

/-- Lines that may be kept in a body: their brackets are paired all together. -/
structure LinesFit (lines : List Node) : Prop where
  calm : ∀ line ∈ lines, Text.Calm line.lineCode
  nested : Text.WellNested (lines.flatMap fun line => Text.brackets line.lineCode)

/-- Nodes that fit into a body with room for `levels` groups inside of each other. -/
inductive Fits : Nat → Node → Prop where
  | comment {levels : Nat} {node : Node} (kind : node.kind = .comment) : Fits levels node
  | member {levels : Nat} {node : Node} (isField : node.isField = true)
      (single : node.spansLines = false) (content : Text.Fit levels node.content) :
      Fits levels node
  | group {levels : Nat} {node : Node} (spans : node.spansLines = true)
      (header : Text.Fit (levels + 1) (node.header.getD []))
      (trailer : Text.Fit (levels + 1) node.trailer)
      (members : node.isStructured = true → ∀ child ∈ node.children, Fits levels child)
      (lines : node.isStructured = false → LinesFit node.children) : Fits (levels + 1) node

end Node

namespace Item

def Fits (levels : Nat) : Item → Prop
  | member text _ => Text.Fit levels text
  | group node => node.Fits levels ∧ node.Titled
  | remark _ => True
  | plain _ => False

theorem fits_ofSegments {levels : Nat} (comment : Option Text) {texts : List Text}
    (fit : ∀ text ∈ texts, Text.Fit levels text) :
    ∀ item ∈ ofSegments comment texts, item.Fits levels := by
  intro item there
  obtain ⟨text, inside, rfl | rfl⟩ := exists_of_mem_ofSegments there
  · exact fit text inside
  · exact fit text inside

theorem fits_ofChild {levels : Nat} {node : Node} (fits : node.Fits levels)
    (titled : node.Titled) : ∀ item ∈ ofChild node, item.Fits levels := by
  unfold ofChild
  cases fits with
  | comment kind =>
    rw [if_neg (by simp [Node.spansLines, Node.isField, kind]),
      if_neg (by simp [Node.isField, kind]), if_pos kind]
    exact List.forall_mem_cons.mpr ⟨trivial, by simp⟩
  | member isField single content =>
    rw [if_neg (by simp [single]), if_pos isField]
    split
    · exact List.forall_mem_cons.mpr ⟨content, by simp⟩
    · exact fits_ofSegments _ content.members
  | group spans header trailer members lines =>
    rw [if_pos spans]
    exact List.forall_mem_cons.mpr ⟨⟨.group spans header trailer members lines, titled⟩, by simp⟩

theorem fits_ofChildren {levels : Nat} {nodes : List Node}
    (fits : ∀ node ∈ nodes, node.Fits levels) (titled : ∀ node ∈ nodes, node.Titled) :
    ∀ item ∈ nodes.flatMap ofChild, item.Fits levels := by
  intro item member
  obtain ⟨node, inNodes, inItems⟩ := List.mem_flatMap.mp member
  exact fits_ofChild (fits node inNodes) (titled node inNodes) item inItems

theorem fits_members {levels : Nat} {texts : List Text}
    (fit : ∀ text ∈ texts, Text.Fit levels text) :
    ∀ item ∈ texts.map (Item.member · none), item.Fits levels := by
  intro item inItems
  obtain ⟨text, inTexts, rfl⟩ := List.mem_map.mp inItems
  exact fit text inTexts

end Item

/-! ## Lines of a layout -/

namespace Text

variable {t : Text}

theorem Calm.withComma (calm : Calm t) (comma : Bool) : Calm (Layout.withComma t comma) := by
  unfold Layout.withComma
  split
  · exact (append_iff (by decide +kernel) (by decide)).mpr ⟨calm, .nil⟩
  · exact calm

theorem Calm.opener (calm : Calm t) : Calm (Layout.opener t) := by
  have brace : Calm ['{'] := by decide +kernel
  unfold Layout.opener
  split
  · exact brace
  · exact (append_iff (by decide +kernel) (by decide)).mpr ⟨calm, brace⟩

theorem Calm.closer (calm : Calm t) (comma : Bool) : Calm (Layout.closer t comma) := by
  have brace : Calm ['}'] := by decide +kernel
  refine Calm.withComma ?_ comma
  split
  · exact brace
  · exact (append_iff (by decide +kernel) (by decide)).mpr ⟨brace, calm⟩

theorem isBlankText_opener (t : Text) : isBlankText (Layout.opener t) = false := by
  refine @isBlankText_of_mem _ '{' ?_ (by decide)
  unfold Layout.opener
  split <;> simp

theorem isBlankText_closer (t : Text) (comma : Bool) :
    isBlankText (Layout.closer t comma) = false := by
  refine @isBlankText_of_mem _ '}' ?_ (by decide)
  unfold Layout.closer Layout.withComma
  split <;> split <;> simp

end Text

/-! ## Pieces -/

namespace Piece

/-- Pieces whose rows lead a body from one state to another. -/
def Leads (limits : Limits) (width : Int) (before : Bool) (start : Body → Prop)
    (pieces : List Piece) (after : Bool) (finish : Body → Prop) : Prop :=
  Reader.Leads limits before start (pieces.map (row width)) after finish

variable {limits : Limits} {width : Int} {before between after : Bool}
  {start middle finish : Body → Prop} {front back : List Piece}

theorem Leads.append (first : Leads limits width before start front between middle)
    (second : Leads limits width between middle back after finish) :
    Leads limits width before start (front ++ back) after finish := by
  rw [Leads, List.map_append]
  exact Reader.Leads.append first second

theorem leads_line {text code held : Text} {comment : Option Text} (hides : Text.Hides code held)
    (noted : IsNoted comment) (single : '\n' ∉ text)
    (same : Text.trim text = Text.trim (Layout.remarked code comment))
    (calm : Text.Calm (Text.trim code)) (seen : Text.isBlankText code = false)
    (read : ∀ body number, start body → ∃ next,
      body.readLine limits.depth ⟨Text.trim code, comment⟩ number = .ok (.more next) ∧
        finish next) (level : Int) :
    Leads limits width false start [line level text] false finish :=
  Reader.leads_row (Text.isRow_remarked hides noted (newline_not_mem_row_line single width level)
    seen ((trim_row_line width level _).trans same)) calm
    (by rw [Text.isBlankText_trim, seen]) read

theorem leads_remarked {code held : Text} {comment : Option Text} (hides : Text.Hides code held)
    (noted : IsNoted comment) (calm : Text.Calm code) (seen : Text.isBlankText code = false)
    (read : ∀ body number, start body → ∃ next,
      body.readLine limits.depth ⟨Text.trim code, comment⟩ number = .ok (.more next) ∧
        finish next) (level : Int) :
    Leads limits width false start [line level (Layout.remarked code comment)] false finish :=
  leads_line hides noted (newline_not_mem_remarked hides noted) rfl calm.trim seen read level

theorem leads_idle {text code : Text} {comment : Option Text} (noted : IsNoted comment)
    (single : '\n' ∉ text) (same : Text.trim text = Text.trim (Layout.remarked code comment))
    (unseen : Text.isBlankText code = true)
    (kept : ∀ body line number, start body → start (body.readComment line false number))
    (level : Int) : Leads limits width false start [line level text] false start :=
  Reader.leads_idle noted (newline_not_mem_row_line single width level) unseen
    ((trim_row_line width level _).trans same) fun body number => kept body _ number

theorem leads_comment {node : Node} (isComment : node.IsComment before after)
    (kept : ∀ body line number, start body → start (body.readComment line before number))
    (level : Int) :
    Leads limits width before start [Layout.commentPiece node level] after start :=
  Reader.leads_remark (isRemark_commentPiece isComment level) fun body number =>
    kept body _ number

end Piece

/-! ## Members -/

namespace Layout

open Piece (Leads)

variable {limits : Limits} {width : Int} {options : Options} {waiting inner left rest : List Char}

theorem newline_not_mem_beside {code held : Text} {comment : Option Text}
    (hides : Text.Hides code held) (noted : IsNoted comment) : '\n' ∉ beside code comment := by
  cases comment with
  | none => exact hides.tame.single
  | some note =>
    by_cases none : code = []
    · have single := (noted note rfl).single
      rw [beside, if_pos none]
      split
      · exact hides.tame.single
      · exact single
    · have single := Piece.newline_not_mem_remarked hides noted
      rw [remarked] at single
      rwa [beside, if_neg none]

theorem leads_layItems {lay : Bool → Item → Except Fault (List Piece)} {levels : Nat}
    (comments : ∀ comma before item after pieces ready, Item.IsComment before item after →
      lay comma item = .ok pieces →
      Leads limits width before (Body.Rests · waiting ready) pieces after
        (Body.Rests · waiting ready))
    (codes : ∀ comma item held pieces, Item.Bears item held → item.Fits levels →
      lay comma item = .ok pieces →
      Leads limits width false (Body.Rests · waiting true) pieces false
        (Body.Rests · waiting comma))
    {items : List Item} {pieces : List Piece} {before after : Bool} {held : Text}
    (series : Item.InSeries before items held after) (fits : ∀ item ∈ items, item.Fits levels)
    (laid : layItems lay items = .ok pieces) :
    Leads limits width before (Body.Rests · waiting (items.any Item.isMember)) pieces after
      (Body.Rests · waiting false) := by
  induction series generalizing pieces with
  | done =>
    cases laid
    exact Reader.leads_nil fun _ => id
  | comment isComment later ih =>
    simp only [layItems, bind_eq_ok] at laid
    obtain ⟨first, here, rest, there, done⟩ := laid
    cases done
    have next := (comments _ _ _ _ _ _ isComment here).append
      (ih (List.forall_mem_cons.mp fits).2 there)
    cases isComment
    exact next
  | code bearing later ih =>
    simp only [layItems, bind_eq_ok] at laid
    obtain ⟨first, here, rest, there, done⟩ := laid
    cases done
    obtain ⟨fit, fits⟩ := List.forall_mem_cons.mp fits
    have next := (codes _ _ _ _ bearing fit here).append (ih fits there)
    cases bearing with
    | member => exact next
    | group => exact next
    | plain => exact fit.elim

theorem leads_layItem_remark (room : Nat) (level : Int) (comma before : Bool) (item : Item)
    (after : Bool) (pieces : List Piece) (ready : Bool)
    (isComment : Item.IsComment before item after)
    (laid : layItem options room level comma item = .ok pieces) :
    Leads limits width before (Body.Rests · waiting ready) pieces after
      (Body.Rests · waiting ready) := by
  cases isComment with
  | remark isComment =>
    cases room <;>
    · cases laid
      exact Piece.leads_comment isComment (fun _ _ _ rests => rests.readComment ..) level

theorem leads_keptLines {nodes : List Node} {before after : Bool} {held : Text}
    (series : Node.InSeries before nodes held after)
    (lines : ∀ child ∈ nodes, child.isField = false)
    (calm : ∀ child ∈ nodes, Text.Calm child.lineCode)
    (nested : Text.nest inner (nodes.flatMap fun child => Text.brackets child.lineCode) =
      some left) (level : Node → Int) :
    Leads limits width before (Body.Counts · inner rest) (nodes.map fun child =>
      if child.kind = .comment then commentPiece child (level child)
      else .line (level child) child.content) after (Body.Counts · left rest) := by
  induction series generalizing inner with
  | done =>
    cases nested
    exact Reader.leads_nil fun _ => id
  | comment isComment later ih =>
    obtain ⟨-, lines⟩ := List.forall_mem_cons.mp lines
    obtain ⟨-, calm⟩ := List.forall_mem_cons.mp calm
    rw [List.flatMap_cons, Node.lineCode, if_pos isComment.kind] at nested
    rw [List.map_cons, if_pos isComment.kind]
    exact (Piece.leads_comment isComment (fun _ _ _ counting => counting.readComment ..) _).append
      (ih lines calm nested)
  | @code _ node nodes _ _ bearing later ih =>
    obtain ⟨noField, lines⟩ := List.forall_mem_cons.mp lines
    obtain ⟨calmHere, calm⟩ := List.forall_mem_cons.mp calm
    rw [List.flatMap_cons, Text.nest_append] at nested
    obtain ⟨between, here, there⟩ := Option.bind_eq_some_iff.mp nested
    rw [Node.lineCode, if_neg bearing.kind_ne] at here calmHere
    rw [List.map_cons, if_neg bearing.kind_ne]
    have first : Leads limits width false (Body.Counts · inner rest)
        [.line (level node) node.content] false (Body.Counts · between rest) := by
      cases bearing with
      | member isField => simp [isField] at noField
      | group spans => simp [Node.spansLines, noField] at spans
      | @line _ code held comment kind content hides noted settled filled =>
        have same := content ▸ trim_beside code comment
        have single : '\n' ∉ node.content := content ▸ newline_not_mem_beside hides noted
        rw [same, Text.code_remarked hides noted] at here calmHere
        by_cases blank : Text.isBlankText code = true
        · rw [Text.trim_of_blank blank] at here
          cases here
          exact Piece.leads_idle noted single same blank
            (fun _ _ _ counting => counting.readComment ..) _
        · exact Piece.leads_line hides noted single same calmHere (by simpa using blank)
            (fun _ _ counting => counting.readKept here) _
    exact first.append (ih lines calm there)

/-- Pieces between an opening and a closing line lead to where the group is closed. -/
theorem leads_around {body : List Piece} {header trailer first third : Text}
    {comment comment' : Option Text} {outer : List Char} {middle : Body → Prop}
    (opening : Text.Hides header first) (noted : IsNoted comment) (calm : Text.Calm header)
    (closing : Text.Hides trailer third) (noted' : IsNoted comment') (calm' : Text.Calm trailer)
    (nested : Text.nest [] (Text.brackets header) = some outer) (absent : '}' ∉ outer)
    (nested' : Text.nest outer (Text.brackets trailer) = some [])
    (inside : waiting ≠ []) (room : (waiting.count '}' : Int) < limits.depth)
    (starts : ∀ body : Body, body.Rests ('}' :: (outer ++ waiting)) true →
      ((GroupKind.ofHeader header).isStructured = false → Text.isUncut header = true →
        body.Counts [] ('}' :: (outer ++ waiting))) → middle body)
    (leads : Leads limits width false middle body false
      (Body.Rests · ('}' :: (outer ++ waiting)) false)) (level : Int) (comma : Bool) :
    Leads limits width false (Body.Rests · waiting true)
      (.line level (remarked (opener header) comment) :: body ++
        [.line level (remarked (closer trailer comma) comment')]) false
      (Body.Rests · waiting comma) := by
  have first : Leads limits width false (Body.Rests · waiting true)
      [.line level (remarked (opener header) comment)] false middle := by
    refine Piece.leads_remarked opening.opener noted calm.opener (Text.isBlankText_opener _)
      ?_ level
    intro body number rests
    obtain ⟨next, read, later, counts⟩ := rests.readOpener opening nested absent room
    exact ⟨next, read, starts next later (counts calm)⟩
  have last : Leads limits width false (Body.Rests · ('}' :: (outer ++ waiting)) false)
      [.line level (remarked (closer trailer comma) comment')] false
      (Body.Rests · waiting comma) :=
    Piece.leads_remarked (closing.closer comma) noted' (calm'.closer comma)
      (Text.isBlankText_closer ..)
      (fun _ _ rests => rests.readCloser closing absent inside nested' comma) level
  exact (first.append leads).append last

theorem count_brace_cons {outer : List Char} (absent : '}' ∉ outer) (waiting : List Char) :
    ('}' :: (outer ++ waiting)).count '}' = waiting.count '}' + 1 := by
  rw [List.count_cons_self, List.count_append, List.count_eq_zero_of_not_mem absent, Nat.zero_add]

theorem leads_member {text held : Text} {comment : Option Text} {levels : Nat}
    (hides : Text.Hides text held) (noted : IsNoted comment) (fit : Text.Fit levels text)
    (level : Int) (comma : Bool) :
    Leads limits width false (Body.Rests · waiting true)
      [.line level (remarked (withComma text comma) comment)] false
      (Body.Rests · waiting comma) := by
  by_cases blank : Text.isBlankText (withComma text comma) = true
  · have last : comma = false := by
      cases comma with
      | false => rfl
      | true =>
        rw [@Text.isBlankText_of_mem _ ',' (by simp [withComma]) (by decide)] at blank
        cases blank
    subst last
    exact (Piece.leads_idle noted (Piece.newline_not_mem_remarked hides noted) rfl blank
      (fun _ _ _ rests => rests.readComment ..) level).of_finish fun _ rests => rests.unready
  · exact Piece.leads_remarked (hides.withComma comma) noted (fit.calm.withComma comma)
      (by simpa using blank) (fun _ _ rests => rests.readMember hides fit.paired.nest comma) level

/-- The items of a group with room for the groups in it lead to where the group is closed. -/
def LeadsInside (limits : Limits) (width : Int) (options : Options) (room : Nat) (level : Int)
    (waiting : List Char) (levels : Nat) : Prop :=
  ∀ (outer : List Char) (deeper : Nat) (items : List Item) (held : Text) (body : List Piece),
    '}' ∉ outer → deeper + 1 = levels → Item.InSeries false items held false →
    (∀ item ∈ items, item.Fits deeper) →
    layItems (layItem options room (level + 1)) items = .ok body →
    Leads limits width false (Body.Rests · ('}' :: (outer ++ waiting)) true) body false
      (Body.Rests · ('}' :: (outer ++ waiting)) false)

section

variable {room levels : Nat} {level : Int} {comma : Bool} {held : Text} {pieces : List Piece}
  (within : LeadsInside limits width options room level waiting levels) (inside : waiting ≠ [])
  (deep : (waiting.count '}' + levels : Int) ≤ limits.depth)

include within inside deep

theorem leads_layItem_member {text : Text} {comment : Option Text} (hides : Text.Hides text held)
    (noted : IsNoted comment) (fit : Text.Fit levels text)
    (laid : layItem options (room + 1) level comma (.member text comment) = .ok pieces) :
    Leads limits width false (Body.Rests · waiting true) pieces false
      (Body.Rests · waiting comma) := by
  simp only [layItem] at laid
  split at laid
  · cases laid
    exact leads_member hides noted fit level comma
  · rename_i group expands
    rw [bind_eq_ok] at laid
    obtain ⟨body, laidBody, done⟩ := laid
    cases done
    have found := inlineGroup?_of_groupToExpand? expands
    obtain ⟨first, second, third, rfl, header, members, trailer⟩ :=
      Text.Hides.inlineGroup? .nil hides found
    obtain ⟨outer, before, positive, trimmed, parts⟩ := fit.inlineGroup? found
    rw [List.nil_append, Text.trim_space_cons, Text.trim_trim] at trimmed
    have leads := within outer (levels - 1) _ _ body parts.absent (by omega)
      (Item.series_members members) (Item.fits_members parts.members) laidBody
    refine leads_around header isNoted_none ?_ trailer noted parts.calmTrailer ?_ parts.absent
      parts.trailer inside (by omega) (fun _ rests _ => rests) leads level comma
    · rw [trimmed]
      exact parts.calm.trim
    · rw [trimmed, Text.brackets_trim]
      exact parts.header

theorem leads_layItem_group {node : Node} (spans : node.spansLines = true)
    (bears : node.Bears held) (fits : Item.Fits levels (.group node))
    (laid : layItem options (room + 1) level comma (.group node) = .ok pieces) :
    Leads limits width false (Body.Rests · waiting true) pieces false
      (Body.Rests · waiting comma) := by
  simp only [layItem] at laid
  cases bears with
  | member _ single => simp [single] at spans
  | line kind => simp [Node.spansLines, Node.isField, kind] at spans
  | @group _ first second third _ keeps header opening children trailer closing =>
    obtain ⟨fits, titled⟩ := fits
    cases fits with
    | comment kind => simp [Node.spansLines, Node.isField, kind] at spans
    | member _ single => simp [single] at spans
    | @group deeper _ _ fitHeader fitTrailer members lines =>
      have around := fun middle body starts leads => @leads_around limits width waiting body _ _
        first third _ _ [] middle header opening fitHeader.calm trailer closing fitTrailer.calm
        fitHeader.paired.nest List.not_mem_nil fitTrailer.paired.nest inside (by omega) starts
        leads level comma
      split at laid
      · rename_i structured
        rw [bind_eq_ok] at laid
        obtain ⟨body, laidBody, done⟩ := laid
        cases done
        exact around _ body (fun _ rests _ => rests)
          (within [] deeper _ second body List.not_mem_nil rfl (Item.series_ofChildren children)
            (Item.fits_ofChildren (members structured) titled.children) laidBody)
      · rename_i unstructured
        have unstructured : node.isStructured = false := by simpa using unstructured
        cases laid
        obtain ⟨calm, nested⟩ := lines unstructured
        obtain ⟨kind, uncut⟩ := titled.of_unstructured spans unstructured
        refine around (Body.Counts · [] ('}' :: waiting)) _ (fun _ _ counts => counts kind uncut)
          (Reader.Leads.of_finish ?_ fun _ => Body.Counts.rests)
        exact leads_keptLines children (keeps unstructured) calm nested _

end

/-- An item leads to where the next one may start, if it takes a comma. -/
theorem leads_layItem (room : Nat) :
    ∀ (waiting : List Char) (levels : Nat), waiting ≠ [] →
      (waiting.count '}' + levels : Int) ≤ limits.depth →
      ∀ (level : Int) (comma : Bool) (item : Item) (held : Text) (pieces : List Piece),
        item.Bears held → item.Fits levels → layItem options room level comma item = .ok pieces →
        Leads limits width false (Body.Rests · waiting true) pieces false
          (Body.Rests · waiting comma) := by
  induction room with
  | zero =>
    intro waiting levels inside deep level comma item held pieces bears fits laid
    cases bears with
    | member hides noted => simp [layItem] at laid
    | group spans bears => simp [layItem] at laid
    | plain hides noted => exact fits.elim
  | succ room ih =>
    intro waiting levels inside deep level comma item held pieces bears fits laid
    have within : LeadsInside limits width options room level waiting levels := by
      intro outer deeper items held body absent size series fits laid
      have deep' : (('}' :: (outer ++ waiting)).count '}' + deeper : Int) ≤ limits.depth := by
        rw [count_brace_cons absent]
        omega
      exact (leads_layItems (leads_layItem_remark room (level + 1))
        (ih _ deeper (List.cons_ne_nil _ _) deep' (level + 1)) series fits laid).of_start
        fun _ rests => rests.weaken _
    cases bears with
    | member hides noted => exact leads_layItem_member within inside deep hides noted fits laid
    | group spans bears => exact leads_layItem_group within inside deep spans bears fits laid
    | plain hides noted => exact fits.elim

end Layout

end AsnLayout
