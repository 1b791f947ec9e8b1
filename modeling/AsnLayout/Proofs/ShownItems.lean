import AsnLayout.Proofs.KeptRows
import AsnLayout.Proofs.MemberLists

/-!
# Items that are shown again

The rows that an item is laid out on are read as the item again, or as one with the same layout: a
member whose group was wrapped comes back as a member with a group of several lines.  In a group that
keeps its lines the rows come back as lines, at the levels that their brackets ask for.
-/

set_option autoImplicit false

namespace AsnLayout

/-! ## Tidy texts -/

namespace Text

/-- A neat text of code with its brackets paired, which is cut at no comma and holds no sign of the
frame of a module. -/
structure Tidy (t : Text) : Prop where
  hides : ∃ held, Hides t held
  neat : IsNeat t
  calm : Calm t
  paired : nest [] (brackets t) = some []
  uncut : isUncut t = true

variable {t front back : Text}

theorem Tidy.closed (tidy : Tidy t) : (Quoting.after {} t).inside = false := by
  obtain ⟨held, hides⟩ := tidy.hides
  exact hides.tame.closed

theorem IsMemberText.tidy (isMember : t.IsMemberText) {held : Text} (hides : Hides t held)
    {levels : Nat} (fit : Fit levels t) : Tidy t :=
  ⟨⟨held, hides⟩, isNeat_of_neat (neat_of_memberForm isMember.form).1 fit.calm, fit.calm,
    fit.paired.nest, isMember.uncut⟩

theorem isMemberText_members (t : Text) : ∀ part ∈ members t, part.IsMemberText := by
  intro part member
  obtain ⟨form, kept⟩ := form_of_mem_members member
  simp only [isMember, Bool.and_eq_true, decide_eq_true_eq] at kept
  exact ⟨kept.1.1, form, (listed_members t).isUncut part member⟩

theorem openAfter_signs (q : Quoting) (depth : Nat) (t : Text) :
    openAfter depth (q.signs isDivider t) = openAfter depth (q.brackets t) := by
  induction t generalizing q depth with
  | nil => rfl
  | cons c rest ih =>
    rw [Quoting.signs_cons, Quoting.brackets_cons, openAfter_append, openAfter_append, ih]
    congr 1
    cases q.exposes c with
    | false => rfl
    | true => rw [Bool.true_and, Bool.true_and, openAfter_sign, openAfter_bracket]

theorem isUncut_front (uncut : isUncut (front ++ back) = true) : isUncut front = true := by
  rw [isUncut, signs, Quoting.signs_append, commasInside_append, Bool.and_eq_true] at uncut
  exact uncut.1

theorem isUncut_behind {c : Char} (uncut : isUncut (front ++ c :: back) = true)
    (shown : (Quoting.after {} front).exposes c = true) (plain : c ≠ '\\')
    (settled : openAfter 0 (brackets (front ++ [c])) = 0) : isUncut back = true := by
  have count : openAfter 0 (signs isDivider (front ++ [c])) = 0 :=
    (openAfter_signs {} 0 (front ++ [c])).trans settled
  rw [isUncut, signs_cut shown plain, ← List.append_assoc, ← signs_snoc shown, commasInside_append,
    Bool.and_eq_true, count] at uncut
  exact uncut.2

theorem isUncut_trim (t : Text) : isUncut (trim t) = isUncut t :=
  congrArg (commasInside 0) (signs_trim tellsApart_isDivider t)

theorem getLast?_trim_behind (trimmed : trim (front ++ back) = front ++ back)
    (ends : (front ++ back).getLast? ≠ some ',') : (trim back).getLast? ≠ some ',' := by
  rcases List.eq_nil_or_concat back with rfl | ⟨later, d, rfl⟩
  · exact fun none => by cases none
  · have last : (front ++ later.concat d).getLast? = some d := by simp
    have solid := ends_of_trimmed trimmed d last
    rw [List.concat_eq_append, trim_append_solid solid, List.getLast?_concat]
    rwa [last] at ends

theorem IsNeat.inlineGroup? {group : Layout.InlineGroup} (isNeat : IsNeat t)
    (found : Layout.inlineGroup? [] t = some group) : IsNeat group.header ∧ IsNeat group.trailer := by
  obtain ⟨before, inside, after, rfl, opens, closes, header, -, trailer⟩ :=
    Layout.inlineGroup?_eq_some _ _ _ found
  obtain ⟨shown, -⟩ := findExposed?_brace_eq_some.mp opens
  have behind : (Quoting.after {} (before ++ '{' :: inside)).exposes '}' = true := by
    rw [Quoting.after_append, Quoting.after_cons, Quoting.next_of_exposes shown (by decide)]
    exact exposes_of_groupEnd? closes
  have whole : before ++ '{' :: (inside ++ '}' :: after) = (before ++ '{' :: inside) ++ '}' :: after := by
    simp
  rw [header, trailer, List.nil_append, trim_space_cons, trim_trim]
  refine ⟨(isNeat.cut shown (by decide)).1, ?_⟩
  rw [whole] at isNeat
  exact .trim (isNeat.cut behind (by decide)).2

theorem Tidy.inlineGroup? {group : Layout.InlineGroup} (tidy : Tidy t)
    (form : memberForm t = t) {levels : Nat} (fit : Fit levels t)
    (found : Layout.inlineGroup? [] t = some group)
    (upright : nest [] (brackets group.header) = some []) :
    group.header.Tidy ∧ group.trailer.Tidy ∧ memberForm group.trailer = group.trailer := by
  obtain ⟨held, hides⟩ := tidy.hides
  obtain ⟨first, second, third, -, headerHides, -, trailerHides⟩ := Hides.inlineGroup? .nil hides found
  obtain ⟨outer, before', -, header', parts⟩ := fit.inlineGroup? found
  obtain ⟨neatHeader, neatTrailer⟩ := tidy.neat.inlineGroup? found
  obtain ⟨before, inside, after, rfl, opens, closes, header, -, trailer⟩ :=
    Layout.inlineGroup?_eq_some _ _ _ found
  obtain ⟨shown, -⟩ := findExposed?_brace_eq_some.mp opens
  have shown' := exposes_of_groupEnd? closes
  rw [List.nil_append, trim_space_cons, trim_trim] at header header'
  have behind : (Quoting.after {} (before ++ '{' :: inside)).exposes '}' = true := by
    rwa [Quoting.after_append, Quoting.after_cons, Quoting.next_of_exposes shown (by decide)]
  have whole : before ++ '{' :: (inside ++ '}' :: after) = (before ++ '{' :: inside) ++ '}' :: after := by
    simp
  -- The header is paired, so no bracket is open behind the group.
  obtain ⟨outer', early, -, late, -, within⟩ := fit.paired.group opens closes
  rw [header, brackets_trim, early, Option.some.injEq] at upright
  subst upright
  have settled : openAfter 0 (brackets ((before ++ '{' :: inside) ++ ['}'])) = 0 := by
    have nested : nest [] (brackets ((before ++ '{' :: inside) ++ ['}'])) = some [] := by
      have inner : nest ['}'] (brackets inside) = some ['}'] := nest_frame within.nest
      rw [brackets_cut behind (by decide), brackets_cut shown (by decide), nest_append, nest_append,
        early, Option.bind_some, nest_append]
      change (Option.bind (nest ['}'] (brackets inside)) _) = _
      rw [inner]
      rfl
    exact openAfter_of_nest nested
  refine ⟨⟨⟨_, headerHides⟩, neatHeader, ?_, ?_, ?_⟩,
    ⟨⟨_, trailerHides⟩, neatTrailer, parts.calmTrailer, ?_, ?_⟩, ?_⟩
  · rw [header']
    exact parts.calm.trim
  · rw [header, brackets_trim, early]
  · rw [header, isUncut_trim]
    exact isUncut_front tidy.uncut
  · rw [trailer, brackets_trim, late]
  · rw [trailer, isUncut_trim]
    exact isUncut_behind (whole ▸ tidy.uncut) behind (by decide) settled
  · obtain ⟨-, ends⟩ := neat_of_memberForm form
    rw [trailer]
    refine memberForm_eq_self (trailer ▸ neatTrailer) ?_
    have cut : before ++ '{' :: (inside ++ '}' :: after) =
        (before ++ '{' :: (inside ++ ['}'])) ++ after := by simp
    exact getLast?_trim_behind (cut ▸ tidy.neat.trimmed) (cut ▸ ends)

theorem closersAtStart_of_paired (trimmed : trim t = t) (paired : nest [] (brackets t) = some [])
    {later : Text} (none : closersAtStart later = 0) : closersAtStart (t ++ later) = 0 := by
  by_cases empty : t = []
  · rwa [empty]
  obtain ⟨d, rest, rfl, solid⟩ := exists_cons_of_trimmed trimmed empty
  have noCloser : d ≠ '}' := by
    rintro rfl
    rw [show brackets ('}' :: rest) = '}' :: brackets rest from
      @brackets_cut '}' [] rest rfl (by decide)] at paired
    cases paired
  have noBlank : (d = ' ' || d = '\t') = false := by
    rw [Bool.eq_false_iff]
    intro blank
    simp only [Bool.or_eq_true, decide_eq_true_eq] at blank
    rcases blank with rfl | rfl <;> cases solid
  rw [List.cons_append, closersAtStart, if_neg noCloser, noBlank]
  rfl

namespace Tidy

theorem closersAtStart_withComma (tidy : Tidy t) (comma : Bool) :
    closersAtStart (Layout.withComma t comma) = 0 := by
  cases comma with
  | false =>
    have none := closersAtStart_of_paired tidy.neat.trimmed tidy.paired
      (show closersAtStart [] = 0 from rfl)
    rwa [List.append_nil] at none
  | true => exact closersAtStart_of_paired tidy.neat.trimmed tidy.paired rfl

theorem closersAtStart_opener (tidy : Tidy t) : closersAtStart (Layout.opener t) = 0 := by
  unfold Layout.opener
  split
  · rfl
  · exact closersAtStart_of_paired tidy.neat.trimmed tidy.paired rfl

theorem closersAtStart_closer (tidy : Tidy t) (comma : Bool) :
    closersAtStart (Layout.closer t comma) = 1 := by
  have none := tidy.closersAtStart_withComma comma
  rw [Layout.closer]
  split
  · cases comma <;> rfl
  · cases comma with
    | false =>
      rw [Layout.withComma, if_neg (by simp)] at none ⊢
      simp [closersAtStart, none]
    | true =>
      rw [Layout.withComma, if_pos rfl] at none ⊢
      simp [closersAtStart, none]

theorem nest (tidy : Tidy t) (inner : List Char) : Text.nest inner (brackets t) = some inner :=
  @nest_frame [] [] inner _ tidy.paired

theorem brackets_withComma (tidy : Tidy t) (comma : Bool) :
    brackets (Layout.withComma t comma) = brackets t := by
  cases comma with
  | false => rfl
  | true =>
    rw [Layout.withComma, if_pos rfl, brackets_cut (exposes_of_closed tidy.closed (by decide))
      (by decide)]
    exact List.append_nil _

theorem brackets_opener (tidy : Tidy t) : brackets (Layout.opener t) = brackets t ++ ['{'] := by
  unfold Layout.opener
  split
  · rename_i empty
    rw [empty]
    rfl
  · exact signs_blank tellsApart_isBracket tidy.closed (by decide)

theorem brackets_closer (tidy : Tidy t) (comma : Bool) :
    brackets (Layout.closer t comma) = '}' :: brackets t := by
  have brace : ∀ back, brackets ('}' :: back) = '}' :: brackets back :=
    fun back => @brackets_cut '}' [] back rfl (by decide)
  have whole : Layout.closer t comma =
      '}' :: Layout.withComma (if t = [] then [] else ' ' :: t) comma := by
    rw [Layout.closer]
    split <;> cases comma <;> rfl
  rw [whole, brace]
  refine congrArg _ (Eq.trans ?_ (tidy.brackets_withComma comma))
  split
  · rename_i empty
    rw [empty]
  · have spaced : ∀ back, brackets (' ' :: back) = brackets back :=
      fun back => @signs_blank _ tellsApart_isBracket ' ' [] back rfl (by decide)
    cases comma <;> exact spaced _

end Tidy

end Text

/-! ## Groups in groups -/

namespace Layout

variable {options : Options} {room : Nat} {level : Int}

/-- The pieces between the lines that open and close the group of a node. -/
def layGroup (options : Options) (room : Nat) (level : Int) (node : Node) :
    Except Fault (List Piece) :=
  if node.isStructured then
    layItems (layItem options room (level + 1)) (node.children.flatMap Item.ofChild)
  else pure (keptLines node (level + 1))

/-- A member with a group of several lines is laid out around what is laid out of the group. -/
theorem layItem_group {comma : Bool} {node : Node} {pieces : List Piece} :
    layItem options (room + 1) level comma (.group node) = .ok pieces ↔
      ∃ made, layGroup options room level node = .ok made ∧ pieces =
        .line level (remarked (opener (node.header.getD [])) node.openingComment) :: made ++
          [.line level (remarked (closer node.trailer comma) node.closingComment)] := by
  have whole : layItem options (room + 1) level comma (.group node) =
      (layGroup options room level node >>= fun made => .ok
        (.line level (remarked (opener (node.header.getD [])) node.openingComment) :: made ++
          [.line level (remarked (closer node.trailer comma) node.closingComment)])) := by
    rw [layItem, layGroup]
    split <;> rfl
  rw [whole, bind_eq_ok]
  exact exists_congr fun made =>
    and_congr_right fun _ => ⟨fun same => by cases same; rfl, fun same => by rw [same]⟩

end Layout

namespace Body

open Layout

variable {options : Options} {room : Nat} {level : Int} {below : List OpenGroup} {frame : Node}
  {more : Bool} {shown : List Piece} {body : Body}

/-- A body whose innermost group shows the given pieces below a line of a level, as a structured group
does or as one that keeps its lines. -/
def Displays (options : Options) (room : Nat) (level : Int) (below : List OpenGroup) (frame : Node)
    (more : Bool) (shown : List Piece) (body : Body) : Prop :=
  if frame.isStructured then body.Stands (layItem options room (level + 1)) below frame more shown
  else body.Retains below frame (level + 1) [] shown

theorem displays_begin (bare : frame.children = []) (options : Options) (room : Nat) (level : Int)
    (below : List OpenGroup) (more : Bool) (anchor : Anchor) :
    Displays options room level below frame more [] ⟨{ node := frame }, below, anchor⟩ := by
  have same : { frame with children := [] } = frame := by
    cases frame
    cases bare
    rfl
  unfold Displays
  split
  · rename_i structured
    refine ⟨rfl, structured, rfl, same, fun _ => ⟨rfl, rfl⟩, fun _ => ⟨rfl, rfl⟩, fun number => ?_⟩
    rw [OpenGroup.children_endMember_of_fresh rfl rfl rfl rfl, bare]
    rfl
  · rename_i unstructured
    refine ⟨rfl, eq_false_of_ne_true unstructured, rfl, rfl, same, ?_⟩
    rw [keptLines, bare]
    rfl

theorem Stands.close {lay : Bool → Item → Except Fault (List Piece)}
    (stands : body.Stands lay below frame false shown) (number : Nat) :
    ∃ children, (body.startLine.top.close number).node = { frame with children } ∧
      layItems lay (children.flatMap Item.ofChild) = .ok shown ∧ body.top.brackets = 0 := by
  obtain ⟨-, shows⟩ := stands
  have begun : body.startLine.top.Shows lay frame false shown := by
    refine shows.of_same rfl ?_ ?_ (fun empty => ?_) shows.settled rfl rfl rfl
    · unfold startLine
      simp only
      split
      · rw [Text.memberForm, Text.neat_concat_space]
        rfl
      · rfl
    · unfold startLine
      simp only
      split
      · rw [Text.isBlankText_append]
        exact Bool.and_true _
      · rfl
    · simp [startLine, empty]
  refine ⟨(body.startLine.top.endMember number).node.children, ?_, ?_, shows.settled⟩
  · rw [OpenGroup.close, if_pos begun.structured, ← begun.frame, OpenGroup.endMember_eq]
  · rw [← layUpTo_false]
    exact begun.lays number

theorem Displays.close (displays : body.Displays options room level below frame false shown)
    (number : Nat) :
    ∃ children, (body.startLine.top.close number).node = { frame with children } ∧
      layGroup options room level { frame with children } = .ok shown ∧
      body.below = below ∧ body.top.brackets = 0 := by
  unfold Displays at displays
  split at displays
  · rename_i structured
    obtain ⟨children, node, laid, settled⟩ := displays.close number
    exact ⟨children, node, (if_pos structured).trans laid, displays.below, settled⟩
  · rename_i unstructured
    obtain ⟨children, node, kept, settled⟩ := displays.close number
    refine ⟨children, node, (if_neg unstructured).trans ?_, displays.below, settled⟩
    rw [kept]
    rfl

end Body

namespace Reader

/-- Rows that lead on from any state of a family lead on from all of them. -/
theorem leads_exists {α : Sort*} {limits : Limits} {before after : Bool} {rows : List Text}
    {start finish : α → Body → Prop}
    (leads : ∀ a, Leads limits before (start a) rows after (finish a)) :
    Leads limits before (fun body => ∃ a, start a body) rows after
      (fun body => ∃ a, finish a body) := by
  rintro reader body number block ⟨a, begins⟩ room
  obtain ⟨reader', body', block', count, ends, onward⟩ := leads a reader body number block begins room
  exact ⟨reader', body', block', count, ⟨a, ends⟩, onward⟩

end Reader

namespace Layout

open Piece (Builds)

variable {limits : Limits} {width : Int} {options : Options} {room : Nat} {level : Int}
  {comma more : Bool} {below : List OpenGroup} {frame : Node} {header trailer : Text}
  {comment comment' : Option Text} {body : List Piece}

/-- The node of a group that a row opens below others, and the group around it. -/
structure Inner where
  outer : OpenGroup
  level : Int
  number : Nat

theorem builds_around (opening : header.Tidy) (noted : IsNoted comment) (closing : trailer.Tidy)
    (form : Text.memberForm trailer = trailer) (noted' : IsNoted comment')
    (deep : (below.length + 1 : Int) < limits.depth)
    (inside : ∀ inner : Inner, Builds limits width false
      (Body.Displays options room level (inner.outer :: below)
        (Body.innerNode inner.level header comment inner.number) more) body false
      (Body.Displays options room level (inner.outer :: below)
        (Body.innerNode inner.level header comment inner.number) false)) :
    Builds limits width false (Body.Stands (layItem options (room + 1) level) below frame true)
      (.line level (remarked (opener header) comment) :: body ++
        [.line level (remarked (closer trailer comma) comment')]) false
      (Body.Stands (layItem options (room + 1) level) below frame comma) := by
  intro run shown
  obtain ⟨held, hides⟩ := opening.hides
  obtain ⟨held', hides'⟩ := closing.hides
  rw [List.cons_append, Piece.settle_line, Piece.settle_append]
  let opened (inside : List Piece) (more : Bool) (inner : Inner) (state : Body) : Prop :=
    inner.outer.Shows (layItem options (room + 1) level) frame true shown ∧
      state.Displays options room level (inner.outer :: below)
        (Body.innerNode inner.level header comment inner.number) more inside
  have first : Piece.Leads limits width false
      (Body.Stands (layItem options (room + 1) level) below frame true shown)
      [.line level (remarked (opener header) comment)] false
      (fun state => ∃ inner, opened [] more inner state) := by
    refine Piece.leads_remarked hides.opener noted opening.calm.opener (Text.isBlankText_opener _)
      (fun state number stands => ?_) level
    rw [(opening.neat.opener opening.closed).trimmed]
    obtain rfl := stands.below
    obtain ⟨outer, level', shows, read⟩ := @Body.Stands.readOpener limits.depth comment number state
      _ _ _ _ _ stands opening.neat.neat opening.uncut opening.closed opening.paired deep
    exact ⟨_, read, ⟨outer, level', number⟩, shows, Body.displays_begin rfl ..⟩
  have middle : Piece.Leads limits width false (fun state => ∃ inner, opened [] more inner state)
      (Piece.settle 0 body) false
      (fun state => ∃ inner, opened (Piece.settle 0 body) false inner state) :=
    Reader.leads_exists fun inner reader state number block ⟨shows, begins⟩ room => by
      obtain ⟨reader', state', block', count, ends, onward⟩ :=
        inside inner 0 [] reader state number block begins room
      exact ⟨reader', state', block', count, ⟨shows, ends⟩, onward⟩
  have last : Piece.Leads limits width false
      (fun state => ∃ inner, opened (Piece.settle 0 body) false inner state)
      [.line level (remarked (closer trailer comma) comment')] false
      (Body.Stands (layItem options (room + 1) level) below frame comma (shown ++
        (.line level (remarked (opener header) comment) :: Piece.settle 0 body ++
          [.line level (remarked (closer trailer comma) comment')]))) := by
    refine Piece.leads_remarked (hides'.closer comma) noted' (closing.calm.closer comma)
      (Text.isBlankText_closer ..) (fun state number displayed => ?_) level
    rw [(closing.neat.closer closing.closed comma).trimmed]
    obtain ⟨inner, shows, displays⟩ := displayed
    obtain ⟨children, node, laid, around, settled⟩ := displays.close number
    refine Body.Stands.of_closer shows around settled node rfl rfl ?_ form closing.uncut
      closing.closed closing.paired
    exact layItem_group.mpr ⟨_, laid, rfl⟩
  have rows := (Reader.Leads.append first middle).append last
  rw [← List.map_append, ← List.map_append] at rows
  exact rows

end Layout

end AsnLayout
