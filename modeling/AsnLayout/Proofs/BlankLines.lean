import AsnLayout.Proofs.Canonical
import AsnLayout.Proofs.VisibleLayout

/-!
# Blank lines of a layout

A layout starts and ends with a line that is not blank, and no more than two empty lines stand
between two others.  Where no line of the source leaves a block comment open, no two blank lines
stand next to each other, and an empty line is set off at the beginning and the end of a module.
-/

set_option autoImplicit false

namespace AsnLayout

/-! ## Limited newlines -/

/-- What stands in a list around an element it does not hold stands on one side of it. -/
theorem infix_of_append_cons {α : Type} {part front back : List α} {c : α} (absent : c ∉ part)
    (within : part <:+: front ++ c :: back) : part <:+: front ∨ part <:+: back := by
  obtain ⟨before, behind, whole⟩ := within
  rw [List.append_eq_append_iff] at whole
  rcases whole with ⟨rest, rfl, -⟩ | ⟨rest, split, later⟩
  · exact .inl ⟨before, rest, rfl⟩
  cases rest with
  | nil =>
    rw [List.append_nil] at split
    exact .inl ⟨before, [], by rw [split, List.append_nil]⟩
  | cons first rest =>
    obtain ⟨rfl, rfl⟩ := List.cons_eq_cons.mp later
    rw [List.append_eq_append_iff] at split
    rcases split with ⟨middle, rfl, split⟩ | ⟨middle, rfl, split⟩
    · exact absurd (split ▸ List.mem_append_right middle (List.mem_cons_self ..)) absent
    · cases middle with
      | nil =>
        rw [List.nil_append] at split
        exact absurd (split ▸ List.mem_cons_self (a := c)) absent
      | cons first middle =>
        obtain ⟨-, rfl⟩ := List.cons_eq_cons.mp split
        exact .inr ⟨middle, behind, rfl⟩

namespace Piece

abbrev fourNewlines : Text := List.replicate 4 '\n'

theorem few_limitNewlines (t : Text) : ∀ run ≤ 3,
    ¬fourNewlines <:+: List.replicate run '\n' ++ limitNewlines run t := by
  induction t with
  | nil =>
    intro run small within
    have short := within.length_le
    simp [limitNewlines] at short
    omega
  | cons c rest ih =>
    intro run small within
    rw [limitNewlines] at within
    split at within
    · rename_i newline
      subst newline
      split at within
      · rename_i less
        refine ih (run + 1) less ?_
        rwa [List.replicate_succ', List.append_assoc, List.singleton_append]
      · exact ih run small within
    · rename_i other
      have absent : c ∉ fourNewlines := fun member => other (List.eq_of_mem_replicate member)
      rcases infix_of_append_cons absent within with before | behind
      · have short := before.length_le
        simp at short
        omega
      · exact ih 0 (Nat.zero_le 3) behind

/-! ## Trimmed rows -/

variable {width : Int} {pieces : List Piece}

theorem seen_trimRows (rows : List Text) :
    (∀ first ∈ (trimRows rows).head?, Text.isBlankText first = false) ∧
      ∀ last ∈ (trimRows rows).getLast?, Text.isBlankText last = false := by
  have trimmed : trimRows rows = (rows.dropWhile Text.isBlankText).rdropWhile Text.isBlankText := rfl
  constructor
  · intro first isFirst
    obtain ⟨later, behind⟩ := List.rdropWhile_prefix Text.isBlankText (rows.dropWhile Text.isBlankText)
    rw [← trimmed] at behind
    have starts : (rows.dropWhile Text.isBlankText).head? = some first := by
      rw [← behind, List.head?_append, isFirst]
      rfl
    have kept := List.head?_dropWhile_not Text.isBlankText rows
    rw [starts] at kept
    simpa using kept
  · intro last isLast
    have filled : trimRows rows ≠ [] := by
      intro empty
      rw [empty] at isLast
      cases isLast
    have kept := List.rdropWhile_last_not Text.isBlankText _ (trimmed ▸ filled)
    rw [List.getLast?_eq_some_getLast filled] at isLast
    cases isLast
    simpa [trimmed] using kept

theorem single_rows {blocks : Bool} (visible : ∀ piece ∈ pieces, piece.Visible blocks)
    (last : Option Text) : ∀ row ∈ rows width last pieces, '\n' ∉ row := by
  induction pieces generalizing last with
  | nil => simp [rows]
  | cons piece later ih =>
    obtain ⟨here, there⟩ := List.forall_mem_cons.mp visible
    cases piece with
    | line level text =>
      exact List.forall_mem_cons.mpr
        ⟨newline_not_mem_row_line here.single width level, ih there _⟩
    | verbatim text => exact List.forall_mem_cons.mpr ⟨here.1, ih there _⟩
    | gap =>
      cases last with
      | none => exact ih there _
      | some before =>
        rw [rows]
        split
        · exact ih there _
        · exact List.forall_mem_cons.mpr ⟨List.not_mem_nil, ih there _⟩

theorem single_trimRows {blocks : Bool} (visible : ∀ piece ∈ pieces, piece.Visible blocks) :
    ∀ row ∈ trimRows (rows width none pieces), '\n' ∉ row := by
  intro row member
  have inDropped := (List.rdropWhile_prefix _ _).subset member
  exact single_rows visible none row ((List.dropWhile_suffix _).subset inDropped)

theorem head?_limitLines {run : Nat} (small : run < 3) (rows : List Text) :
    (limitLines run rows).head? = rows.head? := by
  cases rows with
  | nil => rfl
  | cons row later =>
    cases later with
    | nil => rfl
    | cons next others =>
      rw [limitLines]
      split <;> rfl

theorem getLast?_limitLines (run : Nat) (rows : List Text) :
    (limitLines run rows).getLast? = rows.getLast? := by
  have behind : ∀ (row next : Text) (run : Nat) (others : List Text),
      (row :: limitLines run (next :: others)).getLast? = (limitLines run (next :: others)).getLast? :=
    fun row next run others => List.getLast?_cons_of_ne_nil (limitLines_ne_nil run next others)
  fun_induction limitLines run rows with
  | case1 run => rfl
  | case2 run line => rfl
  | case3 run next others small ih => rw [behind, ih, List.getLast?_cons_cons]
  | case4 run next others large ih => rw [ih, List.getLast?_cons_cons]
  | case5 run line next others filled ih => rw [behind, ih, List.getLast?_cons_cons]

theorem flatMap_lines_trimRows {blocks : Bool} (visible : ∀ piece ∈ pieces, piece.Visible blocks) :
    (trimRows (rows width none pieces)).flatMap Text.lines = trimRows (rows width none pieces) := by
  conv_rhs => rw [← List.flatMap_singleton' (trimRows (rows width none pieces))]
  refine List.flatMap_congr fun row member => Text.lines_of_not_mem ?_
  exact single_trimRows visible row member

theorem exists_lines_assemble (width : Int) {blocks : Bool}
    (visible : ∀ piece ∈ pieces, piece.Visible blocks) :
    ∃ page, Text.lines (assemble width pieces) = page ++ [[]] ∧
      (∀ first ∈ page.head?, Text.isBlankText first = false) ∧
      ∀ last ∈ page.getLast?, Text.isBlankText last = false := by
  obtain ⟨starts, ends⟩ := seen_trimRows (rows width none pieces)
  refine ⟨_, lines_assemble width pieces, ?_, ?_⟩
  · rwa [flatMap_lines_trimRows visible, head?_limitLines (by decide)]
  · rwa [flatMap_lines_trimRows visible, getLast?_limitLines]

theorem few_assemble {blocks : Bool} (visible : ∀ piece ∈ pieces, piece.Visible blocks) :
    ¬fourNewlines <:+: assemble width pieces := by
  intro within
  unfold assemble at within
  split at within
  · have short := within.length_le
    simp at short
  · rename_i filled
    rcases List.infix_concat_iff.mp within with ⟨front, ends⟩ | before
    · -- The last line is not blank, so no newline stands before the one at the end.
      have cut : limitNewlines 0 (Text.ofLines (trimRows (rows width none pieces))) =
          (front ++ ['\n', '\n']) ++ '\n' :: [] := by
        refine (@List.append_cancel_right _ _ ['\n'] _ ?_).symm
        rw [← ends]
        simp [fourNewlines, List.replicate]
      have last := congrArg List.getLast? (lines_limitNewlines
        (Text.ofLines (trimRows (rows width none pieces))))
      rw [Text.lines_ofLines _ (single_trimRows visible) filled, getLast?_limitLines, cut,
        Text.lines_append_newline, Text.lines_of_not_mem List.not_mem_nil, List.getLast?_concat] at last
      exact absurd ((seen_trimRows (rows width none pieces)).2 [] last.symm) (by decide)
    · exact few_limitNewlines _ 0 (Nat.zero_le 3) before

/-! ## Rows without block comments -/

end Piece

/-- No two blank lines stand next to each other. -/
def Text.Spaced (rows : List Text) : Prop :=
  rows.IsChain fun row next => isBlankText row = false ∨ isBlankText next = false

namespace Piece

variable {width : Int} {pieces : List Piece}

theorem seen_indented {text : Text} (seen : Text.isBlankText text = false) (level : Int) :
    Text.isBlankText (indented width level text) = false := by
  rw [indented, Text.isBlankText_append, seen, Bool.and_false]

/-- A gap never stands first, nor behind another one. -/
theorem spaced_rows (width : Int) (visible : ∀ piece ∈ pieces, piece.Visible false)
    (last : Option Text) :
    Text.Spaced (rows width last pieces) ∧ (last.getD [] = [] →
      ∀ first ∈ (rows width last pieces).head?, Text.isBlankText first = false) := by
  induction pieces generalizing last with
  | nil => exact ⟨.nil, fun _ _ isFirst => by cases isFirst⟩
  | cons piece later ih =>
    obtain ⟨here, there⟩ := List.forall_mem_cons.mp visible
    cases piece with
    | line level text =>
      have seen : Text.isBlankText (indented width level text) = false :=
        seen_indented here.seen level
      refine ⟨List.isChain_cons.mpr ⟨fun _ _ => .inl seen, (ih there _).1⟩, fun _ first isFirst => ?_⟩
      cases isFirst
      exact seen
    | verbatim text => exact absurd here.2 Bool.noConfusion
    | gap =>
      cases last with
      | none => exact ih there none
      | some before =>
        rw [rows]
        split
        · exact ih there (some before)
        · rename_i filled
          obtain ⟨spaced, starts⟩ := ih there (some [])
          refine ⟨List.isChain_cons.mpr ⟨fun next isNext => .inr (starts rfl next isNext), spaced⟩,
            fun empty => absurd empty filled⟩

def page (width : Int) (pieces : List Piece) : List Text := trimRows (rows width none pieces)

/-- Rows without block comments start with one that is not blank. -/
theorem page_eq (width : Int) (visible : ∀ piece ∈ pieces, piece.Visible false) :
    page width pieces = (rows width none pieces).rdropWhile Text.isBlankText := by
  have starts := (spaced_rows width visible none).2 rfl
  have kept : (rows width none pieces).dropWhile Text.isBlankText = rows width none pieces := by
    rw [List.dropWhile_eq_self_iff]
    intro filled
    simp [starts _ (List.head?_eq_getElem? .. ▸ List.getElem?_eq_getElem filled)]
  rw [page, trimRows, kept]
  rfl

theorem spaced_page (width : Int) (visible : ∀ piece ∈ pieces, piece.Visible false) :
    Text.Spaced (page width pieces) :=
  List.IsChain.prefix (spaced_rows width visible none).1
    (page_eq width visible ▸ List.rdropWhile_prefix ..)

theorem lines_assemble_of_visible (visible : ∀ piece ∈ pieces, piece.Visible false) :
    Text.lines (assemble width pieces) = page width pieces ++ [[]] := by
  have single : ∀ row ∈ page width pieces, '\n' ∉ row := single_trimRows visible
  have apart : (page width pieces).IsChain fun row next => row ≠ [] ∨ next ≠ [] := by
    refine (spaced_page width visible).imp fun row next seen => ?_
    have filled : ∀ {row : Text}, Text.isBlankText row = false → row ≠ [] := by
      rintro row seen rfl
      cases seen
    exact seen.imp filled filled
  unfold assemble
  split
  · rename_i none
    rw [page, none]
    rfl
  · rename_i filled
    change Text.lines (limitNewlines 0 (Text.ofLines (page width pieces)) ++ ['\n']) = _
    rw [limitNewlines_ofLines single apart (.inl (Nat.zero_le 1)), Text.lines_append_newline,
      Text.lines_ofLines _ single filled, Text.lines_of_not_mem List.not_mem_nil]

theorem exists_page (visible : ∀ piece ∈ pieces, piece.Visible false) {early later : List Text}
    {row : Text} (cut : rows width none pieces = early ++ row :: later)
    (seen : Text.isBlankText row = false) :
    ∃ late, page width pieces = early ++ row :: late ∧ late <+: later := by
  rw [page_eq width visible, cut, rdropWhile_append_of_not Text.isBlankText seen]
  exact ⟨_, rfl, List.rdropWhile_prefix ..⟩

/-! ## Lines that are set off -/

/-- A gap is the last row, unless nothing stands before it. -/
theorem rows_concat_gap (width : Int) (last : Option Text) (pieces : List Piece) :
    (rows width last (pieces ++ [.gap]) = [] ∧ last.getD [] = []) ∨
      ∃ others, rows width last (pieces ++ [.gap]) = others ++ [[]] := by
  have behind : ∀ (row : Text) (later : List Piece),
      (rows width (some row) (later ++ [.gap]) = [] ∧ row = []) ∨
        (∃ others, rows width (some row) (later ++ [.gap]) = others ++ [[]]) →
      ∃ others, row :: rows width (some row) (later ++ [.gap]) = others ++ [[]] := by
    rintro row later (⟨none, rfl⟩ | ⟨others, found⟩)
    · exact ⟨[], by rw [none]; rfl⟩
    · exact ⟨row :: others, by rw [found]; rfl⟩
  induction pieces generalizing last with
  | nil =>
    cases last with
    | none => exact .inl ⟨rfl, rfl⟩
    | some row =>
      by_cases empty : row = []
      · exact .inl ⟨by simp [rows, empty], empty⟩
      · exact .inr ⟨[], by simp [rows, empty]⟩
  | cons piece later ih =>
    cases piece with
    | line level text => exact .inr (behind _ later (ih (some _)))
    | verbatim text => exact .inr (behind _ later (ih (some _)))
    | gap =>
      cases last with
      | none => exact ih none
      | some row =>
        simp only [List.cons_append, rows]
        split
        · exact ih (some row)
        · exact .inr (behind [] later (ih (some [])))

end Piece

namespace Text

/-- Behind a line stand one empty line and another that is not blank, unless nothing does. -/
def SetOff (later : List Text) : Prop :=
  ∀ first ∈ later.head?, first = [] ∧ ∃ next ∈ later.tail.head?, isBlankText next = false

theorem Spaced.reverse {rows : List Text} (spaced : Spaced rows) : Spaced rows.reverse :=
  List.isChain_reverse.mpr (spaced.imp fun _ _ seen => seen.symm)

theorem Spaced.setOff {rows others : List Text} (spaced : Spaced rows) (early : List Text)
    (ends : ∀ last ∈ rows.getLast?, isBlankText last = false) (cut : rows = early ++ [] :: others) :
    SetOff ([] :: others) := by
  subst cut
  intro first isFirst
  cases isFirst
  refine ⟨rfl, ?_⟩
  cases others with
  | nil => exact absurd (ends [] (by simp)) (by decide)
  | cons next others =>
    obtain ⟨seen, -⟩ := List.isChain_cons_cons.mp (List.isChain_append.mp spaced).2.1
    exact ⟨next, rfl, seen.resolve_left (by decide)⟩

end Text

namespace Piece

variable {width level : Int} {pieces ahead after : List Piece} {text : Text}

theorem setOff_behind (visible : ∀ piece ∈ pieces, piece.Visible false)
    (split : pieces = ahead ++ .line level text :: .gap :: after) :
    ∃ late, page width pieces = rows width none ahead ++ indented width level text :: late ∧
      Text.SetOff late := by
  have seen : Text.isBlankText (indented width level text) = false :=
    seen_indented (visible (.line level text) (by simp [split])).seen level
  have filled : indented width level text ≠ [] := by
    intro empty
    rw [empty] at seen
    cases seen
  obtain ⟨last, cut⟩ := rows_append width none ahead (.line level text :: .gap :: after)
  rw [← split, rows, rows, if_neg filled] at cut
  obtain ⟨late, kept, behind⟩ := exists_page visible cut seen
  refine ⟨late, kept, ?_⟩
  cases late with
  | nil => exact fun first isFirst => by cases isFirst
  | cons first others =>
    obtain ⟨rfl, -⟩ := List.cons_prefix_cons.mp behind
    refine (spaced_page width visible).setOff
      (rows width none ahead ++ [indented width level text]) (seen_trimRows _).2 ?_
    rw [kept, List.append_assoc, List.singleton_append]

theorem setOff_before (visible : ∀ piece ∈ pieces, piece.Visible false)
    (split : pieces = ahead ++ .gap :: .line level text :: after) :
    ∃ late, page width pieces =
        rows width none (ahead ++ [.gap]) ++ indented width level text :: late ∧
      Text.SetOff (rows width none (ahead ++ [.gap])).reverse := by
  have seen : Text.isBlankText (indented width level text) = false :=
    seen_indented (visible (.line level text) (by simp [split])).seen level
  obtain ⟨last, cut⟩ := rows_append width none (ahead ++ [.gap]) (.line level text :: after)
  rw [List.append_assoc, List.singleton_append, ← split, rows] at cut
  obtain ⟨late, kept, -⟩ := exists_page visible cut seen
  refine ⟨late, kept, ?_⟩
  rcases rows_concat_gap width none ahead with ⟨none, -⟩ | ⟨others, found⟩
  · rw [none]
    exact fun first isFirst => by cases isFirst
  · -- Read backwards, the gap stands behind the line.
    rw [found, List.reverse_append, List.reverse_singleton, List.singleton_append]
    rw [found] at kept
    refine (spaced_page width visible).reverse.setOff
      (late.reverse ++ [indented width level text]) ?_ ?_
    · rw [List.getLast?_reverse]
      exact (seen_trimRows _).1
    · simp [kept]

end Piece

/-! ## The beginnings of modules -/

namespace Node

def beginsBody (node : Node) : Bool :=
  node.kind = .blockBegin || (node.kind = .moduleHeader && node.endsWithBegin)

def row (node : Node) (width : Int) : Text := Piece.indented width node.level node.content

end Node

namespace Reader

open Reading

variable {limits : Limits}

theorem endsWith_of_codeKind {code : Text} (kind : Text.codeKind code = .blockBegin) :
    Text.endsWith code Text.beginWord = true := by
  unfold Text.codeKind at kind
  split at kind
  · cases kind
  split at kind
  · rename_i opens
    obtain ⟨front, rfl, -⟩ := (Text.endsWithWord_iff _ _).mp opens
    exact List.isSuffixOf_iff_suffix.mpr (List.suffix_append ..)
  · split at kind
    · cases kind
    split at kind
    · cases kind
    split at kind <;> cases kind

theorem endsWithBegin_lineItem {reader after : Reader} {number : Nat} {line : Text} {node : Node}
    (item : reader.lineItem number line = (node, after)) (begins : node.kind = .blockBegin) :
    node.endsWithBegin = true := by
  unfold lineItem at item
  simp only at item
  split at item
  · cases item
    cases begins
  · split at item <;>
    · cases item
      cases begins
  · rename_i kind
    cases item
    change Text.endsWith (Text.codeLine (Text.neatLine (Text.trim line))).code Text.beginWord = true
    rw [Text.endsWith_neatLine]
    exact endsWith_of_codeKind (kind_code kind (by decide))
  · cases item
    cases begins
  · cases item
    cases begins

theorem endsWithBegin_itemsRun {before after : Reader} {number skip : Nat} {lines : List Text}
    {nodes : List Node} (run : ItemsRun limits before number skip lines nodes after)
    (none : before.setAside = []) :
    ∀ node ∈ nodes, node.kind = .blockBegin → node.endsWithBegin = true := by
  induction run with
  | done reader number skip => simp
  | skip later ih => exact ih none
  | item read later ih =>
    obtain ⟨-, -, notes⟩ := readsItem_readItem read none
    refine OpenGroup.forall_mem_append (fun child member begins => ?_)
      (List.forall_mem_cons.mpr ⟨fun begins => ?_, ih rfl⟩)
    · rw [(notes child member).kind] at begins
      cases begins
    rw [yields_readItem] at read
    obtain ⟨-, read⟩ := read
    split at read
    · have defines := (isDefinition_readDefinition read none).1.kind
      rw [defines] at begins
      cases begins
    · exact endsWithBegin_lineItem read.1 begins

end Reader

/-! ## Layouts -/

namespace Layout

variable {options : Options} {node : Node} {pieces : List Piece}

theorem layNode_of_beginsBody (begins : node.beginsBody = true)
    (word : node.kind = .blockBegin → node.endsWithBegin = true)
    (laid : layNode options node = .ok pieces) :
    pieces = [.line node.level node.content, .gap] := by
  have ends : node.endsWithBegin = true := by
    simp only [Node.beginsBody, Bool.or_eq_true, Bool.and_eq_true, decide_eq_true_eq] at begins
    exact begins.elim word And.right
  have kind : node.kind = .moduleHeader ∨ node.kind = .blockBegin := by
    simp only [Node.beginsBody, Bool.or_eq_true, Bool.and_eq_true, decide_eq_true_eq] at begins
    exact begins.symm.imp And.left id
  rw [Node.endsWithBegin] at ends
  rcases kind with kind | kind <;>
  · simp only [layNode, kind, ends, if_true] at laid
    cases laid
    rfl

theorem layNode_of_blockEnd (kind : node.kind = .blockEnd)
    (laid : layNode options node = .ok pieces) :
    pieces = [.gap, .line node.level node.content] := by
  simp only [layNode, kind] at laid
  cases laid
  rfl

end Layout

/-- A layout is empty, or starts and ends with a line that is not blank and has one newline behind
it; no four newlines stand in a row.  Without block comments, no two blank lines stand next to each
other, one stands behind each line that begins the body of a module, and one before each that ends
it. -/
theorem blankLines_toText {text : Text} {options : Options} {root : Node} {out : Text}
    (read : Node.ofText text options = .ok root) (laid : root.toText options = .ok out) :
    ∃ page : List Text, Text.lines out = page ++ [[]] ∧
      (∀ first ∈ page.head?, Text.isBlankText first = false) ∧
      (∀ last ∈ page.getLast?, Text.isBlankText last = false) ∧
      ¬Piece.fourNewlines <:+: out ∧
      ((∀ line ∈ Text.lines text, Text.leavesBlockOpen line = false) →
        Text.Spaced page ∧
        ∀ before node after, root.children = before ++ node :: after →
          ∃ ahead, Layout.layNodes options before = .ok ahead ∧
            (node.beginsBody = true → ∃ late,
              page = Piece.rows options.indentWidth none ahead ++
                node.row options.indentWidth :: late ∧ Text.SetOff late) ∧
            (node.kind = .blockEnd → ∃ late,
              page = Piece.rows options.indentWidth none (ahead ++ [.gap]) ++
                node.row options.indentWidth :: late ∧
              Text.SetOff (Piece.rows options.indentWidth none (ahead ++ [.gap])).reverse)) := by
  obtain ⟨nodes, reader, run, rfl⟩ := (Reader.ofText_eq_ok text options root).mp read
  simp only [Node.toText, bind_eq_ok] at laid
  obtain ⟨pieces, laidNodes, done⟩ := laid
  cases done
  have anyVisible := Layout.visible_layNodes
    (isShown_ofText true read (fun blocks => Bool.noConfusion blocks)) laidNodes
  obtain ⟨page, whole, starts, ends⟩ :=
    Piece.exists_lines_assemble options.indentWidth anyVisible
  refine ⟨page, whole, starts, ends, Piece.few_assemble anyVisible, fun outside => ?_⟩
  have visible := Layout.visible_layNodes (isShown_ofText false read fun _ => outside) laidNodes
  have same : page = Piece.page options.indentWidth pieces :=
    List.append_cancel_right (whole.symm.trans (Piece.lines_assemble_of_visible visible))
  subst same
  refine ⟨Piece.spaced_page _ visible, fun before node after cut => ?_⟩
  change nodes = before ++ node :: after at cut
  have member : node ∈ nodes := by simp [cut]
  have word := Reader.endsWithBegin_itemsRun run rfl node member
  rw [cut] at laidNodes
  obtain ⟨ahead, lower, laidAhead, laidLower, rfl⟩ := Layout.layNodes_append laidNodes
  simp only [Layout.layNodes, bind_eq_ok] at laidLower
  obtain ⟨here, laidNode, rest, -, done⟩ := laidLower
  cases done
  refine ⟨ahead, laidAhead, fun begins => ?_, fun kind => ?_⟩
  · exact Piece.setOff_behind visible
      (by rw [Layout.layNode_of_beginsBody begins word laidNode]; rfl)
  · exact Piece.setOff_before visible (by rw [Layout.layNode_of_blockEnd kind laidNode]; rfl)

/-- One blank line stands behind the line that begins a module, and one before the line that ends
it, however many stand in the source. -/
theorem blankLines_toText_module :
    let source : Text := "M DEFINITIONS ::=\nBEGIN\n\n\nA ::= B\nEND\n\nC ::= D".toList
    ∃ root out before node after ahead late, Node.ofText source {} = .ok root ∧
      root.toText {} = .ok out ∧ root.children = before ++ node :: after ∧
      Layout.layNodes {} before = .ok ahead ∧
      Text.lines out = Piece.rows 2 none ahead ++ "BEGIN".toList :: late ++ [[]] ∧
      Text.SetOff late := by
  intro source
  have success : (do (← Node.ofText source {}).toText {}).toOption.isSome = true := by decide +kernel
  have begins : ((Node.ofText source {}).toOption.any fun root =>
      root.children[1]?.any fun node =>
        node.beginsBody && node.row 2 = "BEGIN".toList) = true := by decide +kernel
  cases read : Node.ofText source {} with
  | error fault =>
    rw [read] at success
    cases success
  | ok root =>
    cases laid : root.toText {} with
    | error fault =>
      simp [read, laid, bind, Except.bind, Except.toOption] at success
    | ok out =>
      obtain ⟨page, whole, -, -, -, policy⟩ := blankLines_toText read laid
      obtain ⟨-, setOff⟩ := policy (by decide +kernel)
      simp only [read, Except.toOption, Option.any_some, Option.any_eq_true, Bool.and_eq_true,
        decide_eq_true_eq] at begins
      obtain ⟨node, isSecond, begins, isRow⟩ := begins
      obtain ⟨before, after, split⟩ := List.mem_iff_append.mp (List.mem_of_getElem? isSecond)
      obtain ⟨ahead, laidBefore, behind, -⟩ := setOff before node after split
      obtain ⟨late, rfl, apart⟩ := behind begins
      refine ⟨root, out, before, node, after, ahead, late, rfl, laid, split, laidBefore, ?_, apart⟩
      rw [whole, ← isRow]

end AsnLayout
