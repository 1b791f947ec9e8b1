import AsnLayout.Proofs.BlankLines

/-!
# Pieces that are left

Not every piece of a layout is seen in its text: a gap needs a row before it that is not empty, no
more than two empty rows stand next to each other, and none stands at either end.  The pieces that
are left have the lines of the text as their rows, so two layouts with the same pieces left are the
same text.
-/

set_option autoImplicit false

namespace AsnLayout

namespace Piece

/-! ## Settled pieces -/

def isEmptyRow : Piece → Bool
  | line _ _ => false
  | verbatim text => text = []
  | gap => true

/-- Before how many empty rows in a row an empty row is not left. -/
def patience : Piece → Nat
  | gap => 1
  | _ => 2

/-- The pieces that are left, `run` empty rows standing right before them. -/
def settle (run : Nat) : List Piece → List Piece
  | [] => []
  | piece :: later =>
    if piece.isEmptyRow then
      if run < piece.patience then piece :: settle (run + 1) later else settle run later
    else piece :: settle 0 later

/-- How many empty rows stand right behind pieces, `run` of which stand right before them. -/
def runBehind (run : Nat) : List Piece → Nat
  | [] => run
  | piece :: later =>
    if piece.isEmptyRow then runBehind (if run < piece.patience then run + 1 else run) later
    else runBehind 0 later

def isIdle : Piece → Bool
  | line _ text | verbatim text => Text.isBlankText text
  | gap => true

def left (run : Nat) (pieces : List Piece) : List Piece := (settle run pieces).rdropWhile isIdle

variable {run : Nat} {width : Int} {front back pieces : List Piece}

theorem settle_append (run : Nat) (front back : List Piece) :
    settle run (front ++ back) = settle run front ++ settle (runBehind run front) back := by
  induction front generalizing run with
  | nil => rfl
  | cons piece later ih =>
    simp only [List.cons_append, settle, runBehind]
    split
    · split
      · rw [ih, List.cons_append]
      · exact ih run
    · rw [ih, List.cons_append]

theorem runBehind_append (run : Nat) (front back : List Piece) :
    runBehind run (front ++ back) = runBehind (runBehind run front) back := by
  induction front generalizing run with
  | nil => rfl
  | cons piece later ih =>
    simp only [List.cons_append, runBehind]
    split
    · exact ih _
    · exact ih 0

theorem settle_line (run : Nat) (level : Int) (text : Text) (later : List Piece) :
    settle run (line level text :: later) = line level text :: settle 0 later := rfl

theorem settle_sublist (run : Nat) (pieces : List Piece) : (settle run pieces).Sublist pieces := by
  induction pieces generalizing run with
  | nil => exact .slnil
  | cons piece later ih =>
    rw [settle]
    split
    · split
      · exact (ih _).cons_cons piece
      · exact (ih _).cons piece
    · exact (ih _).cons_cons piece

theorem settle_settle (run : Nat) (pieces : List Piece) :
    settle run (settle run pieces) = settle run pieces ∧
      runBehind run (settle run pieces) = runBehind run pieces := by
  induction pieces generalizing run with
  | nil => exact ⟨rfl, rfl⟩
  | cons piece later ih =>
    rw [settle, runBehind]
    by_cases empty : piece.isEmptyRow = true
    · by_cases few : run < piece.patience
      · obtain ⟨same, behind⟩ := ih (run + 1)
        simp only [empty, few, if_true, settle, runBehind, same, behind, and_self]
      · simpa only [empty, few, if_true, if_false] using ih run
    · obtain ⟨same, behind⟩ := ih 0
      simp only [empty, Bool.false_eq_true, if_false, settle, runBehind, same, behind, and_self]

/-! ## Blank rows -/

theorem isBlankText_row (piece : Piece) : Text.isBlankText (piece.row width) = piece.isIdle := by
  cases piece with
  | line level text =>
    rw [← Text.isBlankText_trim, trim_row_line, Text.isBlankText_trim]
    rfl
  | verbatim text => rfl
  | gap => rfl

theorem isIdle_of_isEmptyRow {piece : Piece} (empty : piece.isEmptyRow = true) :
    piece.isIdle = true := by
  cases piece with
  | line level text => cases empty
  | verbatim text =>
    have empty : text = [] := of_decide_eq_true empty
    rw [isIdle, empty]
    rfl
  | gap => rfl

theorem filter_settle (run : Nat) (pieces : List Piece) :
    (settle run pieces).filter (!isIdle ·) = pieces.filter (!isIdle ·) := by
  induction pieces generalizing run with
  | nil => rfl
  | cons piece later ih =>
    rw [settle]
    by_cases empty : piece.isEmptyRow = true
    · have idle := isIdle_of_isEmptyRow empty
      rw [if_pos empty, List.filter_cons_of_neg (by simp [idle])]
      split
      · rw [List.filter_cons_of_neg (by simp [idle]), ih]
      · exact ih run
    · rw [if_neg empty, List.filter_cons, List.filter_cons, ih]

theorem filter_left (run : Nat) (pieces : List Piece) :
    (left run pieces).filter (!isIdle ·) = pieces.filter (!isIdle ·) := by
  have whole : left run pieces ++ (settle run pieces).rtakeWhile isIdle = settle run pieces :=
    List.rdropWhile_append_rtakeWhile ..
  have none : ((settle run pieces).rtakeWhile isIdle).filter (!isIdle ·) = [] := by
    rw [List.filter_eq_nil_iff]
    intro piece member
    simpa using List.mem_rtakeWhile_imp member
  rw [← filter_settle run pieces, ← whole, List.filter_append, none, List.append_nil]

theorem left_eq_nil_iff : left run pieces = [] ↔ ∀ piece ∈ pieces, piece.isIdle = true := by
  constructor
  · intro none piece member
    have kept := filter_left run pieces
    rw [none, List.filter_nil] at kept
    by_contra seen
    have inside : piece ∈ pieces.filter (!isIdle ·) :=
      List.mem_filter.mpr ⟨member, by simpa using seen⟩
    rw [← kept] at inside
    cases inside
  · intro all
    exact List.rdropWhile_eq_nil_iff.mpr fun piece member =>
      all piece ((settle_sublist run pieces).subset member)

theorem rdropWhile_append (front back : List Piece) : (front ++ back).rdropWhile isIdle =
    if back.rdropWhile isIdle = [] then front.rdropWhile isIdle
    else front ++ back.rdropWhile isIdle := by
  simp only [List.rdropWhile, List.reverse_append, List.dropWhile_append, List.isEmpty_iff,
    List.reverse_eq_nil_iff]
  split
  · rfl
  · rw [List.reverse_append, List.reverse_reverse]

/-- What is left of pieces depends on whether anything is left of those behind them. -/
theorem left_append (run : Nat) (front back : List Piece) : left run (front ++ back) =
    if left (runBehind run front) back = [] then left run front
    else settle run front ++ left (runBehind run front) back := by
  rw [left, settle_append, rdropWhile_append]
  rfl

end Piece

/-! ## The assembled text -/

namespace Text

theorem cutGaps_append (run : Nat) (front back : List Text) :
    ∃ run', cutGaps run (front ++ back) = cutGaps run front ++ cutGaps run' back := by
  induction front generalizing run with
  | nil => exact ⟨run, rfl⟩
  | cons row later ih =>
    simp only [List.cons_append, cutGaps]
    split
    · split
      · obtain ⟨run', whole⟩ := ih (run + 1)
        exact ⟨run', by rw [whole, List.cons_append]⟩
      · exact ih run
    · obtain ⟨run', whole⟩ := ih 0
      exact ⟨run', by rw [whole, List.cons_append]⟩

theorem cutGaps_sublist (run : Nat) (rows : List Text) : (cutGaps run rows).Sublist rows := by
  induction rows generalizing run with
  | nil => exact .slnil
  | cons row later ih =>
    rw [cutGaps]
    split
    · split
      · exact (ih _).cons_cons row
      · exact (ih _).cons row
    · exact (ih _).cons_cons row

theorem cutGaps_concat {row : Text} (filled : row ≠ []) (run : Nat) (rows : List Text) :
    cutGaps run (rows ++ [row]) = cutGaps run rows ++ [row] := by
  obtain ⟨run', whole⟩ := cutGaps_append run rows [row]
  rw [whole, cutGaps, if_neg filled]
  rfl

/-- Blank rows at the end are dropped before or after the gaps are cut. -/
theorem cutGaps_rdropWhile (run : Nat) (rows : List Text) :
    cutGaps run (rows.rdropWhile isBlankText) = (cutGaps run rows).rdropWhile isBlankText := by
  induction rows using List.reverseRecOn generalizing run with
  | nil => rfl
  | append_singleton rows row ih =>
    by_cases blank : isBlankText row = true
    · obtain ⟨run', whole⟩ := cutGaps_append run rows [row]
      rw [List.rdropWhile_concat_pos _ _ _ blank, whole, ih]
      rcases List.sublist_singleton.mp (cutGaps_sublist run' [row]) with none | one
      · rw [none, List.append_nil]
      · rw [one, List.rdropWhile_concat_pos _ _ _ blank]
    · have filled : row ≠ [] := by
        rintro rfl
        exact blank rfl
      rw [List.rdropWhile_concat_neg _ _ _ blank, cutGaps_concat filled,
        List.rdropWhile_concat_neg _ _ _ blank]

/-- Blank rows at the beginning are dropped like those behind two empty ones. -/
theorem cutGaps_dropWhile {rows : List Text}
    (starts : ∀ first ∈ (cutGaps 2 rows).head?, isBlankText first = false) :
    cutGaps 0 (rows.dropWhile isBlankText) = cutGaps 2 rows := by
  induction rows with
  | nil => rfl
  | cons row later ih =>
    by_cases empty : row = []
    · subst empty
      rw [List.dropWhile_cons_of_pos (show isBlankText [] = true from rfl)]
      exact ih starts
    · rw [cutGaps, if_neg empty] at starts ⊢
      rw [List.dropWhile_cons_of_neg (by simp [starts row rfl]), cutGaps, if_neg empty]

end Text

namespace Piece

variable {width : Int} {pieces : List Piece}

theorem limitLines_eq_cutGaps {rows : List Text} (ends : ∀ last ∈ rows.getLast?, last ≠ [])
    {run : Nat} (small : run ≤ 2) : limitLines (run + 1) rows = Text.cutGaps run rows := by
  induction rows generalizing run with
  | nil => rfl
  | cons row later ih =>
    cases later with
    | nil =>
      rw [limitLines, Text.cutGaps, if_neg (ends row rfl)]
      rfl
    | cons next others =>
      rw [List.getLast?_cons_cons] at ends
      have onward := @ih ends
      rw [limitLines, Text.cutGaps]
      split
      · split
        · rw [if_pos (by omega), onward (by omega)]
        · rw [if_neg (by omega), onward small]
      · rw [onward (Nat.zero_le 2)]

/-- The rows of a layout with their gaps cut are those of the pieces that are left. -/
theorem cutGaps_rows {blocks : Bool} (visible : ∀ piece ∈ pieces, piece.Visible blocks)
    {run : Nat} {last : Option Text} (before : run = 0 ↔ ∃ row, last = some row ∧ row ≠ []) :
    Text.cutGaps run (rows width last pieces) = (settle run pieces).map (row width) := by
  induction pieces generalizing run last with
  | nil => rfl
  | cons piece later ih =>
    obtain ⟨here, there⟩ := List.forall_mem_cons.mp visible
    have onward := @ih there
    cases piece with
    | line level text =>
      have filled : indented width level text ≠ [] := by
        intro empty
        have seen := @seen_indented width text here.seen level
        rw [empty] at seen
        cases seen
      rw [rows, Text.cutGaps, if_neg filled, settle_line, List.map_cons,
        onward ⟨fun _ => ⟨_, rfl, filled⟩, fun _ => rfl⟩]
      rfl
    | verbatim text =>
      rw [rows, Text.cutGaps, settle]
      by_cases empty : text = []
      · have behind : ∀ run : Nat, run ≠ 0 →
            (run = 0 ↔ ∃ row, some text = some row ∧ row ≠ []) := by
          intro run positive
          refine ⟨fun zero => absurd zero positive, fun shown => ?_⟩
          obtain ⟨row, same, filled⟩ := shown
          exact absurd (Option.some.inj same ▸ empty) filled
        simp only [empty, isEmptyRow, patience, decide_true, if_true] at behind ⊢
        split
        · rw [onward (behind _ (Nat.succ_ne_zero run)), List.map_cons]
          rfl
        · rw [onward (behind _ (by omega))]
      · simp only [empty, isEmptyRow, decide_false, Bool.false_eq_true, if_false]
        rw [onward ⟨fun _ => ⟨_, rfl, empty⟩, fun _ => rfl⟩, List.map_cons]
        rfl
    | gap =>
      rw [settle]
      simp only [isEmptyRow, patience, if_true, Nat.lt_one_iff]
      cases last with
      | none =>
        have positive : run ≠ 0 := fun zero => by simpa using before.mp zero
        rw [rows, if_neg positive, onward before]
      | some row =>
        rw [rows]
        by_cases empty : row = []
        · have positive : run ≠ 0 := fun zero => by
            obtain ⟨row', same, filled⟩ := before.mp zero
            exact filled (Option.some.inj same ▸ empty)
          rw [if_pos empty, if_neg positive, onward before]
        · have zero := before.mpr ⟨row, rfl, empty⟩
          subst zero
          rw [if_neg empty, if_pos rfl, Text.cutGaps, if_pos rfl, if_pos (by decide),
            onward (by simp), List.map_cons]
          rfl

theorem map_left (run : Nat) (pieces : List Piece) : (left run pieces).map (row width) =
    ((settle run pieces).map (row width)).rdropWhile Text.isBlankText := by
  rw [left]
  induction settle run pieces using List.reverseRecOn with
  | nil => rfl
  | append_singleton front piece ih =>
    rw [List.map_append, List.map_singleton]
    by_cases idle : piece.isIdle = true
    · rw [List.rdropWhile_concat_pos _ _ _ idle,
        List.rdropWhile_concat_pos _ _ _ ((isBlankText_row piece).trans idle), ih]
    · rw [List.rdropWhile_concat_neg _ _ _ idle, List.rdropWhile_concat_neg _ _ _
        (by rwa [isBlankText_row]), List.map_append, List.map_singleton]

theorem lines_assemble_left {blocks : Bool} (visible : ∀ piece ∈ pieces, piece.Visible blocks)
    (starts : ∀ first ∈ (settle 2 pieces).head?, first.isIdle = false) :
    Text.lines (assemble width pieces) = (left 2 pieces).map (row width) ++ [[]] := by
  have settled := @cutGaps_rows width pieces blocks visible 2 none (by simp)
  have starts' : ∀ first ∈ (Text.cutGaps 2 (rows width none pieces)).head?,
      Text.isBlankText first = false := by
    rw [settled, List.head?_map]
    intro first isFirst
    obtain ⟨piece, found, rfl⟩ := Option.map_eq_some_iff.mp isFirst
    rw [isBlankText_row]
    exact starts piece found
  obtain ⟨first, last⟩ := seen_trimRows (rows width none pieces)
  have filled : ∀ {row : Text}, Text.isBlankText row = false → row ≠ [] := by
    rintro row seen rfl
    cases seen
  have limited : limitLines 0 (trimRows (rows width none pieces)) =
      limitLines 1 (trimRows (rows width none pieces)) := by
    cases cut : trimRows (rows width none pieces) with
    | nil => rfl
    | cons row later =>
      cases later with
      | nil => rfl
      | cons next others =>
        rw [cut] at first
        have seen := filled (first row rfl)
        simp only [limitLines, if_neg seen]
  have trimmed : trimRows (rows width none pieces) =
      ((rows width none pieces).dropWhile Text.isBlankText).rdropWhile Text.isBlankText := rfl
  rw [lines_assemble, flatMap_lines_trimRows visible, limited,
    limitLines_eq_cutGaps (fun row isLast => filled (last row isLast)) (Nat.zero_le 2), trimmed,
    Text.cutGaps_rdropWhile, Text.cutGaps_dropWhile starts', settled, map_left]

theorem assemble_of_left_nil (nothing : left 2 pieces = []) : assemble width pieces = [] := by
  have blank : ∀ (pieces : List Piece) (last : Option Text), (∀ piece ∈ pieces, piece.isIdle = true) →
      ∀ row ∈ rows width last pieces, Text.isBlankText row = true := by
    intro pieces
    induction pieces with
    | nil => simp [rows]
    | cons piece later ih =>
      intro last idle
      obtain ⟨here, there⟩ := List.forall_mem_cons.mp idle
      have onward := fun last => ih last there
      cases piece with
      | line level text =>
        exact List.forall_mem_cons.mpr ⟨(isBlankText_row (line level text)).trans here, onward _⟩
      | verbatim text => exact List.forall_mem_cons.mpr ⟨here, onward _⟩
      | gap =>
        cases last with
        | none => exact onward none
        | some row =>
          rw [rows]
          split
          · exact onward _
          · exact List.forall_mem_cons.mpr ⟨rfl, onward _⟩
  have empty : trimRows (rows width none pieces) = [] := by
    rw [trimRows, List.dropWhile_eq_nil_iff.mpr (blank pieces none (left_eq_nil_iff.mp nothing))]
    rfl
  rw [assemble, empty]

theorem assemble_of_isBlankText {blocks : Bool} (visible : ∀ piece ∈ pieces, piece.Visible blocks)
    (starts : ∀ first ∈ (settle 2 pieces).head?, first.isIdle = false)
    (blank : Text.isBlankText (assemble width pieces) = true) : assemble width pieces = [] := by
  refine assemble_of_left_nil ?_
  by_contra some
  have seen := List.rdropWhile_last_not isIdle (settle 2 pieces) some
  have inside : ((left 2 pieces).getLast some).row width ∈ Text.lines (assemble width pieces) := by
    rw [lines_assemble_left visible starts]
    exact List.mem_append_left _ (List.mem_map_of_mem (List.getLast_mem some))
  have part := (Text.infix_of_mem_lines _ _ inside).subset
  refine seen ?_
  rw [← isBlankText_row]
  exact List.all_eq_true.mpr fun c member => List.all_eq_true.mp blank c (part member)

/-- Layouts with the same pieces left are the same text. -/
theorem assemble_eq_of_left {pieces' : List Piece} {blocks : Bool}
    (visible : ∀ piece ∈ pieces, piece.Visible blocks)
    (visible' : ∀ piece ∈ pieces', piece.Visible blocks)
    (starts : ∀ first ∈ (settle 2 pieces).head?, first.isIdle = false)
    (same : left 2 pieces' = left 2 pieces) : assemble width pieces' = assemble width pieces := by
  by_cases nothing : left 2 pieces = []
  · rw [assemble_of_left_nil nothing, assemble_of_left_nil (same.trans nothing)]
  · have head : ∀ pieces : List Piece, left 2 pieces ≠ [] →
        (left 2 pieces).head? = (settle 2 pieces).head? := by
      intro pieces some
      obtain ⟨first, rest, cut⟩ := List.exists_cons_of_ne_nil some
      obtain ⟨back, whole⟩ := List.rdropWhile_prefix isIdle (settle 2 pieces)
      rw [← whole, show (settle 2 pieces).rdropWhile isIdle = left 2 pieces from rfl, cut]
      rfl
    have starts' : ∀ first ∈ (settle 2 pieces').head?, first.isIdle = false := by
      rw [← head pieces' (by rwa [same]), same, head pieces nothing]
      exact starts
    rw [← Text.ofLines_lines (assemble width pieces'), ← Text.ofLines_lines (assemble width pieces),
      lines_assemble_left visible starts, lines_assemble_left visible' starts', same]

end Piece

end AsnLayout
