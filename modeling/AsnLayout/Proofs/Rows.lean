import AsnLayout.Proofs.SourceLines
import Mathlib.Data.List.TakeWhile

/-!
# Lines of an assembled layout

The pieces of a layout become rows, and the rows a text.  On the way blank rows are added and
dropped, but no other: the lines of the text that are not blank are the rows of the pieces that are
not blank.  Between two rows that are not empty at most two empty ones are kept.
-/

set_option autoImplicit false

namespace AsnLayout

/-! ## Lines that are not blank -/

namespace Text

def seenLines (t : Text) : List Text := (lines t).filter (!isBlankText ·)

theorem lines_ofLines_eq_flatMap {rows : List Text} (filled : rows ≠ []) :
    lines (ofLines rows) = rows.flatMap lines := by
  induction rows with
  | nil => exact absurd rfl filled
  | cons row later ih =>
    cases later with
    | nil => simp [ofLines]
    | cons next others =>
      rw [ofLines_cons_cons, lines_append_newline, ih (List.cons_ne_nil _ _)]
      rfl

theorem seenLines_of_isBlankText {t : Text} (blank : isBlankText t = true) : seenLines t = [] := by
  rw [seenLines, List.filter_eq_nil_iff]
  intro line member
  have inText := (infix_of_mem_lines t line member).subset
  have blankLine : isBlankText line = true :=
    List.all_eq_true.mpr fun c inLine => List.all_eq_true.mp blank c (inText inLine)
  simp [blankLine]

end Text

/-! ## Runs of empty lines -/

namespace Text

/-- Lines without the empty ones behind two empty lines, `run` of which stand right before. -/
def cutGaps (run : Nat) : List Text → List Text
  | [] => []
  | line :: rest =>
    if line = [] then
      if run < 2 then line :: cutGaps (run + 1) rest else cutGaps run rest
    else line :: cutGaps 0 rest

/-- Lines that never have three empty ones in a row are kept. -/
theorem cutGaps_eq_self {lines : List Text} (few : ¬[[], [], []] <:+: lines) :
    cutGaps 0 lines = lines := by
  -- With `run` empty lines before them, the lines start with at most `2 - run` empty ones.
  have general : ∀ (lines : List Text) (run : Nat), run ≤ 2 →
      ¬[[], [], []] <:+: List.replicate run [] ++ lines → cutGaps run lines = lines := by
    intro lines
    induction lines with
    | nil => exact fun _ _ _ => rfl
    | cons line rest ih =>
      intro run small few
      rw [cutGaps]
      split
      · rename_i empty
        subst empty
        have longer : List.replicate run ([] : Text) ++ [] :: rest =
            List.replicate (run + 1) [] ++ rest := by
          rw [List.replicate_succ', List.append_assoc, List.singleton_append]
        rw [longer] at few
        rcases Nat.lt_or_eq_of_le small with less | rfl
        · rw [if_pos less, ih (run + 1) less few]
        · exact absurd ⟨[], rest, rfl⟩ few
      · rw [ih 0 (Nat.zero_le 2) fun three => few (three.trans ?_)]
        exact ((List.suffix_cons _ _).trans (List.suffix_append _ _)).isInfix
  exact general lines 0 (Nat.zero_le 2) few

end Text

namespace Piece

/-- The lines that are left of a text whose newlines are limited, `run` newlines standing before. -/
def limitLines (run : Nat) : List Text → List Text
  | [] => []
  | [last] => [last]
  | first :: next :: others =>
    if first = [] then
      if run < 3 then first :: limitLines (run + 1) (next :: others)
      else limitLines run (next :: others)
    else first :: limitLines 1 (next :: others)

theorem limitLines_ne_nil (run : Nat) (line : Text) (rest : List Text) :
    limitLines run (line :: rest) ≠ [] := by
  induction rest generalizing run line with
  | nil => simp [limitLines]
  | cons next others ih =>
    rw [limitLines]
    split
    · split
      · simp
      · exact ih run next
    · simp

theorem limitNewlines_append {row : Text} (single : '\n' ∉ row) (filled : row ≠ []) (run : Nat)
    (rest : Text) :
    limitNewlines run (row ++ rest) = row ++ limitNewlines 0 rest := by
  induction row generalizing run with
  | nil => exact absurd rfl filled
  | cons c more ih =>
    simp only [List.mem_cons, not_or] at single
    rw [List.cons_append, limitNewlines, if_neg (Ne.symm single.1)]
    cases more with
    | nil => rfl
    | cons next others =>
      rw [ih single.2 (List.cons_ne_nil _ _)]
      rfl

theorem limitNewlines_ofLines_eq {rows : List Text} (single : ∀ row ∈ rows, '\n' ∉ row)
    (run : Nat) :
    limitNewlines run (Text.ofLines rows) = Text.ofLines (limitLines run rows) := by
  induction rows generalizing run with
  | nil => rfl
  | cons row later ih =>
    have here := single row (List.mem_cons_self ..)
    cases later with
    | nil =>
      by_cases none : row = []
      · rw [none]
        rfl
      · have kept := limitNewlines_append here none run []
        simpa [Text.ofLines, List.intercalate, limitNewlines, limitLines] using kept
    | cons next others =>
      have onward := fun run =>
        @ih (fun row member => single row (List.mem_cons_of_mem _ member)) run
      have joined : ∀ (line : Text) (run : Nat),
          Text.ofLines (line :: limitLines run (next :: others)) =
            line ++ '\n' :: Text.ofLines (limitLines run (next :: others)) := by
        intro line run
        obtain ⟨first, more, found⟩ :=
          List.exists_cons_of_ne_nil (limitLines_ne_nil run next others)
        rw [found, Text.ofLines_cons_cons]
      rw [Text.ofLines_cons_cons, limitLines]
      split
      · rename_i none
        rw [none, List.nil_append, limitNewlines, if_pos rfl]
        split
        · rw [onward, joined, List.nil_append]
        · exact onward run
      · rename_i filled
        rw [limitNewlines_append here filled, limitNewlines, if_pos rfl, if_pos (by decide), onward,
          joined]

theorem lines_limitNewlines (t : Text) :
    Text.lines (limitNewlines 0 t) = limitLines 0 (Text.lines t) := by
  have single := Text.newline_not_mem_of_mem_lines t
  have kept : ∀ (rows : List Text) (run : Nat), (∀ row ∈ rows, '\n' ∉ row) →
      ∀ row ∈ limitLines run rows, '\n' ∉ row := by
    intro rows run
    fun_induction limitLines run rows with
    | case1 run => exact fun _ row member => by cases member
    | case2 run line => exact fun single => single
    | case3 run next others small ih =>
      intro single row member
      rcases List.mem_cons.mp member with rfl | member
      · simp
      · exact ih (fun row inRest => single row (List.mem_cons_of_mem _ inRest)) row member
    | case4 run next others large ih =>
      intro single row member
      exact ih (fun row inRest => single row (List.mem_cons_of_mem _ inRest)) row member
    | case5 run line next others filled ih =>
      intro single row member
      rcases List.mem_cons.mp member with rfl | member
      · exact single row (List.mem_cons_self ..)
      · exact ih (fun row inRest => single row (List.mem_cons_of_mem _ inRest)) row member
  obtain ⟨line, later, cut⟩ := Text.exists_lines t
  have limited := @limitNewlines_ofLines_eq (Text.lines t) single 0
  rw [Text.ofLines_lines] at limited
  rw [limited, Text.lines_ofLines _ (kept _ 0 single)]
  rw [cut]
  exact limitLines_ne_nil 0 line later

theorem filter_limitLines (run : Nat) (rows : List Text) :
    (limitLines run rows).filter (!Text.isBlankText ·) = rows.filter (!Text.isBlankText ·) := by
  have empty : ∀ rows : List Text, ([] :: rows).filter (!Text.isBlankText ·) =
      rows.filter (!Text.isBlankText ·) := fun rows => List.filter_cons_of_neg (by decide)
  fun_induction limitLines run rows with
  | case1 run => rfl
  | case2 run line => rfl
  | case3 run next others small ih => rw [empty, empty, ih]
  | case4 run next others large ih => rw [ih, empty]
  | case5 run line next others filled ih => rw [List.filter_cons, List.filter_cons, ih]

/-- Rows between two rows that are not empty lose only the empty ones behind two empty ones. -/
theorem exists_limitLines_behind (rows behind : List Text) (last : Text) (filled : last ≠ [])
    (run : Nat) (small : run ≤ 2) :
    ∃ rest, limitLines (run + 1) (rows ++ last :: behind) =
      Text.cutGaps run (rows ++ [last]) ++ rest := by
  induction rows generalizing run with
  | nil =>
    cases behind with
    | nil => exact ⟨[], by simp [limitLines, Text.cutGaps, filled]⟩
    | cons next others => exact ⟨_, by simp [limitLines, Text.cutGaps, filled]; rfl⟩
  | cons row later ih =>
    obtain ⟨next, others, whole⟩ := List.exists_cons_of_ne_nil
      (show later ++ last :: behind ≠ [] by simp)
    rw [List.cons_append, List.cons_append, whole, limitLines, ← whole, Text.cutGaps]
    split
    · rcases Nat.lt_or_eq_of_le small with less | rfl
      · obtain ⟨rest, found⟩ := ih (run + 1) less
        refine ⟨rest, ?_⟩
        rw [if_pos (by omega), if_pos less, found, List.cons_append]
      · exact ih 2 (Nat.le_refl 2)
    · obtain ⟨rest, found⟩ := ih 0 (Nat.zero_le 2)
      exact ⟨rest, by rw [found, List.cons_append]⟩

/-- A stretch of rows from one that is not empty to another is left with its gaps cut. -/
theorem infix_limitLines (before rows behind : List Text) (first last : Text) (filled : first ≠ [])
    (ends : (first :: rows).getLast? = some last) (filled' : last ≠ []) (run : Nat) :
    first :: Text.cutGaps 0 rows <:+: limitLines run (before ++ (first :: rows) ++ behind) := by
  induction before generalizing run with
  | nil =>
    rcases List.eq_nil_or_concat rows with rfl | ⟨early, final, rfl⟩
    · cases behind with
      | nil => exact (List.infix_refl _)
      | cons next others =>
        simp only [List.nil_append, List.singleton_append, limitLines, if_neg filled, Text.cutGaps]
        exact ⟨[], _, rfl⟩
    · have same : final = last := by
        rw [List.concat_eq_append, List.getLast?_cons, List.getLast?_concat] at ends
        simpa using ends
      subst same
      obtain ⟨rest, found⟩ := exists_limitLines_behind early behind final filled' 0 (Nat.zero_le 2)
      obtain ⟨next, others, whole⟩ := List.exists_cons_of_ne_nil
        (show early ++ final :: behind ≠ [] by simp)
      rw [List.concat_eq_append, List.nil_append, List.cons_append, List.append_assoc,
        List.singleton_append, whole, limitLines, if_neg filled, ← whole, found]
      exact ⟨[], rest, by simp⟩
  | cons row later ih =>
    obtain ⟨next, others, whole⟩ := List.exists_cons_of_ne_nil
      (show later ++ (first :: rows) ++ behind ≠ [] by simp)
    rw [List.cons_append, List.cons_append, whole, limitLines, ← whole]
    split
    · split
      · exact (ih _).trans (List.suffix_cons _ _).isInfix
      · exact ih _
    · exact (ih _).trans (List.suffix_cons _ _).isInfix

/-! ## Rows of pieces -/

def row (width : Int) : Piece → Text
  | line level text => indented width level text
  | verbatim text => text
  | gap => []

/-- The rows of pieces depend on what stands before them only by the last row before. -/
theorem rows_append (width : Int) (last : Option Text) (front back : List Piece) :
    ∃ last', rows width last (front ++ back) = rows width last front ++ rows width last' back := by
  induction front generalizing last with
  | nil => exact ⟨last, rfl⟩
  | cons piece later ih =>
    cases piece with
    | line level text =>
      obtain ⟨last', found⟩ := ih (some (indented width level text))
      exact ⟨last', by simp only [List.cons_append, rows, found]⟩
    | verbatim text =>
      obtain ⟨last', found⟩ := ih (some text)
      exact ⟨last', by simp only [List.cons_append, rows, found]⟩
    | gap =>
      cases last with
      | none =>
        obtain ⟨last', found⟩ := ih none
        exact ⟨last', by simp only [List.cons_append, rows, found]⟩
      | some before =>
        by_cases empty : before = []
        · obtain ⟨last', found⟩ := ih (some before)
          exact ⟨last', by simp only [List.cons_append, rows, found, if_pos empty]⟩
        · obtain ⟨last', found⟩ := ih (some [])
          exact ⟨last', by simp only [List.cons_append, rows, found, if_neg empty]⟩

theorem rows_of_no_gap (width : Int) (last : Option Text) {pieces : List Piece}
    (lines : ∀ piece ∈ pieces, piece ≠ gap) : rows width last pieces = pieces.map (row width) := by
  induction pieces generalizing last with
  | nil => rfl
  | cons piece later ih =>
    have onward := fun last =>
      @ih last fun other member => lines other (List.mem_cons_of_mem _ member)
    cases piece with
    | line level text => simp only [rows, onward, List.map_cons, row]
    | verbatim text => simp only [rows, onward, List.map_cons, row]
    | gap => exact absurd rfl (lines gap (List.mem_cons_self ..))

theorem flatMap_seenLines_rows (width : Int) (last : Option Text) (pieces : List Piece) :
    (rows width last pieces).flatMap Text.seenLines =
      pieces.flatMap fun piece => Text.seenLines (piece.row width) := by
  have empty : Text.seenLines [] = [] := by decide
  induction pieces generalizing last with
  | nil => rfl
  | cons piece later ih =>
    cases piece with
    | line level text => simp only [rows, List.flatMap_cons, ih, row]
    | verbatim text => simp only [rows, List.flatMap_cons, ih, row]
    | gap =>
      rw [List.flatMap_cons, row, empty, List.nil_append]
      cases last with
      | none => exact ih none
      | some before =>
        rw [rows]
        split
        · exact ih _
        · rw [List.flatMap_cons, empty, List.nil_append, ih]

theorem exists_trimRows (before rows behind : List Text) (first last : Text)
    (starts : rows.head? = some first) (ends : rows.getLast? = some last)
    (seen : Text.isBlankText first = false) (seen' : Text.isBlankText last = false) :
    ∃ before' behind', trimRows (before ++ rows ++ behind) = before' ++ rows ++ behind' := by
  have fromStart : ∀ (before behind rows : List Text) (first : Text), rows.head? = some first →
      Text.isBlankText first = false → ∃ before', (before ++ (rows ++ behind)).dropWhile
        Text.isBlankText = before' ++ (rows ++ behind) := by
    intro before behind rows first starts seen
    induction before with
    | nil =>
      obtain ⟨more, rfl⟩ := List.head?_eq_some_iff.mp starts
      refine ⟨[], ?_⟩
      rw [List.nil_append, List.cons_append, List.dropWhile_cons_of_neg (by simp [seen])]
    | cons row later ih =>
      rw [List.cons_append, List.dropWhile_cons]
      split
      · exact ih
      · exact ⟨row :: later, rfl⟩
  obtain ⟨before', found⟩ := fromStart before behind rows first starts seen
  obtain ⟨behind', found'⟩ := fromStart behind.reverse before'.reverse rows.reverse last
    (by rw [List.head?_reverse]; exact ends) seen'
  refine ⟨before', behind'.reverse, ?_⟩
  rw [trimRows, List.append_assoc, found]
  simp only [List.reverse_append, List.append_assoc] at found' ⊢
  rw [found']
  simp

theorem flatMap_seenLines_trimRows (rows : List Text) :
    (trimRows rows).flatMap Text.seenLines = rows.flatMap Text.seenLines := by
  have blank : ∀ rows : List Text,
      (rows.takeWhile Text.isBlankText).flatMap Text.seenLines = [] := by
    intro rows
    rw [List.flatMap_eq_nil_iff]
    exact fun row member => Text.seenLines_of_isBlankText (List.mem_takeWhile_imp member)
  have start : ∀ rows : List Text, (rows.dropWhile Text.isBlankText).flatMap Text.seenLines =
      rows.flatMap Text.seenLines := by
    intro rows
    conv_rhs => rw [← List.takeWhile_append_dropWhile (p := Text.isBlankText) (l := rows)]
    rw [List.flatMap_append, blank, List.nil_append]
  rw [trimRows]
  conv_rhs => rw [← start]
  generalize rows.dropWhile Text.isBlankText = kept
  conv_rhs => rw [← List.reverse_reverse kept,
    ← List.takeWhile_append_dropWhile (p := Text.isBlankText) (l := kept.reverse)]
  rw [List.reverse_append, List.flatMap_append]
  have none : (kept.reverse.takeWhile Text.isBlankText).reverse.flatMap Text.seenLines = [] := by
    rw [List.flatMap_eq_nil_iff]
    intro row member
    exact Text.seenLines_of_isBlankText (List.mem_takeWhile_imp (List.mem_reverse.mp member))
  rw [none, List.append_nil]

/-! ## The assembled text -/

theorem lines_assemble (width : Int) (pieces : List Piece) :
    Text.lines (assemble width pieces) =
      limitLines 0 ((trimRows (rows width none pieces)).flatMap Text.lines) ++ [[]] := by
  unfold assemble
  split
  · rename_i none
    rw [none]
    rfl
  · rename_i filled
    rw [Text.lines_append_newline, lines_limitNewlines, Text.lines_ofLines_eq_flatMap filled]
    rfl

theorem seenLines_assemble (width : Int) (pieces : List Piece) :
    Text.seenLines (assemble width pieces) =
      pieces.flatMap fun piece => Text.seenLines (piece.row width) := by
  have last : ([[]] : List Text).filter (!Text.isBlankText ·) = [] := by decide
  rw [← flatMap_seenLines_rows width none, ← flatMap_seenLines_trimRows, Text.seenLines,
    lines_assemble, List.filter_append, filter_limitLines, List.filter_flatMap, last,
    List.append_nil]
  rfl

/-- Pieces in a row, of which the first and the last are not blank, are lines in a row; only empty
lines between them may be missing. -/
theorem infix_lines_assemble (width : Int) {pieces inside : List Piece}
    (within : inside <:+: pieces) (lines : ∀ piece ∈ inside, piece ≠ gap)
    (single : ∀ piece ∈ inside, '\n' ∉ piece.row width)
    {first last : Text} {later : List Text} (cut : inside.map (row width) = first :: later)
    (ends : (first :: later).getLast? = some last) (seen : Text.isBlankText first = false)
    (seen' : Text.isBlankText last = false) :
    first :: Text.cutGaps 0 later <:+: Text.lines (assemble width pieces) := by
  obtain ⟨front, back, rfl⟩ := within
  obtain ⟨last₁, found⟩ := rows_append width none (front ++ inside) back
  obtain ⟨last₂, found'⟩ := rows_append width none front inside
  rw [rows_of_no_gap width last₂ lines, cut] at found'
  rw [found'] at found
  obtain ⟨before, behind, trimmed⟩ := exists_trimRows (rows width none front) (first :: later)
    (rows width last₁ back) first last rfl ends seen seen'
  have kept : (first :: later).flatMap Text.lines = first :: later := by
    rw [← cut, List.flatMap_map]
    conv_rhs => rw [← List.flatMap_singleton' (inside.map (row width)), List.flatMap_map]
    exact List.flatMap_congr fun piece member => Text.lines_of_not_mem (single piece member)
  have notEmpty : ∀ {t : Text}, Text.isBlankText t = false → t ≠ [] := by
    rintro t seen rfl
    cases seen
  rw [lines_assemble, found, trimmed, List.flatMap_append, List.flatMap_append, kept]
  exact (infix_limitLines _ later _ first last (notEmpty seen) ends (notEmpty seen') 0).trans
    (List.prefix_append _ _).isInfix

end Piece

end AsnLayout
