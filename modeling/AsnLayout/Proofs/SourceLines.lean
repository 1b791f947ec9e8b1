import AsnLayout.Format
import AsnLayout.Proofs.Tally
import Mathlib.Data.List.Infix

/-!
# Lines of a source

The lines that are read are the lines of the source with their tabs replaced.  Two characters next
to each other in such a line, neither of them a blank, stand next to each other in the source too.
-/

set_option autoImplicit false

namespace AsnLayout

/-! ## Options in use -/

theorem Format.options_positive (configuration : Configuration) :
    1 ≤ (Format.options configuration).result.indentWidth ∧
      1 ≤ (Format.options configuration).result.iterationFactor := by
  unfold Format.options Configuration.settle
  cases configuration.draft? with
  | error fault =>
    simp only
    decide
  | ok draft => exact ⟨draft.one_le_mended .indentWidth, draft.one_le_mended .iterationFactor⟩

theorem Format.one_le_maxDepth (configuration : Configuration) :
    1 ≤ (Format.options configuration).result.maxDepth := by
  unfold Format.options Configuration.settle
  cases configuration.draft? with
  | error fault =>
    simp only
    decide
  | ok draft => exact draft.one_le_mended .maxDepth

theorem Format.result_of_tree {source : Text} {configuration : Configuration} {root : Node}
    {out : Text} (seen : Text.isBlankText source = false)
    (read : Node.ofText (Text.plainSource source (Format.options configuration).result.indentWidth)
      (Format.options configuration).result = .ok root)
    (laid : root.toText (Format.options configuration).result = .ok out) :
    (Format.text source configuration).result = out := by
  have formatted : ((Node.read (Text.plainSource source
      (Format.options configuration).result.indentWidth)
      (Format.options configuration).result).result >>=
        fun tree => tree.toText (Format.options configuration).result) = .ok out := by
    rw [Node.read, read]
    exact laid
  simp only [Format.text, seen, Bool.false_eq_true, if_false, Format.layout, formatted]

namespace Text

/-! ## Lines -/

theorem ofLines_cons_cons (first second : Text) (others : List Text) :
    ofLines (first :: second :: others) = first ++ '\n' :: ofLines (second :: others) := by
  simp [ofLines, List.intercalate]

theorem lines_ofLines (lines : List Text) (single : ∀ line ∈ lines, '\n' ∉ line)
    (some : lines ≠ []) : Text.lines (ofLines lines) = lines :=
  List.splitOn_intercalate '\n' single some

theorem lines_cons (c : Char) (rest : Text) :
    lines (c :: rest) =
      if c = '\n' then [] :: lines rest else (lines rest).modifyHead (c :: ·) := by
  simp [lines, List.splitOn_cons_eq_if_modifyHead]

theorem lines_ne_nil (t : Text) : lines t ≠ [] := List.splitOn_ne_nil _ _

theorem newline_not_mem_of_mem_lines (t line : Text) (member : line ∈ lines t) : '\n' ∉ line := by
  induction t generalizing line with
  | nil =>
    rw [lines, List.splitOn_nil, List.mem_singleton] at member
    simp [member]
  | cons c rest ih =>
    rw [lines_cons] at member
    split at member
    · rcases List.mem_cons.mp member with rfl | member
      · simp
      · exact ih line member
    · rename_i other
      cases found : lines rest with
      | nil => exact absurd found (lines_ne_nil rest)
      | cons first later =>
        rw [found] at member ih
        rcases List.mem_cons.mp member with rfl | member
        · have none := ih first (List.mem_cons_self ..)
          simp [none, Ne.symm other]
        · exact ih line (List.mem_cons_of_mem first member)

theorem infix_of_mem_lines (t line : Text) (member : line ∈ lines t) : line <:+: t := by
  have joined : ∀ parts : List Text, line ∈ parts → line <:+: ofLines parts := by
    intro parts
    induction parts with
    | nil => exact fun member => by cases member
    | cons first later ih =>
      intro member
      cases later with
      | nil =>
        rw [List.mem_singleton.mp member]
        simp [ofLines]
      | cons second others =>
        rw [ofLines_cons_cons]
        rcases List.mem_cons.mp member with rfl | member
        · exact (List.prefix_append _ _).isInfix
        · have later := ih member
          exact later.trans ((List.suffix_cons _ _).trans (List.suffix_append _ _)).isInfix
  rw [← ofLines_lines t]
  exact joined (lines t) member

theorem lines_append_newline (front back : Text) :
    lines (front ++ '\n' :: back) = lines front ++ lines back := by
  rw [lines, lines, lines, List.splitOn_eq_splitOnP]
  exact List.splitOnP_append_cons front back (by decide)

theorem lines_of_not_mem {t : Text} (single : '\n' ∉ t) : lines t = [t] := by
  rw [lines, List.splitOn_eq_splitOnP]
  apply List.splitOnP_eq_singleton
  intro c member
  have other : c ≠ '\n' := fun newline => single (newline ▸ member)
  simpa using other

theorem lines_append_of_not_mem {front : Text} (single : '\n' ∉ front) (back : Text) :
    lines (front ++ back) = (lines back).modifyHead (front ++ ·) := by
  induction front with
  | nil =>
    simp only [List.nil_append]
    cases lines back <;> rfl
  | cons c rest ih =>
    simp only [List.mem_cons, not_or] at single
    rw [List.cons_append, lines_cons, if_neg (Ne.symm single.1), ih single.2,
      List.modifyHead_modifyHead]
    rfl

theorem exists_lines (t : Text) : ∃ line later, lines t = line :: later := by
  cases found : lines t with
  | nil => exact absurd found (lines_ne_nil t)
  | cons line later => exact ⟨line, later, rfl⟩

theorem newline_not_mem_tabsToSpaces (width column : Nat) (t : Text) (none : '\n' ∉ t) :
    '\n' ∉ tabsToSpaces width column t := by
  induction t generalizing column with
  | nil => exact none
  | cons c rest ih =>
    simp only [List.mem_cons, not_or] at none
    simp only [tabsToSpaces]
    split
    · simp only [List.mem_append, List.mem_replicate, not_or]
      exact ⟨fun replica => absurd replica.2 (by decide), ih _ none.2⟩
    · simp only [List.mem_cons, not_or]
      exact ⟨none.1, ih _ none.2⟩

theorem lines_plainSource (source : Text) (width : Int) :
    lines (plainSource source width) =
      (lines (unifyNewlines source)).map (tabsToSpaces width.toNat 0) := by
  apply lines_ofLines
  · intro line member
    obtain ⟨given, found, rfl⟩ := List.mem_map.mp member
    exact newline_not_mem_tabsToSpaces _ _ _ (newline_not_mem_of_mem_lines _ _ found)
  · simp only [ne_eq, List.map_eq_nil_iff]
    exact lines_ne_nil _

/-! ## Neighbours -/

/-- One of two neighbours stands first, or both stand behind the first character. -/
theorem pair_infix_cons (a b c : Char) (rest : Text) :
    [a, b] <:+: c :: rest ↔ (a = c ∧ rest.head? = some b) ∨ [a, b] <:+: rest := by
  rw [List.infix_cons_iff]
  constructor
  · rintro (first | later)
    · obtain ⟨tail, whole⟩ := first
      cases whole
      exact .inl ⟨rfl, rfl⟩
    · exact .inr later
  · rintro (⟨rfl, next⟩ | later)
    · obtain ⟨tail, rfl⟩ := List.head?_eq_some_iff.mp next
      exact .inl ⟨tail, rfl⟩
    · exact .inr later

theorem pair_infix_unifyNewlines (a b : Char) (noNewline : a ≠ '\n' ∧ b ≠ '\n') (t : Text)
    (pair : [a, b] <:+: unifyNewlines t) : [a, b] <:+: t := by
  have next : ∀ rest : Text, (unifyNewlines rest).head? = some b → rest.head? = some b := by
    intro rest found
    fun_cases unifyNewlines rest with
    | case1 => simp [unifyNewlines] at found
    | case2 rest =>
      simp only [unifyNewlines, List.head?_cons, Option.some.injEq] at found
      exact absurd found.symm noNewline.2
    | case3 c rest other =>
      rw [unifyNewlines.eq_3 _ _ other] at found
      simp only [List.head?_cons, Option.some.injEq] at found ⊢
      split at found
      · exact absurd found.symm noNewline.2
      · exact found
  fun_induction unifyNewlines t with
  | case1 => exact pair
  | case2 rest ih =>
    rw [pair_infix_cons] at pair
    rcases pair with ⟨newline, -⟩ | later
    · exact absurd newline noNewline.1
    · exact (ih later).trans ((List.suffix_cons _ _).trans (List.suffix_cons _ _)).isInfix
  | case3 c rest other ih =>
    rw [pair_infix_cons] at pair ⊢
    rcases pair with ⟨first, second⟩ | later
    · split at first
      · exact absurd first noNewline.1
      · exact .inl ⟨first, next rest second⟩
    · exact .inr (ih later)

theorem pair_infix_tabsToSpaces (a b : Char) (noSpace : a ≠ ' ' ∧ b ≠ ' ') (width : Nat)
    (wide : 0 < width) (t : Text) (column : Nat)
    (pair : [a, b] <:+: tabsToSpaces width column t) : [a, b] <:+: t := by
  have gap : ∀ column : Nat, ∃ more, (if width = 0 then 0 else width - column % width) = more + 1 := by
    intro column
    have small := Nat.mod_lt column wide
    rw [if_neg (by omega)]
    exact ⟨width - column % width - 1, by omega⟩
  have next : ∀ (rest : Text) (column : Nat),
      (tabsToSpaces width column rest).head? = some b → rest.head? = some b := by
    intro rest column found
    cases rest with
    | nil => exact found
    | cons c rest =>
      simp only [tabsToSpaces] at found
      split at found
      · obtain ⟨more, size⟩ := gap column
        rw [size, List.replicate_succ] at found
        simp only [List.cons_append, List.head?_cons, Option.some.injEq] at found
        exact absurd found.symm noSpace.2
      · exact found
  have skip : ∀ (count : Nat) (rest : Text),
      [a, b] <:+: List.replicate count ' ' ++ rest → [a, b] <:+: rest := by
    intro count rest pair
    induction count with
    | zero => exact pair
    | succ count ih =>
      rw [List.replicate_succ, List.cons_append, pair_infix_cons] at pair
      rcases pair with ⟨space, -⟩ | later
      · exact absurd space noSpace.1
      · exact ih later
  induction t generalizing column with
  | nil => exact pair
  | cons c rest ih =>
    simp only [tabsToSpaces] at pair
    rw [pair_infix_cons]
    split at pair
    · exact .inr (ih _ (skip _ _ pair))
    · rw [pair_infix_cons] at pair
      rcases pair with ⟨first, second⟩ | later
      · exact .inl ⟨first, next rest _ second⟩
      · exact .inr (ih _ later)

/-- Neighbours in a line that is read are neighbours in the source. -/
theorem pair_infix_of_mem_lines (a b : Char) (noNewline : a ≠ '\n' ∧ b ≠ '\n')
    (noSpace : a ≠ ' ' ∧ b ≠ ' ') (source line : Text) (width : Int) (wide : 1 ≤ width)
    (member : line ∈ lines (plainSource source width)) (pair : [a, b] <:+: line) :
    [a, b] <:+: source := by
  rw [lines_plainSource] at member
  obtain ⟨given, found, rfl⟩ := List.mem_map.mp member
  have inGiven := pair_infix_tabsToSpaces a b noSpace width.toNat (by omega) given 0 pair
  have inLine := infix_of_mem_lines _ given found
  exact pair_infix_unifyNewlines a b noNewline source (inGiven.trans inLine)

/-! ## Sources without tabs and carriage returns -/

theorem tabsToSpaces_of_not_mem {t : Text} (absent : '\t' ∉ t) (width column : Nat) :
    tabsToSpaces width column t = t := by
  induction t generalizing column with
  | nil => rfl
  | cons c rest ih =>
    simp only [List.mem_cons, not_or] at absent
    rw [tabsToSpaces, if_neg (Ne.symm absent.1), ih absent.2]

theorem unifyNewlines_of_not_mem {t : Text} (absent : '\r' ∉ t) : unifyNewlines t = t := by
  fun_induction unifyNewlines t with
  | case1 => rfl
  | case2 rest ih => simp at absent
  | case3 c rest other ih =>
    simp only [List.mem_cons, not_or] at absent
    rw [if_neg (Ne.symm absent.1), ih absent.2]

theorem plainSource_of_not_mem {source : Text} (noReturn : '\r' ∉ source) (noTab : '\t' ∉ source)
    (width : Int) : plainSource source width = source := by
  have kept : (lines source).map (tabsToSpaces width.toNat 0) = lines source := by
    refine (List.map_congr_left ?_).trans (List.map_id _)
    intro line member
    refine tabsToSpaces_of_not_mem ?_ _ _
    exact fun tab => noTab ((infix_of_mem_lines source line member).subset tab)
  rw [plainSource, unifyNewlines_of_not_mem noReturn, kept, ofLines_lines]

end Text

end AsnLayout
