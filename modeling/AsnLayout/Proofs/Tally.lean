import AsnLayout.Remark
import AsnLayout.Source
import Mathlib.Algebra.BigOperators.Group.List.Basic
import Mathlib.Data.List.Induction
import Mathlib.GroupTheory.Submonoid.Center

/-!
# Tallies of texts

A tally adds up the characters of a text in a monoid, blanks and commas left out.  Trimming a text,
making it neat, cutting a comment off it and cutting it into lines change no tally.  In a monoid of
multisets a tally tells which characters a text has; in a monoid of lists it also tells their order.
-/

set_option autoImplicit false

namespace AsnLayout

theorem Text.ofLines_lines (t : Text) : ofLines (lines t) = t := List.intercalate_splitOn '\n'

/-- A value for each character, of which blanks and commas have none. -/
structure Tally (M : Type) [Monoid M] where
  of : Char → M
  of_blank : ∀ c, Text.isBlank c = true → of c = 1
  of_comma : of ',' = 1

namespace Tally

variable {M : Type} [Monoid M] (tally : Tally M)

def text (t : Text) : M := (t.map tally.of).prod

def remark (comment : Option Text) : M := tally.text (comment.getD [])

@[simp]
theorem text_nil : tally.text [] = 1 := rfl

@[simp]
theorem text_cons (c : Char) (rest : Text) : tally.text (c :: rest) = tally.of c * tally.text rest := by
  simp [text]

@[simp]
theorem text_append (front back : Text) :
    tally.text (front ++ back) = tally.text front * tally.text back := by
  simp [text]

@[simp]
theorem of_space : tally.of ' ' = 1 := tally.of_blank ' ' (by decide)

@[simp]
theorem of_newline : tally.of '\n' = 1 := tally.of_blank '\n' (by decide)

@[simp]
theorem of_tab : tally.of '\t' = 1 := tally.of_blank '\t' (by decide)

@[simp]
theorem of_return : tally.of '\r' = 1 := tally.of_blank '\r' (by decide)

attribute [simp] of_comma

@[simp]
theorem remark_none : tally.remark none = 1 := rfl

@[simp]
theorem remark_some (comment : Text) : tally.remark (some comment) = tally.text comment := rfl

theorem text_eq_one (t : Text) (worthless : ∀ c ∈ t, tally.of c = 1) : tally.text t = 1 := by
  induction t with
  | nil => rfl
  | cons c rest ih =>
    have here := worthless c (List.mem_cons_self ..)
    have later := ih fun d member => worthless d (List.mem_cons_of_mem c member)
    simp [here, later]

theorem text_of_isBlankText (t : Text) (blank : Text.isBlankText t = true) : tally.text t = 1 := by
  apply text_eq_one
  intro c member
  exact tally.of_blank c (List.all_eq_true.mp blank c member)

/-! ## Trimming -/

theorem text_dropWhile (drop : Char → Bool) (worthless : ∀ c, drop c = true → tally.of c = 1)
    (t : Text) : tally.text (t.dropWhile drop) = tally.text t := by
  induction t with
  | nil => rfl
  | cons c rest ih =>
    by_cases dropped : drop c = true
    · simp [dropped, ih, worthless c dropped]
    · simp [dropped]

theorem text_trimEndBy (drop : Char → Bool) (worthless : ∀ c, drop c = true → tally.of c = 1)
    (t : Text) : tally.text (Text.trimEndBy drop t) = tally.text t := by
  induction t using List.reverseRecOn with
  | nil => rfl
  | append_singleton front c ih =>
    by_cases dropped : drop c = true
    · have same : Text.trimEndBy drop (front ++ [c]) = Text.trimEndBy drop front := by
        simp [Text.trimEndBy, dropped]
      simp [same, ih, worthless c dropped]
    · simp [Text.trimEndBy, dropped]

@[simp]
theorem text_trimStart (t : Text) : tally.text (Text.trimStart t) = tally.text t :=
  tally.text_dropWhile Text.isBlank tally.of_blank t

@[simp]
theorem text_trimEnd (t : Text) : tally.text (Text.trimEnd t) = tally.text t :=
  tally.text_trimEndBy Text.isBlank tally.of_blank t

@[simp]
theorem text_trim (t : Text) : tally.text (Text.trim t) = tally.text t := by
  simp [Text.trim]

/-! ## Neat texts -/

@[simp]
theorem text_spaceAssignments (t : Text) :
    tally.text (Text.spaceAssignments t) = tally.text t := by
  fun_induction Text.spaceAssignments t with
  | case1 => rfl
  | case2 rest ih => simp [ih]
  | case3 c rest _ ih => simp [ih]

@[simp]
theorem text_collapse (t : Text) : tally.text (Text.collapse t) = tally.text t := by
  fun_induction Text.collapse t with
  | case1 => rfl
  | case2 c rest blank _ ih => simp [ih, tally.of_blank c blank]
  | case3 c rest blank _ ih => simp [ih, tally.of_blank c blank]
  | case4 c rest _ ih => simp [ih]

/-- Changing the code of a text chunk by chunk keeps what each change keeps. -/
theorem text_mapCode (change : Text → Text)
    (kept : ∀ code, tally.text (change code) = tally.text code) (t : Text) :
    tally.text (Text.mapCode change t) = tally.text t := by
  have chunkwise : ∀ chunks : List Chunk,
      tally.text (chunks.flatMap fun chunk =>
        if chunk.literal then chunk.text else change chunk.text) =
      tally.text (chunks.flatMap Chunk.text) := by
    intro chunks
    induction chunks with
    | nil => rfl
    | cons chunk later ih =>
      simp only [List.flatMap_cons, text_append, ih]
      split
      · rfl
      · rw [kept]
  rw [Text.mapCode, chunkwise, Text.chunks, Quoting.flatMap_text_chunks]

@[simp]
theorem text_neat (t : Text) : tally.text (Text.neat t) = tally.text t := by
  rw [Text.neat, text_trim, text_mapCode]
  intro code
  simp

@[simp]
theorem text_memberForm (t : Text) : tally.text (Text.memberForm t) = tally.text t := by
  rw [Text.memberForm, text_trimEndBy, text_neat]
  intro c dropped
  simp only [Bool.or_eq_true, decide_eq_true_eq] at dropped
  rcases dropped with rfl | blank
  · exact tally.of_comma
  · exact tally.of_blank c blank

/-! ## Comments -/

theorem text_codeLine (line : Text) :
    tally.text (Text.codeLine line).code * tally.remark (Text.codeLine line).comment =
      tally.text line := by
  unfold Text.codeLine
  split
  · simp
  · rename_i i _
    rw [remark_some, text_trimEnd, text_trim, ← text_append, List.take_append_drop]

@[simp]
theorem text_beside (code : Text) (comment : Option Text) :
    tally.text (beside code comment) = tally.text code * tally.remark comment := by
  cases comment with
  | none => simp [beside]
  | some comment =>
    simp only [beside, remark_some]
    split
    · rename_i empty
      simp [empty]
    · split
      · rename_i empty
        simp [empty]
      · simp

@[simp]
theorem remark_bothComments (earlier later : Option Text) :
    tally.remark (bothComments earlier later) = tally.remark earlier * tally.remark later := by
  cases earlier <;> cases later <;> simp [bothComments]

@[simp]
theorem text_neatLine (line : Text) : tally.text (Text.neatLine line) = tally.text line := by
  rw [Text.neatLine, text_beside, text_neat, text_codeLine]

/-! ## Marks -/

theorem text_cutAt? (mark : Text) : ∀ (t before after : Text),
    Text.cutAt? mark t = some (before, after) →
      tally.text before * tally.text mark * tally.text after = tally.text t := by
  intro t
  induction t with
  | nil =>
    intro before after found
    simp only [Text.cutAt?] at found
    split at found
    · rename_i empty
      cases found
      simp [List.isEmpty_iff.mp empty]
    · cases found
  | cons c rest ih =>
    intro before after found
    simp only [Text.cutAt?] at found
    split at found
    · rename_i starts
      obtain ⟨tail, whole⟩ := List.isPrefixOf_iff_prefix.mp starts
      cases found
      simp [← whole]
    · obtain ⟨⟨inner, outer⟩, cut, pair⟩ := Option.map_eq_some_iff.mp found
      cases pair
      rw [text_cons, text_cons, ← ih inner outer cut]
      simp [mul_assoc]

def texts (ts : List Text) : M := tally.text ts.flatten

@[simp]
theorem texts_nil : tally.texts [] = 1 := rfl

@[simp]
theorem texts_cons (first : Text) (later : List Text) :
    tally.texts (first :: later) = tally.text first * tally.texts later := by
  simp [texts]

@[simp]
theorem texts_append (front back : List Text) :
    tally.texts (front ++ back) = tally.texts front * tally.texts back := by
  simp [texts]

theorem texts_map (change : Text → Text) (ts : List Text)
    (kept : ∀ t ∈ ts, tally.text (change t) = tally.text t) :
    tally.texts (ts.map change) = tally.texts ts := by
  induction ts with
  | nil => rfl
  | cons first later ih =>
    have here := kept first (List.mem_cons_self ..)
    have rest := ih fun t member => kept t (List.mem_cons_of_mem first member)
    simp [here, rest]

/-! ## Lists of members -/

theorem texts_modifyHead (c : Char) (ts : List Text) (some : ts ≠ []) :
    tally.texts (ts.modifyHead (c :: ·)) = tally.of c * tally.texts ts := by
  cases ts with
  | nil => exact absurd rfl some
  | cons first later => simp [mul_assoc]

theorem segments_ne_nil (delimiter : Char → Bool) (depth : Nat) (marks : List Mark) :
    Text.segments delimiter depth marks ≠ [] := by
  have extended : ∀ (c : Char) (ts : List Text), ts ≠ [] → ts.modifyHead (c :: ·) ≠ [] := by
    intro c ts some
    cases ts with
    | nil => exact absurd rfl some
    | cons first later => simp
  induction marks generalizing depth with
  | nil => simp [Text.segments]
  | cons mark rest ih =>
    simp only [Text.segments]
    split
    · exact extended _ _ (ih _)
    split
    · exact extended _ _ (ih _)
    split
    · simp
    · exact extended _ _ (ih _)

theorem texts_segments (depth : Nat) (marks : List Mark) :
    tally.texts (Text.segments (· = ',') depth marks) = tally.text (marks.map Mark.char) := by
  induction marks generalizing depth with
  | nil => simp [Text.segments]
  | cons mark rest ih =>
    simp only [Text.segments]
    split
    · rw [texts_modifyHead _ _ _ (segments_ne_nil _ _ _), ih, List.map_cons, text_cons]
    split
    · rw [texts_modifyHead _ _ _ (segments_ne_nil _ _ _), ih, List.map_cons, text_cons]
    split
    · rename_i cuts
      have isComma : mark.char = ',' := by
        simp only [Mark.passes, Bool.and_eq_true, decide_eq_true_eq] at cuts
        exact cuts.1.2
      simp [ih, isComma]
    · rw [texts_modifyHead _ _ _ (segments_ne_nil _ _ _), ih, List.map_cons, text_cons]

/-- The members of a text have its tally if the segments that hold no member have none. -/
theorem texts_members (t : Text)
    (worthless : ∀ segment ∈ (Text.segments (· = ',') 0 (Text.marks t)).map Text.memberForm,
      Text.isMember segment = false → tally.text segment = 1) :
    tally.texts (Text.members t) = tally.text t := by
  have filtered : ∀ segments : List Text,
      (∀ segment ∈ segments, Text.isMember segment = false → tally.text segment = 1) →
      tally.texts (segments.filter Text.isMember) = tally.texts segments := by
    intro segments worthless
    induction segments with
    | nil => rfl
    | cons segment later ih =>
      have rest := ih fun other member => worthless other (List.mem_cons_of_mem segment member)
      cases kept : Text.isMember segment with
      | true => simp [kept, rest]
      | false => simp [kept, rest, worthless segment (List.mem_cons_self ..) kept]
  rw [Text.members, filtered _ worthless, texts_map, texts_segments, Text.marks,
    Quoting.map_char_marks]
  intro segment _
  simp

/-! ## Lines -/

@[simp]
theorem text_ofLines (lines : List Text) : tally.text (Text.ofLines lines) = tally.texts lines := by
  induction lines with
  | nil => rfl
  | cons first later ih =>
    cases later with
    | nil => simp [Text.ofLines, texts]
    | cons second others =>
      have joined : Text.ofLines (first :: second :: others) =
          first ++ '\n' :: Text.ofLines (second :: others) := by
        simp [Text.ofLines, List.intercalate]
      rw [joined, text_append, text_cons, ih, of_newline, one_mul, ← texts_cons]

@[simp]
theorem texts_lines (t : Text) : tally.texts (Text.lines t) = tally.text t := by
  rw [← text_ofLines, Text.ofLines_lines]

@[simp]
theorem text_spaces (width : Int) : tally.text (Text.spaces width) = 1 := by
  apply text_eq_one
  intro c member
  rw [List.eq_of_mem_replicate member]
  exact tally.of_space

/-! ## Source texts -/

@[simp]
theorem text_unifyNewlines (t : Text) : tally.text (Text.unifyNewlines t) = tally.text t := by
  fun_induction Text.unifyNewlines t with
  | case1 => rfl
  | case2 rest ih => simp [ih]
  | case3 c rest _ ih =>
    by_cases isReturn : c = '\r'
    · simp [isReturn, ih]
    · simp [isReturn, ih]

@[simp]
theorem text_tabsToSpaces (width column : Nat) (t : Text) :
    tally.text (Text.tabsToSpaces width column t) = tally.text t := by
  induction t generalizing column with
  | nil => rfl
  | cons c rest ih =>
    simp only [Text.tabsToSpaces]
    split
    · rename_i isTab
      rw [text_append, ih, isTab, text_cons, of_tab, one_mul]
      rw [text_eq_one, one_mul]
      intro d member
      rw [List.eq_of_mem_replicate member]
      exact tally.of_space
    · rw [text_cons, text_cons, ih]

@[simp]
theorem text_plainSource (source : Text) (width : Int) :
    tally.text (Text.plainSource source width) = tally.text source := by
  rw [Text.plainSource, text_ofLines, texts_map]
  · simp
  · intro line _
    simp

end Tally

end AsnLayout
