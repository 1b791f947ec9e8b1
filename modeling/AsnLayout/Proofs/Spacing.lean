import AsnLayout.Field
import AsnLayout.Proofs.Schema
import Mathlib.Data.List.DropRight

/-!
# Spacing of texts

What trimming and collapsing blanks do to a text whose words and marks are known: they are kept, and
a text of words alone becomes its words with single spaces between them.
-/

set_option autoImplicit false

namespace AsnLayout

/-- An element that is kept stays at the end of a list, with all that stands before it. -/
theorem rdropWhile_append_of_not {α : Type} (drop : α → Bool) {a : α} (keeps : drop a = false)
    (front back : List α) :
    (front ++ a :: back).rdropWhile drop = front ++ a :: back.rdropWhile drop := by
  induction back using List.reverseRecOn with
  | nil => rw [List.rdropWhile_concat_neg _ _ _ (by simp [keeps]), List.rdropWhile_nil]
  | append_singleton back last ih =>
    rw [← List.cons_append, ← List.append_assoc, List.rdropWhile_concat, List.rdropWhile_concat, ih]
    split
    · rfl
    · simp

namespace Text

variable {front back t w : Text} {c : Char}

/-! ## Trimming -/

theorem trimEndBy_eq (drop : Char → Bool) (t : Text) : trimEndBy drop t = t.rdropWhile drop := rfl

theorem trimEndBy_append_of_not (drop : Char → Bool) (keeps : drop c = false) (front back : Text) :
    trimEndBy drop (front ++ c :: back) = front ++ c :: trimEndBy drop back :=
  rdropWhile_append_of_not drop keeps front back

theorem trimStart_of_blank (blank : isBlankText front = true) (back : Text) :
    trimStart (front ++ back) = trimStart back :=
  List.dropWhile_append_of_pos (by simpa [isBlankText] using blank)

theorem trimStart_append_mark (mark : isBlank c = false) (front back : Text) :
    trimStart (front ++ c :: back) = trimStart front ++ c :: back := by
  simp only [trimStart, trimStartBy]
  rw [List.dropWhile_append]
  split
  · rename_i none
    rw [List.isEmpty_iff.mp none, List.dropWhile_cons_of_neg (by simp [mark])]
    rfl
  · rfl

theorem trimEnd_append_mark (mark : isBlank c = false) (front back : Text) :
    trimEnd (front ++ c :: back) = front ++ c :: trimEnd back :=
  trimEndBy_append_of_not isBlank mark front back

theorem trimEnd_of_blank (blank : isBlankText t = true) : trimEnd t = [] := by
  rw [trimEnd, trimEndBy_eq, List.rdropWhile_eq_nil_iff]
  simpa [isBlankText] using blank

theorem isBlankText_of_mem {c : Char} (member : c ∈ t) (solid : isBlank c = false) :
    isBlankText t = false := by
  rw [isBlankText, List.all_eq_false]
  exact ⟨c, member, by simp [solid]⟩

theorem trim_of_blank (blank : isBlankText t = true) : trim t = [] := by
  have start := trimStart_of_blank blank []
  rw [List.append_nil] at start
  rw [trim, start]
  rfl

theorem trim_append_of_blank (blank : isBlankText front = true) (back : Text) :
    trim (front ++ back) = trim back := by
  rw [trim, trimStart_of_blank blank, trim]

theorem trimEnd_append_word (word : ∀ c ∈ w, isBlank c = false) (some : w ≠ []) (front back : Text) :
    trimEnd (front ++ (w ++ back)) = front ++ (w ++ trimEnd back) := by
  obtain ⟨start, last, rfl⟩ := List.eq_nil_or_concat w |>.resolve_left some
  have mark := word last (by simp)
  have whole : front ++ (start.concat last ++ back) = (front ++ start) ++ last :: back := by simp
  rw [whole, trimEnd_append_mark mark]
  simp

theorem trimStart_of_not_blank (starts : isBlank c = false) (back : Text) :
    trimStart (c :: back) = c :: back :=
  trimStart_append_mark starts [] back

theorem trim_trimStart (t : Text) : trim (trimStart t) = trim t := by
  simp only [trim, trimStart, trimStartBy, List.dropWhile_idempotent]

theorem trim_trimEnd (t : Text) : trim (trimEnd t) = trim t := by
  by_cases blank : isBlankText t = true
  · rw [trimEnd_of_blank blank, trim_of_blank blank]
    rfl
  · simp only [isBlankText, List.all_eq_true, not_forall, Bool.not_eq_true] at blank
    obtain ⟨c, member, mark⟩ := blank
    obtain ⟨front, back, rfl⟩ := List.append_of_mem member
    simp only [trim, trimEnd_append_mark mark, trimStart_append_mark mark]
    congr 2
    exact List.rdropWhile_idempotent isBlank back

theorem trim_trim (t : Text) : trim (trim t) = trim t :=
  (trim_trimEnd (trimStart t)).trans (trim_trimStart t)

theorem trim_space_cons (t : Text) : trim (' ' :: t) = trim t :=
  trim_append_of_blank (show isBlankText [' '] = true by decide) t

theorem exists_blank_trimEnd (t : Text) :
    ∃ blank, isBlankText blank = true ∧ t = trimEnd t ++ blank := by
  refine ⟨t.rtakeWhile isBlank, ?_, (List.rdropWhile_append_rtakeWhile ..).symm⟩
  rw [isBlankText, List.all_eq_true]
  exact fun c member => List.mem_rtakeWhile_imp member

theorem exists_blank_trimStart (t : Text) :
    ∃ blank, isBlankText blank = true ∧ t = blank ++ trimStart t := by
  refine ⟨t.takeWhile isBlank, ?_, List.takeWhile_append_dropWhile.symm⟩
  rw [isBlankText, List.all_eq_true]
  exact fun c member => List.mem_takeWhile_imp member

/-! ## Collapsing -/

theorem collapse_blank (blank : isBlankText t = true) :
    collapse t = if t = [] then [] else [' '] := by
  induction t with
  | nil => rfl
  | cons c rest ih =>
    simp only [isBlankText, List.all_cons, Bool.and_eq_true] at blank
    rw [if_neg (List.cons_ne_nil _ _), collapse, if_pos blank.1, ih blank.2]
    cases rest with
    | nil => rfl
    | cons next others =>
      have nextBlank : isBlank next = true := by
        have later := blank.2
        simp only [List.all_cons, Bool.and_eq_true] at later
        exact later.1
      simp [nextBlank]

theorem isBlankText_collapse (blank : isBlankText t = true) : isBlankText (collapse t) = true := by
  rw [collapse_blank blank]
  split <;> decide

theorem collapse_append_mark (mark : isBlank c = false) (front back : Text) :
    collapse (front ++ c :: back) = collapse front ++ c :: collapse back := by
  induction front with
  | nil => simp [collapse, mark]
  | cons first rest ih =>
    cases rest with
    | nil =>
      simp only [List.nil_append] at ih
      simp [collapse, mark]
      split <;> rfl
    | cons second others =>
      rw [List.cons_append, collapse, collapse, ih]
      simp only [List.cons_append, List.head?_cons, Option.any_some]
      by_cases blank : isBlank first = true
      · by_cases twice : isBlank second = true
        · simp only [blank, twice, if_true]
        · simp only [blank, twice, if_true, if_false, Bool.false_eq_true, List.cons_append]
      · simp only [blank, if_false, Bool.false_eq_true, List.cons_append]

theorem collapse_word_append (word : ∀ c ∈ w, isBlank c = false) (back : Text) :
    collapse (w ++ back) = w ++ collapse back := by
  induction w with
  | nil => rfl
  | cons c rest ih =>
    have later := ih fun next member => word next (List.mem_cons_of_mem c member)
    have mark := word c (List.mem_cons_self ..)
    rw [List.cons_append, collapse, if_neg (by simp [mark]), later, List.cons_append]

theorem head?_collapse (t : Text) :
    (collapse t).head?.any isWordChar = t.head?.any isWordChar := by
  induction t with
  | nil => rfl
  | cons c rest ih =>
    have notWord : isBlank c = true → isWordChar c = false := by
      intro blank
      cases word : isWordChar c with
      | false => rfl
      | true =>
        rw [(isWordChar_facts word).1] at blank
        cases blank
    rw [collapse]
    split
    · rename_i blank
      split
      · rename_i twice
        rw [ih, List.head?_cons, Option.any_some, notWord blank]
        cases rest with
        | nil => rfl
        | cons next others =>
          simp only [List.head?_cons, Option.any_some] at twice ⊢
          cases word : isWordChar next with
          | false => rfl
          | true =>
            rw [(isWordChar_facts word).1] at twice
            cases twice
      · simp [notWord blank]
        decide
    · rfl

/-! ## Lexemes of spaced texts -/

def Plain (t : Text) : Prop := ∀ c ∈ t, isBlank c = true → isGap c = true

theorem plain_of_lexemes (solid : ∀ w ∈ lexemes t, ∀ c ∈ w, isBlank c = false) : Plain t := by
  intro c member blank
  by_contra noGap
  have kept : c ∈ t.filter (!isGap ·) := List.mem_filter.mpr ⟨member, by simpa using noGap⟩
  rw [← flatten_lexemes] at kept
  obtain ⟨w, inLexemes, inWord⟩ := List.mem_flatten.mp kept
  rw [solid w inLexemes c inWord] at blank
  cases blank

theorem Plain.gap {blank : Text} (plain : Plain t) (sub : ∀ c ∈ blank, c ∈ t)
    (isBlank : isBlankText blank = true) : blank.all isGap = true := by
  rw [isBlankText, List.all_eq_true] at isBlank
  rw [List.all_eq_true]
  exact fun c member => plain c (sub c member) (isBlank c member)

theorem lexemes_trimStart (plain : Plain t) : lexemes (trimStart t) = lexemes t := by
  obtain ⟨blank, isBlank, whole⟩ := exists_blank_trimStart t
  have gap := plain.gap (fun c member => by rw [whole]; exact List.mem_append_left _ member) isBlank
  conv_rhs => rw [whole, lexemes_gap_append _ gap]

theorem lexemes_trimEnd (plain : Plain t) : lexemes (trimEnd t) = lexemes t := by
  obtain ⟨blank, isBlank, whole⟩ := exists_blank_trimEnd t
  have gap := plain.gap (fun c member => by rw [whole]; exact List.mem_append_right _ member) isBlank
  conv_rhs => rw [whole, lexemes_append_gap _ gap]

theorem lexemes_collapse (plain : Plain t) : lexemes (collapse t) = lexemes t := by
  induction t with
  | nil => rfl
  | cons c rest ih =>
    have later := ih fun next member => plain next (List.mem_cons_of_mem c member)
    rw [collapse]
    split
    · rename_i blank
      have gap := plain c (List.mem_cons_self ..) blank
      rw [lexemes_cons_gap _ gap]
      split
      · exact later
      · rw [lexemes_cons_gap _ (by decide), later]
    · simp only [lexemes, head?_collapse, later]

theorem isBlankText_of_gap (gap : t.all isGap = true) : isBlankText t = true := by
  rw [isBlankText, List.all_eq_true]
  exact fun c member => isBlank_of_isGap (List.all_eq_true.mp gap c member)

section Words

variable {gap : Text} (gaps : gap.all isGap = true) (solid : ∀ c ∈ w, isBlank c = false)
  (some : w ≠ [])

include solid some

theorem collapse_gap_word (gap rest : Text) :
    collapse (gap ++ (w ++ rest)) = collapse gap ++ (w ++ collapse rest) := by
  cases w with
  | nil => exact absurd rfl some
  | cons first others =>
    have mark := solid first (List.mem_cons_self ..)
    have later := collapse_word_append (fun c member => solid c (List.mem_cons_of_mem _ member)) rest
    rw [List.cons_append, collapse_append_mark mark, later, List.cons_append]

include gaps

theorem trim_collapse_gap_word (rest : Text) :
    trim (collapse (gap ++ (w ++ rest))) = w ++ trimEnd (collapse rest) := by
  have blank := isBlankText_collapse (isBlankText_of_gap gaps)
  rw [collapse_gap_word solid some, trim_append_of_blank blank, trim]
  cases w with
  | nil => exact absurd rfl some
  | cons first others =>
    rw [List.cons_append, trimStart_of_not_blank (solid first (List.mem_cons_self ..)),
      ← List.cons_append]
    exact trimEnd_append_word solid some [] _

/-- A gap between two words becomes one space. -/
theorem trimEnd_collapse_gap_word (gapped : gap ≠ []) (rest : Text) :
    trimEnd (collapse (gap ++ (w ++ rest))) = ' ' :: trim (collapse (gap ++ (w ++ rest))) := by
  rw [trim_collapse_gap_word gaps solid some, collapse_gap_word solid some,
    collapse_blank (isBlankText_of_gap gaps), if_neg gapped]
  exact trimEnd_append_word solid some [' '] _

end Words

/-- A text of words, trimmed and collapsed, is its words with single spaces between them. -/
theorem trim_collapse_words {ws : List Text} (words : ∀ w ∈ ws, w.all isWordChar = true)
    (cut : lexemes t = ws) : trim (collapse t) = unwords ws := by
  induction ws generalizing t with
  | nil =>
    have blank := isBlankText_of_gap (all_isGap_of_lexemes cut)
    rw [trim_of_blank (isBlankText_collapse blank)]
    rfl
  | cons w later ih =>
    have solid : ∀ w' ∈ w :: later, ∀ c ∈ w', isBlank c = false :=
      fun w' inWords => isBlank_of_mem_word (words w' inWords)
    obtain ⟨gap, rest, rfl, gaps, single, others, apart⟩ := lexemes_eq_cons cut
    have next := ih (fun w' member => words w' (List.mem_cons_of_mem w member)) others
    rw [trim_collapse_gap_word gaps (solid w (List.mem_cons_self ..)) (ne_nil_of_lexemes single)]
    cases later with
    | nil =>
      have blank := isBlankText_of_gap (all_isGap_of_lexemes others)
      rw [trimEnd_of_blank (isBlankText_collapse blank), List.append_nil]
      simp [unwords]
    | cons second more =>
      obtain ⟨between, tail, rfl, gaps', single', -, -⟩ := lexemes_eq_cons others
      have inWords : second ∈ w :: second :: more := by simp
      have gapped : between ≠ [] := by
        rintro rfl
        exact not_apart_words (words w (List.mem_cons_self ..)) (ne_nil_of_lexemes single)
          (words second inWords) (ne_nil_of_lexemes single') tail apart
      rw [trimEnd_collapse_gap_word gaps' (solid second inWords) (ne_nil_of_lexemes single') gapped,
        next]
      simp [unwords, List.intercalate]

/-! ## Forms of members -/

theorem mapCode_of_unquoted (unquoted : '"' ∉ t) (change : Text → Text) :
    mapCode change t = change t := by
  have whole : ∀ (q : Quoting) (t : Text), q.inside = false → '"' ∉ t →
      q.chunks t = [⟨false, t⟩] := by
    intro q t outside unquoted
    induction t generalizing q with
    | nil => simp [Quoting.chunks, outside]
    | cons c rest ih =>
      simp only [List.mem_cons, not_or] at unquoted
      have noQuote : q.isQuote c = false := by simp [Quoting.isQuote, Ne.symm unquoted.1]
      have later := ih (q.next c) (by simp [Quoting.next, noQuote, outside]) unquoted.2
      simp [Quoting.chunks, noQuote, later, Chunk.extend]
  simp [mapCode, chunks, whole {} t rfl unquoted]

theorem spaceAssignments_of_not_mem (absent : ':' ∉ t) : spaceAssignments t = t := by
  fun_induction spaceAssignments t with
  | case1 => rfl
  | case2 rest ih => simp at absent
  | case3 c rest other ih =>
    simp only [List.mem_cons, not_or] at absent
    rw [ih absent.2]

theorem neat_of_bare (unquoted : '"' ∉ t) (unassigned : ':' ∉ t) : neat t = trim (collapse t) := by
  rw [neat, mapCode_of_unquoted unquoted, spaceAssignments_of_not_mem unassigned]

end Text

end AsnLayout
