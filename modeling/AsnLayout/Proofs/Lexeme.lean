import AsnLayout.Line
import AsnLayout.Proofs.Nesting
import AsnLayout.Proofs.SourceLines

/-!
# Words and marks

A text is cut into words of letters, digits and dots, and into marks, which are all other characters
but spaces and newlines.  The cut depends on spaces and newlines only where they part two words, so
it tells what a text says apart from its layout.
-/

set_option autoImplicit false

namespace AsnLayout

/-! ## Characters -/

def isGap (c : Char) : Bool := c = ' ' || c = '\n'

def isWordChar (c : Char) : Bool := c.isAlphanum || c = '.'

/-- Whether two texts can be put next to each other without joining a word. -/
def Text.Apart (front back : Text) : Prop :=
  front.getLast?.any isWordChar = false ∨ back.head?.any isWordChar = false

theorem isBlank_of_isGap {c : Char} (gap : isGap c = true) : Text.isBlank c = true := by
  simp only [isGap, Bool.or_eq_true, decide_eq_true_eq] at gap
  rcases gap with rfl | rfl <;> decide

theorem not_isWordChar_of_isGap {c : Char} (gap : isGap c = true) : isWordChar c = false := by
  simp only [isGap, Bool.or_eq_true, decide_eq_true_eq] at gap
  rcases gap with rfl | rfl <;> decide

theorem toNat_lt_of_isWordChar {c : Char} (word : isWordChar c = true) : c.toNat < 128 := by
  simp only [isWordChar, Char.isAlphanum] at word
  delta Char.isAlpha Char.isUpper Char.isLower Char.isDigit at word
  simp only [Bool.or_eq_true, Bool.and_eq_true, decide_eq_true_eq, ge_iff_le,
    UInt32.le_iff_toNat_le] at word
  rcases word with ((word | word) | word) | rfl
  · exact Nat.lt_of_le_of_lt word.2 (by decide)
  · exact Nat.lt_of_le_of_lt word.2 (by decide)
  · exact Nat.lt_of_le_of_lt word.2 (by decide)
  · decide

theorem isWordChar_facts {c : Char} (word : isWordChar c = true) :
    Text.isBlank c = false ∧ (c = '.' ∨ Text.joinsWord c = true) := by
  have ascii : ∀ n : Fin 128, isWordChar (Char.ofNat n) = true →
      Text.isBlank (Char.ofNat n) = false ∧
        (Char.ofNat n = '.' ∨ Text.joinsWord (Char.ofNat n) = true) := by
    decide +kernel
  have here := ascii ⟨c.toNat, toNat_lt_of_isWordChar word⟩
  rw [Char.ofNat_toNat] at here
  exact here word

theorem not_isGap_of_isWordChar {c : Char} (word : isWordChar c = true) : isGap c = false := by
  cases gap : isGap c with
  | false => rfl
  | true =>
    rw [not_isWordChar_of_isGap gap] at word
    cases word

theorem isBlank_of_mem_word {w : Text} (word : w.all isWordChar = true) :
    ∀ c ∈ w, Text.isBlank c = false :=
  fun c member => (isWordChar_facts (List.all_eq_true.mp word c member)).1

theorem not_mem_word {w : Text} (word : w.all isWordChar = true) {c : Char}
    (noWord : isWordChar c = false) : c ∉ w := by
  intro member
  rw [List.all_eq_true.mp word c member] at noWord
  cases noWord

theorem not_mem_of_gap {gap : Text} {c : Char} (gaps : gap.all isGap = true)
    (noGap : isGap c = false) : c ∉ gap := by
  intro member
  rw [List.all_eq_true.mp gaps c member] at noGap
  cases noGap

namespace Text

theorem apart_of_mark (front back : Text) {c : Char} (mark : isWordChar c = false) :
    Apart front (c :: back) := .inr (by simp [mark])

theorem Apart.of_append {front middle back : Text} (apart : Apart front (middle ++ back)) :
    Apart front middle := by
  rcases apart with ends | starts
  · exact .inl ends
  · cases middle with
    | nil => exact .inr rfl
    | cons c rest => exact .inr starts

/-! ## Cutting -/

def lexemes : Text → List Text
  | [] => []
  | c :: rest =>
    if isGap c then lexemes rest
    else if isWordChar c && rest.head?.any isWordChar then (lexemes rest).modifyHead (c :: ·)
    else [c] :: lexemes rest

@[simp]
theorem lexemes_nil : lexemes [] = [] := rfl

theorem lexemes_cons_gap {c : Char} (rest : Text) (gap : isGap c = true) :
    lexemes (c :: rest) = lexemes rest := by
  simp [lexemes, gap]

theorem lexemes_cons_join {c : Char} {rest : Text} (word : isWordChar c = true)
    (goesOn : rest.head?.any isWordChar = true) :
    lexemes (c :: rest) = (lexemes rest).modifyHead (c :: ·) := by
  simp [lexemes, not_isGap_of_isWordChar word, word, goesOn]

theorem lexemes_cons_end {c : Char} {rest : Text} (noGap : isGap c = false)
    (apart : Apart [c] rest) : lexemes (c :: rest) = [c] :: lexemes rest := by
  have stops : (isWordChar c && rest.head?.any isWordChar) = false := by
    rcases apart with ends | starts
    · simp only [List.getLast?_singleton, Option.any_some] at ends
      rw [ends, Bool.false_and]
    · rw [starts, Bool.and_false]
  simp [lexemes, noGap, stops]

/-- What the first character does: it is passed, it joins the word behind it, or it ends a word or
is a mark. -/
theorem lexemes_cons_cases (c : Char) (rest : Text) :
    (isGap c = true ∧ lexemes (c :: rest) = lexemes rest) ∨
    (isWordChar c = true ∧ rest.head?.any isWordChar = true ∧
      lexemes (c :: rest) = (lexemes rest).modifyHead (c :: ·)) ∨
    (isGap c = false ∧ Apart [c] rest ∧ lexemes (c :: rest) = [c] :: lexemes rest) := by
  cases gap : isGap c with
  | true => exact .inl ⟨rfl, lexemes_cons_gap rest gap⟩
  | false =>
    by_cases joins : isWordChar c = true ∧ rest.head?.any isWordChar = true
    · exact .inr (.inl ⟨joins.1, joins.2, lexemes_cons_join joins.1 joins.2⟩)
    · have apart : Apart [c] rest := by
        simp only [Bool.not_eq_true, not_and_or] at joins
        simpa [Apart] using joins
      exact .inr (.inr ⟨rfl, apart, lexemes_cons_end gap apart⟩)

theorem flatten_lexemes (t : Text) : (lexemes t).flatten = t.filter (!isGap ·) := by
  induction t with
  | nil => rfl
  | cons c rest ih =>
    obtain ⟨gap, cut⟩ | ⟨word, goesOn, cut⟩ | ⟨noGap, -, cut⟩ := lexemes_cons_cases c rest
    · rw [cut, ih]
      simp [gap]
    · rw [cut, List.filter_cons_of_pos (by simp [not_isGap_of_isWordChar word]), ← ih]
      cases later : lexemes rest with
      | nil =>
        rw [later] at ih
        obtain ⟨next, others, rfl⟩ : ∃ next others, rest = next :: others := by
          cases rest with
          | nil => cases goesOn
          | cons next others => exact ⟨next, others, rfl⟩
        have noGap : isGap next = false := not_isGap_of_isWordChar (by simpa using goesOn)
        simp [noGap] at ih
      | cons first others => rfl
    · rw [cut, List.flatten_cons, ih]
      simp [noGap]

theorem lexemes_ne_nil {t : Text} (starts : t.head?.any isWordChar = true) : lexemes t ≠ [] := by
  intro none
  have flat := flatten_lexemes t
  cases t with
  | nil => cases starts
  | cons c rest =>
    have noGap : isGap c = false := not_isGap_of_isWordChar (by simpa using starts)
    rw [none] at flat
    simp [noGap] at flat

theorem lexemes_append (front back : Text) (apart : Apart front back) :
    lexemes (front ++ back) = lexemes front ++ lexemes back := by
  induction front with
  | nil => rfl
  | cons c rest ih =>
    have later : rest ≠ [] → lexemes (rest ++ back) = lexemes rest ++ lexemes back := by
      intro some
      refine ih ?_
      rw [Apart, List.getLast?_cons_of_ne_nil some] at apart
      exact apart
    cases rest with
    | nil =>
      cases gap : isGap c with
      | true => rw [List.singleton_append, lexemes_cons_gap _ gap, lexemes_cons_gap _ gap]; rfl
      | false =>
        rw [List.singleton_append, lexemes_cons_end gap apart, lexemes_cons_end gap (.inr rfl)]
        rfl
    | cons next others =>
      have later := later (List.cons_ne_nil _ _)
      obtain ⟨gap, cut⟩ | ⟨word, goesOn, cut⟩ | ⟨noGap, ends, cut⟩ :=
        lexemes_cons_cases c (next :: others)
      · rw [cut, List.cons_append, lexemes_cons_gap _ gap, later]
      · rw [cut, List.cons_append, lexemes_cons_join word (by simpa using goesOn), later]
        cases found : lexemes (next :: others) with
        | nil => exact absurd found (lexemes_ne_nil goesOn)
        | cons first more => rfl
      · rw [cut, List.cons_append, lexemes_cons_end noGap (by simpa [Apart] using ends), later]
        rfl

theorem lexemes_of_gap {t : Text} (gap : t.all isGap = true) : lexemes t = [] := by
  induction t with
  | nil => rfl
  | cons c rest ih =>
    simp only [List.all_cons, Bool.and_eq_true] at gap
    rw [lexemes_cons_gap _ gap.1, ih gap.2]

theorem apart_of_gap (front : Text) {back : Text} (gap : back.all isGap = true) :
    Apart front back := by
  cases back with
  | nil => exact .inr rfl
  | cons c rest =>
    simp only [List.all_cons, Bool.and_eq_true] at gap
    exact apart_of_mark front rest (not_isWordChar_of_isGap gap.1)

theorem apart_gap_left {front : Text} (back : Text) (gap : front.all isGap = true) :
    Apart front back := by
  cases last : front.getLast? with
  | none => exact .inl (by simp [last])
  | some c =>
    have member : c ∈ front := List.mem_of_getLast? last
    have isGap := List.all_eq_true.mp gap c member
    exact .inl (by simp [last, not_isWordChar_of_isGap isGap])

theorem lexemes_gap_append {front : Text} (back : Text) (gap : front.all isGap = true) :
    lexemes (front ++ back) = lexemes back := by
  rw [lexemes_append _ _ (apart_gap_left back gap), lexemes_of_gap gap, List.nil_append]

theorem lexemes_append_gap (front : Text) {back : Text} (gap : back.all isGap = true) :
    lexemes (front ++ back) = lexemes front := by
  rw [lexemes_append _ _ (apart_of_gap front gap), lexemes_of_gap gap, List.append_nil]

theorem lexemes_mark (front back : Text) {c : Char} (noWord : isWordChar c = false)
    (noGap : isGap c = false) : lexemes (front ++ c :: back) = lexemes front ++ [c] :: lexemes back := by
  rw [lexemes_append _ _ (apart_of_mark front back noWord), lexemes_cons_end noGap]
  exact .inl (by simp [noWord])

theorem lexemes_word {w : Text} (word : w.all isWordChar = true) (some : w ≠ []) :
    lexemes w = [w] := by
  induction w with
  | nil => exact absurd rfl some
  | cons c rest ih =>
    simp only [List.all_cons, Bool.and_eq_true] at word
    cases rest with
    | nil => rw [lexemes_cons_end (not_isGap_of_isWordChar word.1) (.inr rfl)]; rfl
    | cons next others =>
      have starts : isWordChar next = true := by
        simp only [List.all_cons, Bool.and_eq_true] at word
        exact word.2.1
      rw [lexemes_cons_join word.1 (by simp [starts]), ih word.2 (List.cons_ne_nil _ _)]
      rfl

/-! ## Finding lexemes in a text -/

theorem all_isGap_of_lexemes {t : Text} (none : lexemes t = []) : t.all isGap = true := by
  have flat := flatten_lexemes t
  rw [none, List.flatten_nil] at flat
  have absent := List.filter_eq_nil_iff.mp flat.symm
  rw [List.all_eq_true]
  intro c member
  simpa using absent c member

theorem ne_nil_of_lexemes {w : Text} {first : Text} {later : List Text}
    (cut : lexemes w = first :: later) : w ≠ [] := by
  rintro rfl
  cases cut

theorem lexemes_eq_cons {t w : Text} {later : List Text} (cut : lexemes t = w :: later) :
    ∃ gap rest, t = gap ++ (w ++ rest) ∧ gap.all isGap = true ∧ lexemes w = [w] ∧
      lexemes rest = later ∧ Apart w rest := by
  induction t generalizing w later with
  | nil => cases cut
  | cons c rest ih =>
    obtain ⟨gap, here⟩ | ⟨word, goesOn, here⟩ | ⟨noGap, ends, here⟩ := lexemes_cons_cases c rest
    · obtain ⟨front, back, rfl, gaps, single, others, apart⟩ := ih (here.symm.trans cut)
      exact ⟨c :: front, back, rfl, by simp [gap, gaps], single, others, apart⟩
    · rw [here] at cut
      cases found : lexemes rest with
      | nil => exact absurd found (lexemes_ne_nil goesOn)
      | cons first more =>
        rw [found, List.modifyHead_cons, List.cons.injEq] at cut
        obtain ⟨rfl, rfl⟩ := cut
        obtain ⟨front, back, rfl, gaps, single, others, apart⟩ := ih found
        have noFront : front = [] := by
          cases front with
          | nil => rfl
          | cons next others =>
            simp only [List.all_cons, Bool.and_eq_true] at gaps
            simp [not_isWordChar_of_isGap gaps.1] at goesOn
        subst noFront
        have some := ne_nil_of_lexemes single
        have startsWord : first.head?.any isWordChar = true := by
          cases first with
          | nil => exact absurd rfl some
          | cons next others => simpa using goesOn
        refine ⟨[], back, rfl, rfl, ?_, others, ?_⟩
        · rw [lexemes_cons_join word startsWord, single]
          rfl
        · rwa [Apart, List.getLast?_cons_of_ne_nil some]
    · rw [here, List.cons.injEq] at cut
      obtain ⟨rfl, rfl⟩ := cut
      exact ⟨[], rest, rfl, rfl, lexemes_cons_end noGap (.inr rfl), rfl, ends⟩

theorem not_apart_words {w next : Text} (word : w.all isWordChar = true) (some : w ≠ [])
    (nextWord : next.all isWordChar = true) (nextSome : next ≠ []) (rest : Text) :
    ¬Apart w (next ++ rest) := by
  obtain ⟨front, last, rfl⟩ := List.eq_nil_or_concat w |>.resolve_left some
  cases next with
  | nil => exact absurd rfl nextSome
  | cons c others =>
    rw [List.all_eq_true] at word nextWord
    have ends := word last (by simp)
    have starts := nextWord c (List.mem_cons_self ..)
    simp [Apart, ends, starts]

theorem lexemes_eq_append {t : Text} {early late : List Text} (cut : lexemes t = early ++ late) :
    ∃ front back, t = front ++ back ∧ lexemes front = early ∧ lexemes back = late ∧
      Apart front back := by
  induction early generalizing t with
  | nil => exact ⟨[], t, rfl, rfl, cut, .inl rfl⟩
  | cons w early ih =>
    obtain ⟨gap, rest, rfl, gaps, single, others, apart⟩ := lexemes_eq_cons cut
    obtain ⟨front, back, rfl, here, there, ends⟩ := ih others
    refine ⟨gap ++ (w ++ front), back, by simp, ?_, there, ?_⟩
    · rw [lexemes_gap_append _ gaps, lexemes_append _ _ apart.of_append, single, here]
      rfl
    · cases front with
      | nil =>
        have some := ne_nil_of_lexemes single
        rw [List.append_nil, Apart, List.getLast?_append_of_ne_nil _ some]
        exact apart
      | cons c others =>
        rw [Apart, ← List.append_assoc, List.getLast?_append_of_ne_nil _ (List.cons_ne_nil _ _)]
        exact ends

theorem lexemes_eq_mark {t : Text} {early late : List Text} {c : Char}
    (cut : lexemes t = early ++ [c] :: late) :
    ∃ front back, t = front ++ c :: back ∧ lexemes front = early ∧ lexemes back = late := by
  obtain ⟨front, tail, rfl, here, there, -⟩ := lexemes_eq_append cut
  obtain ⟨gap, back, rfl, gaps, -, rfl, -⟩ := lexemes_eq_cons there
  exact ⟨front ++ gap, back, by simp, by rw [lexemes_append_gap _ gaps, here], rfl⟩

theorem lexemes_ofLines (parts : List Text) : lexemes (ofLines parts) = parts.flatMap lexemes := by
  induction parts with
  | nil => rfl
  | cons first later ih =>
    cases later with
    | nil => simp [ofLines]
    | cons second others =>
      rw [ofLines_cons_cons, lexemes_append _ _ (apart_of_mark _ _ (by decide)),
        lexemes_cons_gap _ (by decide), List.flatMap_cons, ih]

theorem flatMap_lexemes_lines (t : Text) : (lines t).flatMap lexemes = lexemes t := by
  rw [← lexemes_ofLines, ofLines_lines]

end Text

end AsnLayout
