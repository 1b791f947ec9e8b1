import AsnLayout.Proofs.BraceDepth
import AsnLayout.Proofs.Pairing
import Mathlib.Order.Bounds.Basic

/-!
# Matching braces

The brace that closes a group is found by counting the groups still open behind the opening brace.
It is the first brace up to which the braces of the group balance, so cutting the group out of a
text leaves the balance of the text as it was.
-/

set_option autoImplicit false

namespace AsnLayout

open Mark (openBraces)

/-! ## Counting on from an open group -/

section

variable {nested index : Nat} {marks : List Mark}

/-- The search for the end of a group stops where no group is left open, and else goes on with the
groups that are open behind the first character. -/
theorem closeIndex?_cons (nested : Nat) (mark : Mark) (rest : List Mark) :
    ((nested : Int) + 1 + mark.braceStep = 0 ∧ closeIndex? nested (mark :: rest) = some 0) ∨
      ∃ next : Nat, (next : Int) + 1 = nested + 1 + mark.braceStep ∧
        closeIndex? nested (mark :: rest) = (closeIndex? next rest).map (· + 1) := by
  rw [closeIndex?.eq_def, Mark.braceStep]
  by_cases opens : mark.is '{'
  · exact .inr ⟨nested + 1, by simp [opens], by simp [opens]⟩
  · by_cases closes : mark.is '}'
    · cases nested with
      | zero => exact .inl (by simp [opens, closes])
      | succ nested => exact .inr ⟨nested, by simp [opens, closes], by simp [opens, closes]⟩
    · exact .inr ⟨nested, by simp [opens, closes], by simp [opens, closes]⟩

/-- Up to the end of a group, if it has one, the group itself stays open. -/
theorem openBraces_pos {count : Nat}
    (before : ∀ index, closeIndex? nested marks = some index → count ≤ index) :
    0 < (nested : Int) + 1 + openBraces (marks.take count) := by
  -- The scan keeps count of the groups open inside of the one it ends.
  induction marks generalizing nested count with
  | nil =>
    rw [List.take_nil, Mark.openBraces_nil]
    omega
  | cons mark rest ih =>
    cases count with
    | zero =>
      rw [List.take_zero, Mark.openBraces_nil]
      omega
    | succ count =>
      obtain ⟨-, stops⟩ | ⟨next, step, goesOn⟩ := closeIndex?_cons nested mark rest
      · exact absurd (before 0 stops) (Nat.not_succ_le_zero count)
      · have later : 0 < (next : Int) + 1 + openBraces (rest.take count) := by
          refine ih fun index found => Nat.le_of_succ_le_succ (before (index + 1) ?_)
          rw [goesOn, found, Option.map_some]
        rw [List.take_succ_cons, Mark.openBraces_cons]
        omega

theorem openBraces_of_closeIndex? (found : closeIndex? nested marks = some index) :
    (nested : Int) + 1 + openBraces (marks.take (index + 1)) = 0 := by
  induction marks generalizing nested index with
  | nil => cases found
  | cons mark rest ih =>
    rw [List.take_succ_cons, Mark.openBraces_cons]
    obtain ⟨closed, stops⟩ | ⟨next, step, goesOn⟩ := closeIndex?_cons nested mark rest
    · rw [stops] at found
      cases found
      rw [List.take_zero, Mark.openBraces_nil]
      omega
    · rw [goesOn] at found
      obtain ⟨later, there, rfl⟩ := Option.map_eq_some_iff.mp found
      have closed := ih there
      omega

end

theorem Quoting.marks_take (q : Quoting) (t : Text) (count : Nat) :
    q.marks (t.take count) = (q.marks t).take count := by
  induction t generalizing q count with
  | nil => rw [List.take_nil, Quoting.marks, List.take_nil]
  | cons c rest ih =>
    cases count with
    | zero => rfl
    | succ count => rw [List.take_succ_cons, Quoting.marks, ih, Quoting.marks, List.take_succ_cons]

namespace Text

variable {front back : Text} {c : Char}

/-! ## Characters of code -/

theorem mem_exposed {t : Text} {i : Nat} : (i, c) ∈ exposed t ↔ (marks t)[i]? = some ⟨c, true⟩ := by
  simp only [exposed, List.mem_filterMap, Prod.exists, List.mem_zipIdx_iff_getElem?]
  constructor
  · rintro ⟨⟨d, shown⟩, position, found, isCode⟩
    cases shown with
    | false => cases isCode
    | true =>
      cases isCode
      exact found
  · exact fun found => ⟨⟨c, true⟩, i, found, rfl⟩

/-- A character of code stands between what is read before it and what is read behind it. -/
theorem exists_of_mem_exposed {t : Text} {i : Nat} (shown : (i, c) ∈ exposed t) :
    ∃ front back, t = front ++ c :: back ∧ front.length = i ∧
      (Quoting.after {} front).exposes c = true := by
  rw [mem_exposed] at shown
  obtain ⟨small, here⟩ := List.getElem?_eq_some_iff.mp shown
  have cut := (List.take_append_drop i (marks t)).symm
  rw [List.drop_eq_getElem_cons small, here] at cut
  obtain ⟨front, d, back, whole, size, same⟩ := Quoting.exists_of_marks cut
  obtain ⟨rfl, seen⟩ := Mark.mk.inj same
  rw [List.length_take, Nat.min_eq_left (Nat.le_of_lt small)] at size
  exact ⟨front, back, whole, size, seen.symm⟩

theorem mem_exposed_append (shown : (Quoting.after {} front).exposes c = true) (back : Text) :
    (front.length, c) ∈ exposed (front ++ c :: back) := by
  rw [mem_exposed, marks, Quoting.marks_append, List.getElem?_append_right (by simp)]
  simp [Quoting.marks, shown]

/-- Behind a character of code, a backslash apart, a text is marked as if it began there. -/
theorem marks_cut (shown : (Quoting.after {} front).exposes c = true) (plain : c ≠ '\\') :
    marks (front ++ c :: back) = marks front ++ ⟨c, true⟩ :: marks back := by
  rw [marks, Quoting.marks_append, Quoting.marks, shown, Quoting.next_of_exposes shown plain]
  rfl

theorem braceBalance_cut (shown : (Quoting.after {} front).exposes c = true) (plain : c ≠ '\\') :
    braceBalance (front ++ c :: back) =
      braceBalance front + (Mark.braceStep ⟨c, true⟩ + braceBalance back) := by
  simp only [braceBalance_eq_openBraces, marks_cut shown plain, Mark.openBraces_append,
    Mark.openBraces_cons]

/-! ## The group of a brace -/

/-- The positions behind `i` up to which the braces of a text balance, `i` included. -/
def balancedEnds (t : Text) (i : Nat) : Set Nat :=
  {j | i < j ∧ braceBalance ((t.take (j + 1)).drop i) = 0}

/-- From an opening brace on, the group of the brace is open besides what is opened behind it. -/
theorem braceBalance_slice (front back : Text) {stop : Nat} (beyond : front.length < stop) :
    braceBalance (((front ++ '{' :: back).take stop).drop front.length) =
      1 + openBraces ((marks back).take (stop - (front.length + 1))) := by
  obtain ⟨count, rfl⟩ : ∃ count, stop = front.length + (count + 1) :=
    ⟨stop - (front.length + 1), by omega⟩
  have slice : ((front ++ '{' :: back).take (front.length + (count + 1))).drop front.length =
      '{' :: back.take count := by
    rw [List.take_length_add_append, List.drop_left, List.take_succ_cons]
  have brace : ∀ t : Text, marks ('{' :: t) = ⟨'{', true⟩ :: marks t := fun _ => rfl
  have size : front.length + (count + 1) - (front.length + 1) = count := by omega
  rw [slice, size, braceBalance_eq_openBraces, brace, Mark.openBraces_cons, marks,
    Quoting.marks_take]
  rfl

theorem closerOf_brace (front back : Text) :
    closerOf (front ++ '{' :: back) front.length =
      .ok ((groupEnd? back).map (· + (front.length + 1))) := by
  have behind : (front ++ '{' :: back).drop (front.length + 1) = back := by
    rw [← List.drop_drop, List.drop_left]
    rfl
  rw [closerOf, if_pos ⟨by omega, by simp⟩, Int.toNat_natCast, behind]

/-- The group of an opening brace ends where its braces balance for the first time. -/
theorem isLeast_of_groupEnd? {index : Nat} (found : groupEnd? back = some index) :
    IsLeast (balancedEnds (front ++ '{' :: back) front.length) (index + (front.length + 1)) := by
  refine ⟨⟨by omega, ?_⟩, fun j ⟨beyond, balanced⟩ => ?_⟩
  · have size : index + (front.length + 1) + 1 - (front.length + 1) = index + 1 := by omega
    rw [braceBalance_slice _ _ (by omega), size]
    simpa using openBraces_of_closeIndex? found
  · -- Up to an earlier position the group is still open.
    by_contra early
    have stillOpen : 0 < ((0 : Nat) : Int) + 1 +
        openBraces ((marks back).take (j + 1 - (front.length + 1))) := by
      refine openBraces_pos fun index' found' => ?_
      rw [groupEnd?, found', Option.some.injEq] at found
      omega
    rw [braceBalance_slice _ _ (by omega)] at balanced
    omega

theorem braceBalance_slice_pos (missing : groupEnd? back = none) {stop : Nat}
    (beyond : front.length < stop) :
    0 < braceBalance (((front ++ '{' :: back).take stop).drop front.length) := by
  have stillOpen : 0 < ((0 : Nat) : Int) + 1 +
      openBraces ((marks back).take (stop - (front.length + 1))) := by
    refine openBraces_pos fun index found => ?_
    rw [groupEnd?, found] at missing
    cases missing
  rw [braceBalance_slice _ _ beyond]
  simpa using stillOpen

theorem braceBalance_group {inside after : Text}
    (closes : groupEnd? (inside ++ '}' :: after) = some inside.length) :
    braceBalance inside = 0 := by
  have closed := openBraces_of_closeIndex? closes
  have size : inside.length = (marks inside).length := by rw [marks, Quoting.length_marks]
  rw [marks_cut (exposes_of_groupEnd? closes) (by decide), size, List.take_length_add_append,
    List.take_succ_cons, List.take_zero, Mark.openBraces_append, Mark.openBraces_cons,
    ← braceBalance_eq_openBraces] at closed
  have step : Mark.braceStep ⟨'}', true⟩ = -1 := rfl
  rw [step, Mark.openBraces_nil] at closed
  omega

theorem closerOf_eq_some_iff (front back : Text) (j : Nat) :
    closerOf (front ++ '{' :: back) front.length = .ok (some j) ↔
      IsLeast (balancedEnds (front ++ '{' :: back) front.length) j := by
  rw [closerOf_brace, Except.ok.injEq]
  constructor
  · intro found
    obtain ⟨index, there, rfl⟩ := Option.map_eq_some_iff.mp found
    exact isLeast_of_groupEnd? there
  · intro least
    cases found : groupEnd? back with
    | none =>
      obtain ⟨beyond, balanced⟩ := least.1
      have opened := @braceBalance_slice_pos front back found (j + 1) (by omega)
      omega
    | some index => rw [Option.map_some, (isLeast_of_groupEnd? found).unique least]

theorem closerOf_eq_none_iff (front back : Text) :
    closerOf (front ++ '{' :: back) front.length = .ok none ↔
      ∀ k, front.length < k → k ≤ (front ++ '{' :: back).length →
        0 < braceBalance (((front ++ '{' :: back).take k).drop front.length) := by
  rw [closerOf_brace, Except.ok.injEq, Option.map_eq_none_iff]
  refine ⟨fun missing k beyond _ => braceBalance_slice_pos missing beyond, fun opened => ?_⟩
  cases found : groupEnd? back with
  | none => rfl
  | some index =>
    -- The end of the group would be a place where its braces balance.
    obtain ⟨beyond, balanced⟩ := (@isLeast_of_groupEnd? front back index found).1
    obtain ⟨inside, after, rfl, rfl⟩ := groupEnd?_eq_some _ _ found
    have positive := opened (inside.length + (front.length + 1) + 1) (by omega) (by simp; omega)
    omega

/-- The brace found is one of the code, and the text around the group has the balance of the
whole. -/
theorem closerOf_cut {j : Nat} (shown : (Quoting.after {} front).exposes '{' = true)
    (found : closerOf (front ++ '{' :: back) front.length = .ok (some j)) :
    (j, '}') ∈ exposed (front ++ '{' :: back) ∧ braceBalance (front ++ '{' :: back) =
      braceBalance front + braceBalance ((front ++ '{' :: back).drop (j + 1)) := by
  rw [closerOf_brace, Except.ok.injEq] at found
  obtain ⟨index, closes, rfl⟩ := Option.map_eq_some_iff.mp found
  obtain ⟨inside, after, rfl, rfl⟩ := groupEnd?_eq_some _ _ closes
  have seen := exposes_of_groupEnd? closes
  have whole : front ++ '{' :: (inside ++ '}' :: after) =
      (front ++ '{' :: inside) ++ '}' :: after := by simp
  have place : inside.length + (front.length + 1) = (front ++ '{' :: inside).length := by
    simp only [List.length_append, List.length_cons]
    omega
  have behind : ((front ++ '{' :: inside) ++ '}' :: after).drop
      ((front ++ '{' :: inside).length + 1) = after := by
    rw [← List.drop_drop, List.drop_left]
    rfl
  constructor
  · -- Behind the opening brace the scan of the text is where the search for the end begins.
    rw [whole, place]
    refine mem_exposed_append ?_ after
    rwa [Quoting.after_append, Quoting.after_cons, Quoting.next_of_exposes shown (by decide)]
  · have opener : Mark.braceStep ⟨'{', true⟩ = 1 := rfl
    have closer : Mark.braceStep ⟨'}', true⟩ = -1 := rfl
    rw [braceBalance_cut shown (by decide), braceBalance_cut seen (by decide),
      braceBalance_group closes, opener, closer, whole, place, behind]
    omega

theorem closerOf_eq_error_iff (t : Text) (index : Int) (error : MatchError) :
    closerOf t index = .error error ↔
      error = .noBraceAt index ∧ ¬(0 ≤ index ∧ t[index.toNat]? = some '{') := by
  rw [closerOf]
  split
  · rename_i brace
    simp [brace]
  · rename_i noBrace
    rw [Except.error.injEq, and_iff_left noBrace, eq_comm]

/-- The brace matched with an opening brace of the code is the first one up to which the braces
balance: it is one of the code, and without the group the text has the same balance.  There is none
if a brace stays open up to the end of the text, and an error only if no opening brace stands at the
position. -/
theorem closerOf_first_balanced (t : Text) :
    (∀ i : Nat, (i, '{') ∈ exposed t →
      (∀ j : Nat, closerOf t i = .ok (some j) ↔ IsLeast (balancedEnds t i) j) ∧
      (∀ j : Nat, closerOf t i = .ok (some j) → (j, '}') ∈ exposed t ∧
        braceBalance t = braceBalance (t.take i) + braceBalance (t.drop (j + 1))) ∧
      (closerOf t i = .ok none ↔
        ∀ k, i < k → k ≤ t.length → 0 < braceBalance ((t.take k).drop i))) ∧
    ∀ (index : Int) (error : MatchError), closerOf t index = .error error ↔
      error = .noBraceAt index ∧ ¬(0 ≤ index ∧ t[index.toNat]? = some '{') := by
  refine ⟨fun i shown => ?_, closerOf_eq_error_iff t⟩
  obtain ⟨front, back, rfl, rfl, seen⟩ := exists_of_mem_exposed shown
  refine ⟨closerOf_eq_some_iff front back, fun j found => ?_, closerOf_eq_none_iff front back⟩
  rw [List.take_left]
  exact closerOf_cut seen found

/-- A brace behind an escaped quote, with a literal and a group inside of its own group, and a brace
that nothing closes. -/
theorem closerOf_first_balanced_around_literal :
    let text : Text := "a \\\"\x7b b \"\x7d\\\"\" \x7b\x7d, \x7d \x7b".toList
    (4, '{') ∈ exposed text ∧ closerOf text 4 = .ok (some 18) ∧ IsLeast (balancedEnds text 4) 18 ∧
      (18, '}') ∈ exposed text ∧
      braceBalance text = braceBalance (text.take 4) + braceBalance (text.drop 19) ∧
      (20, '{') ∈ exposed text ∧ closerOf text 20 = .ok none ∧
      ∀ k, 20 < k → k ≤ text.length → 0 < braceBalance ((text.take k).drop 20) := by
  intro text
  obtain ⟨matched, -⟩ := closerOf_first_balanced text
  have first : (4, '{') ∈ exposed text := by decide +kernel
  have last : (20, '{') ∈ exposed text := by decide +kernel
  have found : closerOf text 4 = .ok (some 18) := by decide +kernel
  have missing : closerOf text 20 = .ok none := by decide +kernel
  obtain ⟨least, cut, -⟩ := matched 4 first
  exact ⟨first, found, (least 18).mp found, (cut 18 found).1, (cut 18 found).2, last, missing,
    (matched 20 last).2.2.mp missing⟩

end Text

end AsnLayout
