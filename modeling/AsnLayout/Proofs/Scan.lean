import AsnLayout.Layout.Item

/-!
# Where comments and groups begin, and groups end

A position that a scan finds cuts the text at what was looked for: at the hyphens that start a
comment, at the opening brace of a group, or at the brace that closes it.
-/

set_option autoImplicit false

namespace AsnLayout

theorem Quoting.marks_split (q : Quoting) (text : Text) (front back : List Mark) (mark : Mark)
    (cut : q.marks text = front ++ mark :: back) :
    text = front.map Mark.char ++ mark.char :: back.map Mark.char := by
  have chars := congrArg (List.map Mark.char) cut
  rw [Quoting.map_char_marks] at chars
  simpa using chars

theorem closeIndex?_eq_some (nested : Nat) (marks : List Mark) (index : Nat)
    (found : closeIndex? nested marks = some index) :
    ∃ front mark back, marks = front ++ mark :: back ∧ front.length = index ∧
      mark.is '}' = true := by
  induction marks generalizing nested index with
  | nil => simp [closeIndex?] at found
  | cons mark rest ih =>
    -- Every branch but the one that finds the brace goes on behind the mark.
    have onward : ∀ nested', (closeIndex? nested' rest).map (· + 1) = some index →
        ∃ front mark' back, mark :: rest = front ++ mark' :: back ∧ front.length = index ∧
          mark'.is '}' = true := by
      intro nested' later
      obtain ⟨before, cut, rfl⟩ := Option.map_eq_some_iff.mp later
      obtain ⟨front, mark', back, rfl, rfl, closes⟩ := ih nested' before cut
      exact ⟨mark :: front, mark', back, rfl, rfl, closes⟩
    simp only [closeIndex?] at found
    split at found
    · exact onward (nested + 1) found
    · split at found
      · rename_i closes
        cases nested with
        | zero =>
          cases found
          exact ⟨[], mark, rest, rfl, rfl, closes⟩
        | succ nested => exact onward nested found
      · exact onward nested found

/-! ## Comments -/

namespace Quoting

variable {q : Quoting} {x : Text}

theorem exists_of_commentIndex? {t : Text} {index : Nat} (found : q.commentIndex? t = some index) :
    ∃ front rest, t = front ++ '-' :: '-' :: rest ∧ front.length = index ∧
      q.commentIndex? front = none ∧ (q.after front).inside = false := by
  induction t generalizing q index with
  | nil => cases found
  | cons c t ih =>
    rw [commentIndex?] at found
    split at found
    · rename_i starts
      simp only [Bool.and_eq_true, decide_eq_true_eq] at starts
      obtain ⟨⟨shown, rfl⟩, next⟩ := starts
      obtain ⟨rest, rfl⟩ := List.head?_eq_some_iff.mp next
      cases found
      refine ⟨[], rest, rfl, rfl, rfl, ?_⟩
      simp only [exposes, Bool.and_eq_true, Bool.not_eq_true'] at shown
      exact shown.2
    · rename_i noStart
      obtain ⟨later, there, rfl⟩ := Option.map_eq_some_iff.mp found
      obtain ⟨front, rest, rfl, rfl, free, outside⟩ := ih there
      refine ⟨c :: front, rest, rfl, rfl, ?_, outside⟩
      rw [commentIndex?, if_neg, free]
      · rfl
      · intro starts
        simp only [Bool.and_eq_true, decide_eq_true_eq] at starts noStart
        obtain ⟨more, rfl⟩ := List.head?_eq_some_iff.mp starts.2
        exact noStart ⟨starts.1, rfl⟩

theorem commentIndex?_behind (free : q.commentIndex? x = none)
    (closed : (q.after x).inside = false) (rest : Text) :
    q.commentIndex? (x ++ ' ' :: '-' :: '-' :: rest) = some (x.length + 1) := by
  induction x generalizing q with
  | nil =>
    have outside : q.inside = false := closed
    simp [commentIndex?, exposes, isQuote, next, outside]
  | cons c x ih =>
    rw [commentIndex?] at free
    split at free
    · cases free
    · rename_i noStart
      rw [List.cons_append, commentIndex?, if_neg, ih (Option.map_eq_none_iff.mp free) closed]
      · rfl
      · intro starts
        simp only [Bool.and_eq_true, decide_eq_true_eq] at starts noStart
        cases x with
        | nil => simp at starts
        | cons d x => exact noStart starts

end Quoting

/-! ## Groups -/

namespace Text

theorem findExposed?_eq_some (text : Text) (test : Char → Bool) (index : Nat)
    (found : findExposed? text test = some index) :
    ∃ front c back, text = front ++ c :: back ∧ front.length = index ∧ test c = true := by
  simp only [findExposed?, Int.toNat_zero, List.drop_zero, Nat.add_zero, Option.map_id'] at found
  obtain ⟨small, passes, _⟩ := List.findIdx?_eq_some_iff_getElem.mp found
  have cut := (List.take_append_drop index (marks text)).symm
  rw [List.drop_eq_getElem_cons small] at cut
  refine ⟨_, _, _, Quoting.marks_split {} text _ _ _ cut, ?_, ?_⟩
  · simp only [List.length_map, List.length_take]
    omega
  · simp only [Mark.passes, Bool.and_eq_true] at passes
    exact passes.2

/-- The closing brace of a group cuts the text behind the opening one. -/
theorem groupEnd?_eq_some (text : Text) (index : Nat) (found : groupEnd? text = some index) :
    ∃ inside after, text = inside ++ '}' :: after ∧ inside.length = index := by
  obtain ⟨front, mark, back, cut, size, closes⟩ := closeIndex?_eq_some 0 (marks text) index found
  have isBrace : mark.char = '}' := by
    simp only [Mark.is, Bool.and_eq_true, decide_eq_true_eq] at closes
    exact closes.2
  have split := Quoting.marks_split {} text front back mark cut
  rw [isBrace] at split
  refine ⟨_, _, split, ?_⟩
  rw [List.length_map, size]

end Text

namespace Layout

theorem inlineGroup?_eq_some (front text : Text) (group : InlineGroup)
    (found : inlineGroup? front text = some group) :
    ∃ before inside after, text = before ++ '{' :: (inside ++ '}' :: after) ∧
      Text.findExposed? text (· = '{') = some before.length ∧
      Text.groupEnd? (inside ++ '}' :: after) = some inside.length ∧
      group.header = Text.trim (front ++ ' ' :: Text.trim before) ∧
      group.members = Text.members inside ∧ group.trailer = Text.trim after := by
  unfold inlineGroup? at found
  split at found
  · cases found
  · rename_i brace opens
    obtain ⟨before, c, rest, rfl, rfl, isBrace⟩ := Text.findExposed?_eq_some _ _ _ opens
    have isBrace' : c = '{' := by simpa using isBrace
    subst isBrace'
    have behind : (before ++ '{' :: rest).drop (before.length + 1) = rest := by simp
    simp only [behind] at found
    split at found
    · cases found
    · rename_i close closes
      obtain ⟨inside, after, rfl, rfl⟩ := Text.groupEnd?_eq_some _ _ closes
      cases found
      refine ⟨before, inside, after, rfl, opens, closes, ?_, ?_, ?_⟩
      · simp
      · simp
      · simp

theorem inlineGroup?_of_groupToExpand? {options : Options} {level : Int} {text line : Text}
    {group : InlineGroup}
    (found : groupToExpand? options level text line = some group) :
    inlineGroup? [] text = some group := by
  unfold groupToExpand? at found
  split at found
  · cases found
  · rename_i inner given
    split at found
    · rw [given, ← found]
    · cases found

end Layout

end AsnLayout
