import AsnLayout.Proofs.Written
import Mathlib.Algebra.FreeMonoid.Basic

/-!
# Well nested texts

A text is well nested if each bracket closes the innermost open one of its own kind.  The count of
open brackets, the count of braces alone and the stack of open brackets then agree, so cutting a
well nested text at its commas or at the braces of a group gives well nested texts again.
-/

set_option autoImplicit false

namespace AsnLayout

/-! ## Open brackets -/

def partner? (c : Char) : Option Char :=
  if c = '{' then some '}' else if c = '(' then some ')' else if c = '[' then some ']' else none

/-- The closing brackets waited for behind a character, the innermost first; there are none if the
character closes a bracket of another kind. -/
def nestChar (waiting : List Char) (c : Char) : Option (List Char) :=
  match partner? c with
  | some closer => some (closer :: waiting)
  | none =>
    if isCloser c then if waiting.head? = some c then some waiting.tail else none
    else some waiting

namespace Text

def nest (waiting : List Char) : Text → Option (List Char)
  | [] => some waiting
  | c :: rest => (nestChar waiting c).bind (nest · rest)

/-- Every bracket of a text has its partner in it. -/
def WellNested (text : Text) : Prop := nest [] text = some []

instance (text : Text) : Decidable (WellNested text) :=
  inferInstanceAs (Decidable (nest [] text = some []))

@[simp]
theorem nest_nil (waiting : List Char) : nest waiting [] = some waiting := rfl

@[simp]
theorem nest_cons (waiting : List Char) (c : Char) (rest : Text) :
    nest waiting (c :: rest) = (nestChar waiting c).bind (nest · rest) := rfl

theorem nest_append (waiting : List Char) (front back : Text) :
    nest waiting (front ++ back) = (nest waiting front).bind (nest · back) := by
  induction front generalizing waiting with
  | nil => rfl
  | cons c rest ih =>
    cases step : nestChar waiting c with
    | none => simp [step]
    | some next => simp [step, ih]

end Text

/-- The kinds of characters that nesting tells apart: opening brackets, closing brackets and all
others. -/
theorem nestChar_cases (c : Char) :
    (∃ closer, isOpener c = true ∧ (closer = '}' → c = '{') ∧
      ∀ waiting, nestChar waiting c = some (closer :: waiting)) ∨
    (isOpener c = false ∧ isCloser c = true ∧
      ∀ waiting next, nestChar waiting c = some next ↔ waiting = c :: next) ∨
    (isOpener c = false ∧ isCloser c = false ∧ ∀ waiting, nestChar waiting c = some waiting) := by
  by_cases brace : c = '{'
  · subst brace
    exact .inl ⟨'}', rfl, fun _ => rfl, fun _ => rfl⟩
  by_cases paren : c = '('
  · subst paren
    exact .inl ⟨')', rfl, by decide, fun _ => rfl⟩
  by_cases square : c = '['
  · subst square
    exact .inl ⟨']', rfl, by decide, fun _ => rfl⟩
  have noPartner : partner? c = none := by simp [partner?, brace, paren, square]
  have noOpener : isOpener c = false := by simp [isOpener, brace, paren, square]
  cases closes : isCloser c with
  | true =>
    refine .inr (.inl ⟨noOpener, rfl, ?_⟩)
    intro waiting next
    cases waiting with
    | nil => simp [nestChar, noPartner, closes]
    | cons top below => simp [nestChar, noPartner, closes]
  | false => exact .inr (.inr ⟨noOpener, rfl, fun _ => by simp [nestChar, noPartner, closes]⟩)

/-! ## Nesting as a tally -/

structure Bracketing where
  after : List Char → Option (List Char)

namespace Bracketing

instance : Monoid Bracketing where
  mul front back := ⟨fun waiting => (front.after waiting).bind back.after⟩
  one := ⟨some⟩
  mul_assoc front middle back := by
    refine congrArg Bracketing.mk (funext fun waiting => ?_)
    exact Option.bind_assoc ..
  one_mul back := rfl
  mul_one front := by
    refine congrArg Bracketing.mk (funext fun waiting => ?_)
    change (front.after waiting).bind some = front.after waiting
    cases front.after waiting <;> rfl

end Bracketing

def nesting : Tally Bracketing where
  of c := ⟨(nestChar · c)⟩
  of_blank := by
    intro c blank
    obtain ⟨closer, opens, -⟩ | ⟨-, closes, -⟩ | ⟨-, -, neutral⟩ := nestChar_cases c
    · simp only [isOpener, Bool.or_eq_true, decide_eq_true_eq] at opens
      rcases opens with (rfl | rfl) | rfl <;> exact absurd blank (by decide)
    · simp only [isCloser, Bool.or_eq_true, decide_eq_true_eq] at closes
      rcases closes with (rfl | rfl) | rfl <;> exact absurd blank (by decide)
    · exact congrArg Bracketing.mk (funext neutral)
  of_comma := rfl

theorem nesting_after (t : Text) (waiting : List Char) :
    (nesting.text t).after waiting = Text.nest waiting t := by
  induction t generalizing waiting with
  | nil => rfl
  | cons c rest ih =>
    rw [Tally.text_cons]
    change (nestChar waiting c).bind (nesting.text rest).after = _
    rw [Text.nest_cons]
    congr 1
    funext next
    exact ih next

theorem nest_eq_of_text {t u : Text} (same : nesting.text t = nesting.text u)
    (waiting : List Char) : Text.nest waiting t = Text.nest waiting u := by
  rw [← nesting_after, same, nesting_after]

/-! ## Texts without quotes -/

theorem Quoting.marks_of_unquoted (q : Quoting) (t : Text) (outside : q.inside = false)
    (unquoted : '"' ∉ t) : q.marks t = t.map (⟨·, true⟩) := by
  induction t generalizing q with
  | nil => rfl
  | cons c rest ih =>
    simp only [List.mem_cons, not_or] at unquoted
    have noQuote : q.isQuote c = false := by
      simp [Quoting.isQuote, Ne.symm unquoted.1]
    have later := ih (q.next c) (by simp [Quoting.next, noQuote, outside]) unquoted.2
    simp [Quoting.marks, Quoting.exposes, noQuote, outside, later]

theorem Text.marks_of_unquoted (t : Text) (unquoted : '"' ∉ t) : marks t = t.map (⟨·, true⟩) :=
  Quoting.marks_of_unquoted {} t rfl unquoted

/-! ## Cutting -/

/-- The first segment closes what is open, and the others are well nested. -/
theorem nest_segments (t : Text) (waiting : List Char) (nested : Text.nest waiting t = some []) :
    ∃ first later, Text.segments (· = ',') waiting.length (t.map (⟨·, true⟩)) = first :: later ∧
      Text.nest waiting first = some [] ∧ ∀ segment ∈ later, Text.WellNested segment := by
  induction t generalizing waiting with
  | nil =>
    refine ⟨[], [], rfl, nested, ?_⟩
    intro segment member
    cases member
  | cons c rest ih =>
    rw [Text.nest_cons] at nested
    obtain ⟨closer, opens, -, step⟩ | ⟨noOpener, closes, step⟩ | ⟨noOpener, noCloser, step⟩ :=
      nestChar_cases c
    · rw [step] at nested
      obtain ⟨first, later, cut, here, others⟩ := ih (closer :: waiting) nested
      refine ⟨c :: first, later, ?_, ?_, others⟩
      · rw [List.length_cons] at cut
        simp [Text.segments, Mark.passes, opens, cut]
      · simp [step, here]
    · obtain ⟨below, stepped, ended⟩ := Option.bind_eq_some_iff.mp nested
      obtain rfl := (step _ _).mp stepped
      obtain ⟨first, later, cut, here, others⟩ := ih below ended
      refine ⟨c :: first, later, ?_, ?_, others⟩
      · simp [Text.segments, Mark.passes, noOpener, closes, cut]
      · simp [stepped, here]
    · rw [step] at nested
      obtain ⟨first, later, cut, here, others⟩ := ih waiting nested
      by_cases cuts : c = ',' ∧ waiting = []
      · obtain ⟨rfl, rfl⟩ := cuts
        refine ⟨[], first :: later, ?_, rfl, ?_⟩
        · rw [List.length_nil] at cut
          simp [Text.segments, Mark.passes, isOpener, isCloser, cut]
        · intro segment member
          rcases List.mem_cons.mp member with rfl | member
          · exact here
          · exact others segment member
      · refine ⟨c :: first, later, ?_, ?_, others⟩
        · have noCut : ¬(c = ',' ∧ waiting.length = 0) := by
            simpa using cuts
          simp only [List.map_cons, Text.segments, Mark.passes, noOpener, noCloser, Bool.and_false,
            Bool.false_eq_true, if_false, Bool.true_and, Bool.and_eq_true, decide_eq_true_eq,
            if_neg noCut, cut]
          rfl
        · simp [step, here]

/-- Up to the brace that closes an open group, every bracket has its partner.  Of the brackets open
inside of the group, only the braces are counted. -/
theorem nest_take_closeIndex? (t : Text) (inner outer : List Char) (index : Nat)
    (nested : (Text.nest (inner ++ '}' :: outer) t).isSome = true)
    (found : closeIndex? (inner.count '}') (t.map (⟨·, true⟩)) = some index) :
    Text.nest inner (t.take index) = some [] := by
  induction t generalizing inner index with
  | nil => simp [closeIndex?] at found
  | cons c rest ih =>
    rw [Text.nest_cons] at nested
    -- Behind any character but the closing brace of the group the count goes on.
    have onward : ∀ inner', nestChar (inner ++ '}' :: outer) c = some (inner' ++ '}' :: outer) →
        nestChar inner c = some inner' →
        (closeIndex? (inner'.count '}') (rest.map (⟨·, true⟩))).map (· + 1) = some index →
        Text.nest inner ((c :: rest).take index) = some [] := by
      intro inner' outside inside found'
      obtain ⟨before, later, rfl⟩ := Option.map_eq_some_iff.mp found'
      rw [outside] at nested
      have ended := ih inner' before nested later
      simp [inside, ended]
    simp only [List.map_cons, closeIndex?, Mark.is, Bool.true_and, decide_eq_true_eq] at found
    split at found
    · rename_i isBrace
      subst isBrace
      exact onward ('}' :: inner) rfl rfl (by simpa using found)
    rename_i noBrace
    obtain ⟨next, stepped, later⟩ := Option.bind_eq_some_iff.mp (Option.eq_some_of_isSome nested)
    split at found
    · rename_i isBrace
      subst isBrace
      cases inner with
      | nil =>
        cases found
        rfl
      | cons top below =>
        obtain ⟨closer, opens, -⟩ | ⟨-, -, step⟩ | ⟨-, noCloser, -⟩ := nestChar_cases '}'
        · cases opens
        · have same := (step _ _).mp stepped
          simp only [List.cons_append, List.cons.injEq] at same
          obtain ⟨rfl, rfl⟩ := same
          simp only [List.count_cons_self] at found
          exact onward below stepped ((step _ _).mpr rfl) found
        · cases noCloser
    · rename_i noClose
      obtain ⟨closer, -, isBrace, step⟩ | ⟨-, -, step⟩ | ⟨-, -, step⟩ := nestChar_cases c
      · refine onward (closer :: inner) (step _) (step _) ?_
        have other : closer ≠ '}' := fun same => noBrace (isBrace same)
        rw [List.count_cons_of_ne other]
        exact found
      · have same := (step _ _).mp stepped
        cases inner with
        | nil =>
          simp only [List.nil_append, List.cons.injEq] at same
          exact absurd same.1.symm noClose
        | cons top below =>
          simp only [List.cons_append, List.cons.injEq] at same
          obtain ⟨rfl, rfl⟩ := same
          refine onward below stepped ((step _ _).mpr rfl) ?_
          rw [List.count_cons_of_ne noClose] at found
          exact found
      · exact onward inner (step _) (step _) found

/-- The search for the end of a group passes a text that leaves no more braces open than it counts. -/
theorem closeIndex?_append (t rest : Text) (inner left : List Char)
    (nested : Text.nest inner t = some left) :
    closeIndex? (inner.count '}') ((t ++ rest).map (⟨·, true⟩)) =
      (closeIndex? (left.count '}') (rest.map (⟨·, true⟩))).map (· + t.length) := by
  induction t generalizing inner with
  | nil =>
    cases nested
    simp
  | cons c more ih =>
    rw [Text.nest_cons] at nested
    obtain ⟨next, stepped, later⟩ := Option.bind_eq_some_iff.mp nested
    have onward : (closeIndex? (next.count '}') ((more ++ rest).map (⟨·, true⟩))).map (· + 1) =
        (closeIndex? (left.count '}') (rest.map (⟨·, true⟩))).map (· + (c :: more).length) := by
      rw [ih next later, Option.map_map]
      rfl
    rw [← onward]
    simp only [List.cons_append, List.map_cons, closeIndex?, Mark.is, Bool.true_and,
      decide_eq_true_eq]
    by_cases opens : c = '{'
    · subst opens
      cases stepped
      simp
    obtain ⟨closer, -, isBrace, step⟩ | ⟨-, -, step⟩ | ⟨-, noCloser, step⟩ := nestChar_cases c
    · have other : closer ≠ '}' := fun same => opens (isBrace same)
      have noClose : c ≠ '}' := by
        rintro rfl
        have stuck : nestChar [] '}' = none := by decide
        rw [step] at stuck
        cases stuck
      rw [step, Option.some.injEq] at stepped
      rw [if_neg opens, if_neg noClose, ← stepped, List.count_cons_of_ne other]
    · obtain rfl := (step _ _).mp stepped
      rw [if_neg opens]
      by_cases closes : c = '}'
      · subst closes
        simp
      · rw [if_neg closes, List.count_cons_of_ne closes]
    · have noClose : c ≠ '}' := by
        rintro rfl
        cases noCloser
      rw [step, Option.some.injEq] at stepped
      rw [if_neg opens, if_neg noClose, ← stepped]

/-- Behind an opening bracket no comma cuts the text, up to where the bracket is closed. -/
theorem segments_append (t rest : Text) (inner left : List Char)
    (nested : Text.nest inner t = some left) :
    Text.segments (· = ',') (inner.length + 1) ((t ++ rest).map (⟨·, true⟩)) =
      (Text.segments (· = ',') (left.length + 1) (rest.map (⟨·, true⟩))).modifyHead (t ++ ·) := by
  induction t generalizing inner with
  | nil =>
    cases nested
    simp only [List.nil_append]
    cases Text.segments (· = ',') (left.length + 1) (rest.map (⟨·, true⟩)) <;> rfl
  | cons c more ih =>
    rw [Text.nest_cons] at nested
    obtain ⟨next, stepped, later⟩ := Option.bind_eq_some_iff.mp nested
    have onward : (Text.segments (· = ',') (next.length + 1)
          ((more ++ rest).map (⟨·, true⟩))).modifyHead (c :: ·) =
        (Text.segments (· = ',') (left.length + 1) (rest.map (⟨·, true⟩))).modifyHead
          (c :: more ++ ·) := by
      rw [ih next later, List.modifyHead_modifyHead]
      rfl
    rw [← onward]
    simp only [List.cons_append, List.map_cons, Text.segments, Mark.passes, Bool.true_and]
    obtain ⟨closer, opens, -, step⟩ | ⟨noOpener, closes, step⟩ | ⟨noOpener, noCloser, step⟩ :=
      nestChar_cases c
    · rw [step, Option.some.injEq] at stepped
      rw [if_pos opens, ← stepped, List.length_cons]
    · obtain rfl := (step _ _).mp stepped
      simp [noOpener, closes]
    · rw [step, Option.some.injEq] at stepped
      simp [noOpener, noCloser, stepped]

/-! ## Characters in their order -/

/-- Whether a character is kept with its place: neither blank nor a comma. -/
def isSolid (c : Char) : Bool := !Text.isBlank c && c ≠ ','

def solidTally : Tally (FreeMonoid Char) where
  of c := if isSolid c then FreeMonoid.of c else 1
  of_blank := by
    intro c blank
    simp [isSolid, blank]
  of_comma := by
    simp [isSolid]

theorem solidTally_text (t : Text) : solidTally.text t = FreeMonoid.ofList (t.filter isSolid) := by
  induction t with
  | nil => rfl
  | cons c rest ih =>
    rw [Tally.text_cons, ih]
    cases solid : isSolid c with
    | true =>
      simp only [solidTally, solid, if_true, List.filter_cons_of_pos]
      rfl
    | false => simp [solidTally, solid]

theorem unquoted_of_text {t u : Text} (same : solidTally.text t = solidTally.text u)
    (unquoted : '"' ∉ u) : '"' ∉ t := by
  rw [solidTally_text, solidTally_text] at same
  have filtered : t.filter isSolid = u.filter isSolid := FreeMonoid.ofList.injective same
  intro quoted
  have kept : '"' ∈ t.filter isSolid := List.mem_filter.mpr ⟨quoted, by decide⟩
  rw [filtered] at kept
  exact unquoted (List.mem_filter.mp kept).1

/-- A text without quotes whose brackets are well nested. -/
def Text.Regular (t : Text) : Prop := '"' ∉ t ∧ Text.WellNested t

theorem regular_segments (t : Text) (regular : t.Regular) :
    ∀ segment ∈ (Text.segments (· = ',') 0 (Text.marks t)).map Text.memberForm,
      Text.Regular segment := by
  intro segment member
  obtain ⟨cut, inSegments, rfl⟩ := List.mem_map.mp member
  constructor
  · have whole := solidTally.texts_segments 0 (Text.marks t)
    rw [Text.marks, Quoting.map_char_marks] at whole
    have joined := unquoted_of_text whole regular.1
    refine unquoted_of_text (solidTally.text_memberForm cut) ?_
    intro quoted
    exact joined (List.mem_flatten.mpr ⟨cut, inSegments, quoted⟩)
  · rw [Text.marks_of_unquoted t regular.1] at inSegments
    obtain ⟨first, later, segments, here, others⟩ := nest_segments t [] regular.2
    rw [List.length_nil] at segments
    rw [segments] at inSegments
    have nested : Text.WellNested cut := by
      rcases List.mem_cons.mp inSegments with rfl | inLater
      · exact here
      · exact others cut inLater
    exact (nest_eq_of_text (nesting.text_memberForm cut) []).trans nested

/-- The first group of a text without quotes is well nested if the brackets around it can be. -/
theorem groupIn_of_nest (t : Text) (unquoted : '"' ∉ t) (waiting : List Char)
    (nested : (Text.nest waiting t).isSome = true) : Text.GroupIn Text.Regular t := by
  rintro before inside after rfl - closes
  have unquoted' : '"' ∉ inside ++ '}' :: after := by
    intro quoted
    exact unquoted (List.mem_append_right before (List.mem_cons_of_mem _ quoted))
  rw [Text.groupEnd?, Text.marks_of_unquoted _ unquoted'] at closes
  rw [Text.nest_append] at nested
  obtain ⟨outer, -, nested⟩ := Option.bind_eq_some_iff.mp (Option.eq_some_of_isSome nested)
  have inner := nest_take_closeIndex? (inside ++ '}' :: after) [] outer inside.length
    (Option.isSome_iff_exists.mpr ⟨_, nested⟩) closes
  rw [List.take_left' rfl] at inner
  exact ⟨fun quoted => unquoted' (List.mem_append_left _ quoted), inner⟩

theorem solidTally_cuttable : solidTally.Cuttable Text.Regular where
  members_kept := by
    intro t regular
    apply Tally.texts_members
    intro segment member noMember
    have nested := (regular_segments t regular segment member).2
    simp only [Text.isMember, ne_eq, Bool.and_eq_false_iff, decide_eq_false_iff_not,
      not_not] at noMember
    rcases noMember with (rfl | rfl) | rfl
    · rfl
    · exact absurd nested (by decide)
    · exact absurd nested (by decide)
  member := by
    intro t regular part inMembers
    exact regular_segments t regular part (List.mem_filter.mp inMembers).1
  inside := by
    intro t regular
    refine groupIn_of_nest t regular.1 [] ?_
    rw [regular.2]
    rfl

end AsnLayout
