import AsnLayout.Layout.Document
import AsnLayout.Proofs.Hidden
import AsnLayout.Tree.Reader

/-!
# Cutting texts with literals

A text is cut at braces, commas and assignment signs outside of literals only, so the parts hide
what the whole hides, one behind the other.
-/

set_option autoImplicit false

namespace AsnLayout

/-- A mark at a position of a marked text tells how the scan sees the character there. -/
theorem Quoting.exists_of_marks {q : Quoting} {t : Text} {front back : List Mark} {mark : Mark}
    (cut : q.marks t = front ++ mark :: back) :
    ∃ before c after, t = before ++ c :: after ∧ before.length = front.length ∧
      mark = ⟨c, (q.after before).exposes c⟩ := by
  have whole := Quoting.marks_split q t front back mark cut
  refine ⟨_, _, _, whole, by simp, ?_⟩
  rw [whole, Quoting.marks_append, Quoting.marks] at cut
  obtain ⟨-, later⟩ := List.append_inj cut (by simp)
  exact (List.cons.inj later).1.symm

namespace Text

inductive HidesAll : List Text → Text → Prop where
  | nil : HidesAll [] []
  | cons {t : Text} {later : List Text} {held held' : Text} (hides : Hides t held)
      (others : HidesAll later held') : HidesAll (t :: later) (held ++ held')

namespace HidesAll

variable {ts : List Text} {held : Text}

theorem map {change : Text → Text} (keeps : ∀ t held, Hides t held → Hides (change t) held)
    (all : HidesAll ts held) : HidesAll (ts.map change) held := by
  induction all with
  | nil => exact .nil
  | cons hides others ih => exact .cons (keeps _ _ hides) ih

theorem filter {test : Text → Bool} (empty : ∀ t, test t = false → hidden t = [])
    (all : HidesAll ts held) : HidesAll (ts.filter test) held := by
  induction all with
  | nil => exact .nil
  | @cons t later held held' hides others ih =>
    rw [List.filter_cons]
    split
    · exact .cons hides ih
    · rename_i dropped
      have none : held = [] := hides.hidden.symm.trans (empty t (by simpa using dropped))
      rw [none, List.nil_append]
      exact ih

end HidesAll

def isUnmarked (t : Text) : Bool := t.all (· ∉ ['"', '-', '*', '\n'])

theorem not_mem_of_isUnmarked {t : Text} (unmarked : isUnmarked t = true) {mark : Char}
    (isMark : mark ∈ ['"', '-', '*', '\n']) : mark ∉ t := by
  intro member
  have other := List.all_eq_true.mp unmarked mark member
  exact of_decide_eq_true other isMark

namespace Hides

variable {t held : Text}

/-- The first character of code that passes a test cuts a text. -/
theorem findExposed? {test : Char → Bool} {index : Nat} (hides : Hides t held)
    (found : Text.findExposed? t test = some index) (plain : test '\\' = false) :
    ∃ first second, held = first ++ second ∧ Hides (t.take index) first ∧
      Hides (t.drop (index + 1)) second := by
  simp only [Text.findExposed?, Int.toNat_zero, List.drop_zero, Nat.add_zero,
    Option.map_id'] at found
  obtain ⟨small, passes, -⟩ := List.findIdx?_eq_some_iff_getElem.mp found
  have cut := (List.take_append_drop index (marks t)).symm
  rw [List.drop_eq_getElem_cons small] at cut
  obtain ⟨before, c, after, rfl, size, mark⟩ := Quoting.exists_of_marks cut
  rw [List.length_take, Nat.min_eq_left (Nat.le_of_lt small)] at size
  rw [mark, Mark.passes, Bool.and_eq_true] at passes
  subst size
  have other : c ≠ '\\' := by
    rintro rfl
    rw [plain] at passes
    cases passes.2
  simpa using hides.cut passes.1 other

theorem groupEnd? {index : Nat} (hides : Hides t held) (found : Text.groupEnd? t = some index) :
    ∃ first second, held = first ++ second ∧ Hides (t.take index) first ∧
      Hides (t.drop (index + 1)) second := by
  obtain ⟨front, mark, back, cut, size, closes⟩ := closeIndex?_eq_some 0 (marks t) index found
  obtain ⟨before, c, after, rfl, size', rfl⟩ := Quoting.exists_of_marks cut
  simp only [Mark.is, Bool.and_eq_true, decide_eq_true_eq] at closes
  obtain ⟨shown, rfl⟩ := closes
  rw [size] at size'
  subst size'
  simpa using hides.cut shown (by decide)

/-- The segments of a text hide what the text hides, the first one with what stands before it. -/
theorem segments {delimiter : Char → Bool} (plain : delimiter '\\' = false) {front : Text}
    {depth : Nat} (hides : Hides (front ++ t) held) :
    ∃ first later,
      Text.segments delimiter depth ((Quoting.after {} front).marks t) = first :: later ∧
      HidesAll ((front ++ first) :: later) held := by
  induction t generalizing front depth held with
  | nil =>
    rw [← List.append_nil held]
    exact ⟨[], [], rfl, .cons hides .nil⟩
  | cons c rest ih =>
    -- A character that cuts nothing goes to the first segment behind it.
    have onward : ∀ depth' : Nat, ∃ first later,
        (Text.segments delimiter depth' (((Quoting.after {} front).next c).marks rest)).modifyHead
          (c :: ·) = first :: later ∧ HidesAll ((front ++ first) :: later) held := by
      intro depth'
      have whole : Hides ((front ++ [c]) ++ rest) held := by simpa using hides
      obtain ⟨first, later, cut, all⟩ := @ih held (front ++ [c]) depth' whole
      rw [Quoting.after_append] at cut
      refine ⟨c :: first, later, ?_, by simpa using all⟩
      rw [show (Quoting.after {} front).next c = (Quoting.after {} front).after [c] from rfl, cut]
      rfl
    rw [Quoting.marks, Text.segments]
    split
    · exact onward _
    · split
      · exact onward _
      · split
        · rename_i cuts
          simp only [Mark.passes, Bool.and_eq_true, decide_eq_true_eq] at cuts
          have other : c ≠ '\\' := by
            rintro rfl
            rw [plain] at cuts
            cases cuts.1.2
          obtain ⟨first, second, rfl, early, late⟩ := hides.cut cuts.1.1 other
          obtain ⟨next, later, cut, all⟩ := @ih second [] depth late
          refine ⟨[], next :: later, ?_, ?_⟩
          · rw [Quoting.next_of_exposes cuts.1.1 other]
            exact congrArg _ cut
          · rw [List.append_nil]
            exact .cons early all
        · exact onward _

theorem members (hides : Hides t held) : HidesAll (Text.members t) held := by
  obtain ⟨first, later, cut, all⟩ :=
    @segments t held (· = ',') (by decide) [] 0 hides
  have cut : Text.segments (· = ',') 0 (marks t) = first :: later := cut
  rw [Text.members, cut]
  refine (all.map fun _ _ hides => hides.memberForm).filter ?_
  intro segment dropped
  rw [isMember, Bool.and_eq_false_iff, Bool.and_eq_false_iff] at dropped
  simp only [decide_eq_false_iff_not, ne_eq, Decidable.not_not] at dropped
  rcases dropped with (rfl | rfl) | rfl <;> rfl

theorem append_unmarked (hides : Hides t held) {more : Text}
    (unmarked : isUnmarked more = true) : Hides (t ++ more) held := by
  obtain ⟨⟨closed, noSign, single⟩, rfl⟩ := hides
  have noQuote : '"' ∉ more := not_mem_of_isUnmarked unmarked (by decide)
  have noHyphen : '-' ∉ more := not_mem_of_isUnmarked unmarked (by decide)
  have noStar : '*' ∉ more := not_mem_of_isUnmarked unmarked (by decide)
  have quiet : ∀ (q : Quoting) (more : Text), '-' ∉ more → q.hasSign more = false := by
    intro q more
    induction more generalizing q with
    | nil => exact fun _ => rfl
    | cons c rest ih =>
      intro absent
      simp only [List.mem_cons, not_or] at absent
      rw [Quoting.hasSign, ih _ absent.2]
      simp [Ne.symm absent.1]
  refine ⟨⟨?_, ?_, ?_⟩, ?_⟩
  · rw [Quoting.after_append, Quoting.inside_after noQuote, closed]
  · rw [Quoting.hasSign_append _ _ (fun first => noHyphen (List.mem_of_mem_head? first))
      (fun first => noStar (List.mem_of_mem_head? first)), noSign, quiet _ _ noHyphen]
    rfl
  · simp only [List.mem_append, not_or]
    exact ⟨single, not_mem_of_isUnmarked unmarked (by decide)⟩
  · rw [Text.hidden, Quoting.hidden_append, Quoting.hidden_of_absent closed noQuote,
      List.append_nil]
    rfl

theorem space {back held' : Text} (hides : Hides t held) (hides' : Hides back held') :
    Hides (t ++ ' ' :: back) (held ++ held') := hides.join hides' (by decide) (by decide)

theorem withComma (hides : Hides t held) (comma : Bool) :
    Hides (Layout.withComma t comma) held := by
  unfold Layout.withComma
  split
  · exact hides.append_unmarked (by decide)
  · exact hides

theorem opener (hides : Hides t held) : Hides (Layout.opener t) held := by
  unfold Layout.opener
  split
  · rename_i empty
    subst empty
    exact hides.append_unmarked (by decide)
  · exact hides.append_unmarked (by decide)

theorem closer (hides : Hides t held) (comma : Bool) : Hides (Layout.closer t comma) held := by
  have brace : Hides ['}'] [] := nil.append_unmarked (by decide)
  unfold Layout.closer
  refine withComma ?_ comma
  split
  · rename_i empty
    subst empty
    rw [hides.eq_nil]
    exact brace
  · exact brace.space hides

/-! ## Groups -/

theorem inlineGroup? {front early : Text} {group : Layout.InlineGroup} (fronts : Hides front early)
    (hides : Hides t held) (found : Layout.inlineGroup? front t = some group) :
    ∃ first second third, held = first ++ second ++ third ∧ Hides group.header (early ++ first) ∧
      HidesAll group.members second ∧ Hides group.trailer third := by
  unfold Layout.inlineGroup? at found
  split at found
  · cases found
  · rename_i brace opens
    obtain ⟨first, inner, rfl, header, inside⟩ := hides.findExposed? opens (by decide)
    simp only at found
    split at found
    · cases found
    · rename_i close closes
      obtain ⟨second, third, rfl, members, trailer⟩ := inside.groupEnd? closes
      cases found
      exact ⟨first, second, third, (List.append_assoc ..).symm, (fronts.space header.trim).trim,
        members.members, trailer.trim⟩

theorem shapeOf_opened {header first : Text} (hides : Hides t held)
    (shape : Reader.shapeOf t = .opened header first) :
    ∃ early late, held = early ++ late ∧ Hides header early ∧ Hides first late := by
  unfold Reader.shapeOf at shape
  split at shape
  · cases shape
  · rename_i brace opens
    obtain ⟨early, late, rfl, before, inside⟩ := hides.findExposed? opens (by decide)
    simp only at shape
    split at shape
    · cases shape
      exact ⟨early, late, rfl, before.neat, inside⟩
    · split at shape
      · cases shape
      · split at shape <;> cases shape

theorem shapeOf_inline {header inside trailer : Text} (hides : Hides t held)
    (shape : Reader.shapeOf t = .inline header inside trailer) :
    ∃ first second third, held = first ++ second ++ third ∧ Hides header first ∧
      Hides inside second ∧ Hides trailer third := by
  unfold Reader.shapeOf at shape
  split at shape
  · cases shape
  · rename_i brace opens
    obtain ⟨first, inner, rfl, before, inside⟩ := hides.findExposed? opens (by decide)
    simp only at shape
    split at shape
    · cases shape
    · rename_i close closes
      obtain ⟨second, third, rfl, members, behind⟩ := inside.groupEnd? closes
      split at shape
      · cases shape
      · split at shape
        · cases shape
        · cases shape
          exact ⟨first, second, third, (List.append_assoc ..).symm, before.neat, members, behind⟩

end Hides

/-! ## Definitions -/

theorem eq_of_cutAt? {mark t before after : Text} (found : cutAt? mark t = some (before, after)) :
    t = before ++ mark ++ after := by
  induction t generalizing before with
  | nil =>
    rw [cutAt?] at found
    split at found
    · rename_i empty
      cases found
      rw [List.isEmpty_iff.mp empty]
      rfl
    · cases found
  | cons c rest ih =>
    rw [cutAt?] at found
    split at found
    · rename_i starts
      cases found
      exact (List.prefix_iff_eq_append.mp (List.isPrefixOf_iff_prefix.mp starts)).symm
    · obtain ⟨⟨early, late⟩, later, same⟩ := Option.map_eq_some_iff.mp found
      cases same
      rw [ih later]
      rfl

theorem Hides.definitionSides {line held : Text}
    (hides : Hides (codeLine (Text.trim line)).code held)
    (sign : (Quoting.after {} (Reader.definitionSides line).1).inside = false) :
    ∃ first second, held = first ++ second ∧ Hides (Reader.definitionSides line).1 first ∧
      Hides (Reader.definitionSides line).2 second := by
  cases found : cutAt? assignmentSign (codeLine (Text.trim line)).code with
  | none =>
    have sides : Reader.definitionSides line = ((codeLine (Text.trim line)).code, []) := by
      simp only [Reader.definitionSides, found, Option.getD_none]
    rw [sides]
    exact ⟨held, [], (List.append_nil held).symm, hides, .nil⟩
  | some sides =>
    obtain ⟨before, after⟩ := sides
    have cut : Reader.definitionSides line = (before, after) := by
      simp only [Reader.definitionSides, found, Option.getD_some]
    rw [cut] at sign ⊢
    have whole : (codeLine (Text.trim line)).code = before ++ ':' :: ':' :: '=' :: after := by
      rw [eq_of_cutAt? found, List.append_assoc]
      rfl
    have shown : (Quoting.after {} before).exposes ':' = true := by
      simp [Quoting.exposes, Quoting.isQuote, sign]
    rw [whole] at hides
    obtain ⟨first, second, rfl, early, late⟩ := hides.cut shown (by decide)
    have type := (late.of_cons (by decide) (by decide)).of_cons (by decide) (by decide)
    exact ⟨first, second, rfl, early, type⟩

end Text

end AsnLayout
