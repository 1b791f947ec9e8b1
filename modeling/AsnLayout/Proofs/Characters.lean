import AsnLayout.Proofs.Conservation
import Mathlib.Algebra.Order.Group.Multiset

/-!
# Characters that formatting keeps

Whatever a source holds, formatting changes nothing about its characters but blanks, commas, braces
and their order: a comment may move past the code around it.
-/

set_option autoImplicit false

namespace AsnLayout

/-- Whether a character is kept by formatting: neither blank nor a comma nor a brace. -/
def isInk (c : Char) : Bool := !Text.isBlank c && c ≠ ',' && c ≠ '{' && c ≠ '}'

/-- The characters of a text that are kept, in no order. -/
def inkTally : Tally (Multiplicative (Multiset Char)) where
  of c := Multiplicative.ofAdd (if isInk c then {c} else 0)
  of_blank := by
    intro c blank
    simp [isInk, blank]
  of_comma := by
    simp [isInk]

theorem inkTally_text (t : Text) :
    inkTally.text t = Multiplicative.ofAdd (Multiset.ofList (t.filter isInk)) := by
  induction t with
  | nil => rfl
  | cons c rest ih =>
    rw [Tally.text_cons, ih]
    cases ink : isInk c with
    | true => simp [inkTally, ink, ← ofAdd_add]
    | false => simp [inkTally, ink]

theorem inkTally_cuttable : inkTally.Cuttable fun _ => True where
  members_kept := by
    intro t _
    apply Tally.texts_members
    intro segment _ noMember
    simp only [Text.isMember, ne_eq, Bool.and_eq_false_iff, decide_eq_false_iff_not,
      not_not] at noMember
    rcases noMember with (rfl | rfl) | rfl
    · rfl
    · rfl
    · rfl
  member := by
    intro _ _ _ _
    trivial
  inside := by
    intro _ _ _ _ _ _ _ _
    trivial

theorem inkTally_fits : inkTally.Fits (fun _ => True) fun _ => True where
  tail := by
    intro _ _ _
    trivial
  inlineIn := by
    intro _ _ _ _ _ _ _ _ _ _ _ _ _ _
    trivial
  itemIn := by
    intro _ _ _ _ _ node _ _ _ _ _
    exact Node.itemIn_of_forall (fun _ => trivial) node

theorem inkTally_orderly (lines : List Text) : inkTally.Orderly false lines := by
  left
  intro t m
  exact mul_comm _ _

/-- Formatting loses, doubles and adds no character but blanks, commas and braces. -/
theorem format_perm_source (source : Text) (configuration : Configuration) :
    ((Format.text source configuration).result.filter isInk).Perm (source.filter isInk) := by
  have kept := Tally.text_format inkTally_cuttable inkTally_fits source configuration
    (fun _ _ => trivial) (fun _ _ => inkTally_orderly _)
  rw [inkTally_text, inkTally_text] at kept
  exact Multiset.coe_eq_coe.mp (Multiplicative.ofAdd.injective kept)

end AsnLayout
