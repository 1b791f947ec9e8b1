import AsnLayout.Proofs.Neatness
import AsnLayout.Proofs.Pairing

/-!
# Masked texts

A scan sees a text with its literals masked: two hyphens are seen where a comment starts and nowhere
else.  What is seen of a neat text is what is seen of the text it was made of, made neat.
-/

set_option autoImplicit false

namespace AsnLayout

namespace Quoting

variable {q : Quoting} {x : Text}

/-! ## Masked texts -/

theorem masked_of_quiet (quiet : q.quiet x = true) :
    q.masked x = if q.inside then x.map fun _ => '"' else x := by
  induction x generalizing q with
  | nil => simp [masked, marks]
  | cons c rest ih =>
    obtain ⟨other, later⟩ := quiet_cons.mp quiet
    rw [masked_cons, ih later, inside_next other]
    cases inside : q.inside <;> simp [exposes, other, inside]

theorem masked_quote (plain : q.escaped = false) (rest : Text) :
    q.masked ('"' :: rest) = '"' :: (q.next '"').masked rest := by
  rw [masked_cons, if_neg (by simp [exposes, isQuote_of_escaped plain])]

theorem commentIndex?_eq_none_iff (q : Quoting) (t : Text) :
    q.commentIndex? t = none ↔ ¬['-', '-'] <:+: q.masked t := by
  induction t generalizing q with
  | nil => simp [commentIndex?, masked, marks]
  | cons c rest ih =>
    have starts : (q.exposes c && c = '-' && rest.head? = some '-') = true ↔
        ['-', '-'] <+: q.masked (c :: rest) := by
      rw [masked_cons, List.cons_prefix_cons]
      cases shown : q.exposes c with
      | false => simp
      | true =>
        by_cases hyphen : c = '-'
        · -- Behind a hyphen of code the scan is outside of literals, so it sees the next one.
          subst hyphen
          rw [next_of_exposes shown (by decide)]
          cases rest with
          | nil => simp [masked, marks]
          | cons d rest =>
            have second : '-' = (if exposes {} d then d else '"') ↔ d = '-' := by
              by_cases other : d = '"' <;> simp [exposes, isQuote, other, eq_comm]
            simp [masked_cons, List.cons_prefix_cons, second]
        · simp [hyphen, eq_comm]
    rw [commentIndex?]
    split
    · rename_i here
      exact iff_of_false (by simp) (not_not_intro (starts.mp here).isInfix)
    · rename_i noStart
      rw [Option.map_eq_none_iff, ih, masked_cons, List.infix_cons_iff, ← masked_cons, ← starts,
        not_or, and_iff_right noStart]

end Quoting

namespace Text

/-- The text with all that is not code written as quotes. -/
def masked (t : Text) : Text := Quoting.masked {} t

section

variable {x y : Text} (quiet : Quoting.quiet {} x = true)
  (opens : (Quoting.after {} x).escaped = false) (quiet' : Quoting.quiet ⟨false, true⟩ y = true)

include quiet opens quiet'

theorem masked_opened : masked (x ++ '"' :: y) = x ++ '"' :: y.map fun _ => '"' := by
  rw [masked, Quoting.masked_append, Quoting.masked_of_quiet quiet, Quoting.masked_quote opens,
    after_opening quiet opens, Quoting.masked_of_quiet quiet']
  rfl

theorem masked_literal (closes : (Quoting.after ⟨false, true⟩ y).escaped = false) (rest : Text) :
    masked (x ++ '"' :: (y ++ '"' :: rest)) =
      x ++ '"' :: (y.map (fun _ => '"') ++ '"' :: masked rest) := by
  rw [masked, Quoting.masked_append, Quoting.masked_of_quiet quiet, Quoting.masked_quote opens,
    after_opening quiet opens, Quoting.masked_append, Quoting.masked_of_quiet quiet',
    Quoting.masked_quote closes, after_closing quiet' closes]
  rfl

end

/-! ## Masked texts made neat -/

theorem spaced_append_mark {c : Char} (solid : isBlank c = false) (noSign : c ∉ assignmentSign)
    (front back : Text) : spaced (front ++ c :: back) = spaced front ++ c :: spaced back := by
  have noColon : c ≠ ':' := fun colon => noSign (by rw [colon]; decide)
  have noEquals : c ≠ '=' := fun equals => noSign (by rw [equals]; decide)
  have alone : spaceAssignments (c :: back) = c :: spaceAssignments back :=
    spaceAssignments_cons fun _ colon => absurd colon noColon
  rw [spaced, spaceAssignments_append (by simp [noColon.symm]) (by simp [noEquals.symm]), alone,
    collapse_append_mark solid]
  rfl

theorem spaced_append_quote (front back : Text) :
    spaced (front ++ '"' :: back) = spaced front ++ '"' :: spaced back :=
  spaced_append_mark (by decide) (by decide) front back

theorem spaced_quotes (t : Text) : spaced (t.map fun _ => '"') = t.map fun _ => '"' := by
  have quotes : ∀ c ∈ t.map fun _ => '"', c = '"' := by simp
  have absent : ':' ∉ t.map fun _ => '"' := fun member => nomatch quotes _ member
  have solid : ∀ c ∈ t.map fun _ => '"', isBlank c = false := fun c member => by
    rw [quotes c member]
    decide
  have kept := collapse_word_append solid []
  rw [List.append_nil] at kept
  rw [spaced, spaceAssignments_of_not_mem absent, kept]
  exact List.append_nil _

theorem masked_mapCode (t : Text) : masked (mapCode spaced t) = spaced (masked t) := by
  induction t using inStretches with
  | code x quiet =>
    have kept := keepsCode_spaced quiet
    rw [mapCode_of_quiet quiet, masked, masked, Quoting.masked_of_quiet quiet,
      Quoting.masked_of_quiet kept.quiet]
    rfl
  | opened x y quiet opens quiet' =>
    have kept := keepsCode_spaced quiet
    rw [mapCode_opened quiet opens quiet', masked_opened quiet opens quiet',
      masked_opened kept.quiet (kept.escaped.trans opens) quiet', spaced_append_quote,
      spaced_quotes]
  | closed x y rest quiet opens quiet' closes ih =>
    have kept := keepsCode_spaced quiet
    rw [mapCode_literal quiet opens quiet' closes, masked_literal quiet opens quiet' closes,
      masked_literal kept.quiet (kept.escaped.trans opens) quiet' closes, ih, spaced_append_quote,
      spaced_append_quote, spaced_quotes]

theorem after_of_isBlankText {t : Text} (blank : isBlankText t = true) :
    Quoting.after {} t = {} := by
  induction t with
  | nil => rfl
  | cons c rest ih =>
    obtain ⟨first, later⟩ := Bool.and_eq_true_iff.mp blank
    rw [Quoting.after_cons, next_blank first, ih later]

theorem masked_trim_isInfix (t : Text) : masked (trim t) <:+: masked t := by
  obtain ⟨front, back, blank, -, cut⟩ := exists_blank_trim t
  refine ⟨masked front, Quoting.masked (Quoting.after {} (trim t)) back, ?_⟩
  conv_rhs => rw [cut, masked, Quoting.masked_append, after_of_isBlankText blank,
    Quoting.masked_append]
  rw [List.append_assoc]
  rfl

theorem masked_neat_isInfix (t : Text) : masked (neat t) <:+: spaced (masked t) := by
  rw [← masked_mapCode]
  exact masked_trim_isInfix (mapCode spaced t)

end Text

end AsnLayout
