import AsnLayout.Proofs.Hidden
import AsnLayout.Proofs.Lockstep

/-!
# Texts with other blanks

A neat text differs from the text it was made of only in its blanks: runs of blanks have become
single spaces, and spaces stand beside the assignment signs.  The words of a text stay as they are
then, so a line keeps what makes it the header, the beginning or the end of a module.
-/

set_option autoImplicit false

namespace AsnLayout

namespace Text

/-! ## Blanks separate words -/

theorem exists_span_of_inSpans {code : Nat} {spans : List (Nat × Nat)}
    (inside : inSpans code spans = true) : ∃ span ∈ spans, span.1 ≤ code ∧ code ≤ span.2 := by
  induction spans with
  | nil => cases inside
  | cons span later ih =>
    obtain ⟨first, last⟩ := span
    rw [inSpans] at inside
    split at inside
    · cases inside
    · split at inside
      · exact ⟨(first, last), List.mem_cons_self .., by omega, by omega⟩
      · obtain ⟨span, member, bounds⟩ := ih inside
        exact ⟨span, List.mem_cons_of_mem _ member, bounds⟩

theorem joinsWord_of_isBlank {c : Char} (blank : isBlank c = true) : joinsWord c = false := by
  have all : ∀ span ∈ blankSpans, ∀ code ∈ List.range' span.1 (span.2 + 1 - span.1),
      joinsWord (Char.ofNat code) = false := by decide +kernel
  obtain ⟨span, member, low, high⟩ := exists_span_of_inSpans blank
  have found := all span member c.toNat (by rw [List.mem_range'_1]; omega)
  rwa [Char.ofNat_toNat] at found

def isJoined (word : Text) : Bool := word.all joinsWord

theorem isJoined_cons {c : Char} {word : Text} :
    isJoined (c :: word) = true ↔ joinsWord c = true ∧ isJoined word = true := by
  rw [isJoined, List.all_cons, Bool.and_eq_true]
  rfl

theorem startsWithWord_nil (t : Text) : startsWithWord t [] = breaksWord t := by
  simp [startsWithWord, startsWith]

theorem startsWithWord_cons (c d : Char) (t word : Text) :
    startsWithWord (c :: t) (d :: word) = (d == c && startsWithWord t word) := by
  simp [startsWithWord, startsWith, List.isPrefixOf, Bool.and_assoc]

theorem startsWithWord_of_break {c : Char} {word : Text} (apart : joinsWord c = false)
    (joined : isJoined word = true) (filled : word ≠ []) (t : Text) :
    startsWithWord (c :: t) word = false := by
  cases word with
  | nil => exact absurd rfl filled
  | cons d word =>
    have other : (d == c) = false := by
      rw [beq_eq_false_iff_ne]
      rintro rfl
      rw [(isJoined_cons.mp joined).1] at apart
      cases apart
    rw [startsWithWord_cons, other, Bool.false_and]

theorem holdsWord_of_break {c : Char} {word : Text} (apart : joinsWord c = false)
    (joined : isJoined word = true) (filled : word ≠ []) (before : Bool) (t : Text) :
    holdsWord word before (c :: t) = holdsWord word false t := by
  rw [holdsWord, startsWithWord_of_break apart joined filled, apart, Bool.and_false, Bool.false_or]

theorem startsWithWord_append {back word : Text} (apart : breaksWord back = true)
    (joined : isJoined word = true) (front : Text) :
    startsWithWord (front ++ back) word = startsWithWord front word := by
  induction front generalizing word with
  | nil =>
    cases word with
    | nil => rw [startsWithWord_nil, startsWithWord_nil, List.nil_append, apart]; rfl
    | cons d word =>
      cases back with
      | nil => rfl
      | cons c back =>
        exact startsWithWord_of_break (by simpa [breaksWord] using apart) joined
          (List.cons_ne_nil _ _) back
  | cons c front ih =>
    cases word with
    | nil => rfl
    | cons d word =>
      rw [List.cons_append, startsWithWord_cons, startsWithWord_cons,
        ih (isJoined_cons.mp joined).2]

/-- A character that breaks words cuts a text between its words. -/
theorem holdsWord_append {c : Char} {word : Text} (apart : joinsWord c = false)
    (joined : isJoined word = true) (filled : word ≠ []) (before : Bool) (front back : Text) :
    holdsWord word before (front ++ c :: back) =
      (holdsWord word before front || holdsWord word false back) := by
  induction front generalizing before with
  | nil =>
    rw [List.nil_append, holdsWord_of_break apart joined filled, holdsWord]
    cases word with
    | nil => exact absurd rfl filled
    | cons d word => simp [startsWithWord, startsWith]
  | cons d front ih =>
    rw [List.cons_append, holdsWord, holdsWord, ih, ← List.cons_append,
      startsWithWord_append (by simp [breaksWord, apart]) joined, Bool.or_assoc]

theorem holdsWord_of_isBlankText {t word : Text} (blank : isBlankText t = true)
    (joined : isJoined word = true) (filled : word ≠ []) (before : Bool) :
    holdsWord word before t = false := by
  induction t generalizing before with
  | nil =>
    cases word with
    | nil => exact absurd rfl filled
    | cons d word => simp [holdsWord, startsWithWord, startsWith]
  | cons c rest ih =>
    obtain ⟨first, later⟩ := Bool.and_eq_true_iff.mp blank
    rw [holdsWord_of_break (joinsWord_of_isBlank first) joined filled, ih later]

theorem breaksWord_of_isBlankText {t : Text} (blank : isBlankText t = true) :
    breaksWord t = true := by
  cases t with
  | nil => rfl
  | cons c rest =>
    simp [breaksWord, joinsWord_of_isBlank (Bool.and_eq_true_iff.mp blank).1]

theorem holdsWord_trim {word : Text} (joined : isJoined word = true) (filled : word ≠ [])
    (t : Text) : holdsWord word false (trim t) = holdsWord word false t := by
  have before : ∀ front t : Text, isBlankText front = true →
      holdsWord word false (front ++ t) = holdsWord word false t := by
    intro front t blank
    induction front with
    | nil => rfl
    | cons c rest ih =>
      obtain ⟨first, later⟩ := Bool.and_eq_true_iff.mp blank
      rw [List.cons_append, holdsWord_of_break (joinsWord_of_isBlank first) joined filled, ih later]
  have behind : ∀ back t : Text, isBlankText back = true →
      holdsWord word false (t ++ back) = holdsWord word false t := by
    intro back t blank
    cases back with
    | nil => rw [List.append_nil]
    | cons c rest =>
      obtain ⟨first, later⟩ := Bool.and_eq_true_iff.mp blank
      rw [holdsWord_append (joinsWord_of_isBlank first) joined filled,
        holdsWord_of_isBlankText later joined filled, Bool.or_false]
  obtain ⟨front, back, blank, blank', cut⟩ := exists_blank_trim t
  have whole := congrArg (holdsWord word false) cut
  rw [before _ _ blank, behind _ _ blank'] at whole
  exact whole.symm

theorem holdsSpacedWord_of_append {back word : Text} (blank : isBlankText back = true)
    (joined : isJoined word = true) (filled : word ≠ []) {front : Text}
    (holds : holdsSpacedWord word (front ++ back) = true) : holdsSpacedWord word front = true := by
  induction front with
  | nil =>
    rw [List.nil_append] at holds
    induction back with
    | nil => exact holds
    | cons c rest ih =>
      have later := (Bool.and_eq_true_iff.mp blank).2
      have none : startsWithWord rest word = false := by
        have alone := startsWithWord_append (breaksWord_of_isBlankText later) joined []
        rw [List.nil_append] at alone
        rw [alone]
        cases word with
        | nil => exact absurd rfl filled
        | cons d word => rfl
      rw [holdsSpacedWord, none, Bool.and_false, Bool.false_or, Bool.and_eq_true] at holds
      exact ih later holds.2
  | cons c front ih =>
    rw [List.cons_append, holdsSpacedWord, startsWithWord_append (breaksWord_of_isBlankText blank)
      joined, Bool.or_eq_true, Bool.and_eq_true, Bool.and_eq_true] at holds
    rw [holdsSpacedWord, Bool.or_eq_true, Bool.and_eq_true, Bool.and_eq_true]
    exact holds.imp id (And.imp_right ih)

/-! ## Blanks set anew -/

/-- A text whose runs of blanks were shortened or became spaces, and, if it is `loose`, with spaces
put beside the characters of assignment signs. -/
inductive Reblanked (loose : Bool) : Text → Text → Prop where
  | nil : Reblanked loose [] []
  | keep (c : Char) {t t' : Text} (later : Reblanked loose t t') :
      Reblanked loose (c :: t) (c :: t')
  | blank {b : Char} {t t' : Text} (isBlank : isBlank b = true) (later : Reblanked loose t t') :
      Reblanked loose (b :: t) (' ' :: t')
  | drop {b next : Char} {t t' : Text} (isBlank : isBlank b = true)
      (isBlank' : Text.isBlank next = true) (later : Reblanked loose (next :: t) t') :
      Reblanked loose (b :: next :: t) t'
  | before {c : Char} {t t' : Text} (isLoose : loose = true) (mark : c ∈ assignmentSign)
      (later : Reblanked loose (c :: t) t') : Reblanked loose (c :: t) (' ' :: t')
  | behind {c : Char} {t t' : Text} (isLoose : loose = true) (mark : c ∈ assignmentSign)
      (later : Reblanked loose t t') : Reblanked loose (c :: t) (c :: ' ' :: t')

theorem joinsWord_of_mem_sign {c : Char} (mark : c ∈ assignmentSign) : joinsWord c = false := by
  obtain rfl | rfl := mem_assignmentSign.mp mark <;> decide +kernel

namespace Reblanked

variable {loose : Bool} {t t' u u' word : Text}

theorem refl (t : Text) : Reblanked loose t t := by
  induction t with
  | nil => exact .nil
  | cons c rest ih => exact .keep c ih

theorem append (same : Reblanked loose t t') (same' : Reblanked loose u u') :
    Reblanked loose (t ++ u) (t' ++ u') := by
  induction same with
  | nil => exact same'
  | keep c later ih => exact .keep c ih
  | blank isBlank later ih => exact .blank isBlank ih
  | drop isBlank isBlank' later ih => exact .drop isBlank isBlank' ih
  | before isLoose mark later ih => exact .before isLoose mark ih
  | behind isLoose mark later ih => exact .behind isLoose mark ih

theorem of_before {c : Char} (same : Reblanked loose (c :: t) (' ' :: t'))
    (solid : isBlank c = false) : Reblanked loose (c :: t) t' := by
  have space : isBlank ' ' = true := by decide
  cases same with
  | keep _ later =>
    rw [space] at solid
    cases solid
  | blank isBlank later =>
    rw [isBlank] at solid
    cases solid
  | drop isBlank isBlank' later =>
    rw [isBlank] at solid
    cases solid
  | before isLoose mark later => exact later
  | behind isLoose mark later =>
    rw [space] at solid
    cases solid

theorem isBlankText (same : Reblanked loose t t') : Text.isBlankText t' = Text.isBlankText t := by
  simp only [Text.isBlankText] at *
  induction same with
  | nil => rfl
  | keep c later ih => rw [List.all_cons, List.all_cons, ih]
  | blank isBlank later ih => rw [List.all_cons, List.all_cons, ih, isBlank]; rfl
  | drop isBlank isBlank' later ih => simp [ih, isBlank]
  | before isLoose mark later ih => rw [List.all_cons, ih]; rfl
  | behind isLoose mark later ih =>
    simp [isBlank_of_mem_sign mark]

/-! ## Words at their place -/

theorem breaksWord (same : Reblanked loose t t') : Text.breaksWord t' = Text.breaksWord t := by
  have space : joinsWord ' ' = false := joinsWord_of_isBlank (by decide)
  induction same with
  | nil => rfl
  | keep c later ih => rfl
  | blank isBlank later ih => simp [Text.breaksWord, space, joinsWord_of_isBlank isBlank]
  | drop isBlank isBlank' later ih =>
    rw [ih]
    simp [Text.breaksWord, joinsWord_of_isBlank isBlank, joinsWord_of_isBlank isBlank']
  | before isLoose mark later ih => simp [Text.breaksWord, space, joinsWord_of_mem_sign mark]
  | behind isLoose mark later ih => rfl

theorem startsWithWord (same : Reblanked loose t t') (joined : isJoined word = true) :
    Text.startsWithWord t' word = Text.startsWithWord t word := by
  have space : joinsWord ' ' = false := joinsWord_of_isBlank (by decide)
  induction word generalizing t t' with
  | nil => rw [startsWithWord_nil, startsWithWord_nil, same.breaksWord]
  | cons d word ih =>
    have none : ∀ {c : Char}, joinsWord c = false → ∀ t, Text.startsWithWord (c :: t) (d :: word) =
        false := fun apart => startsWithWord_of_break apart joined (List.cons_ne_nil _ _)
    induction same with
    | nil => rfl
    | keep c later =>
      rw [startsWithWord_cons, startsWithWord_cons, ih later (isJoined_cons.mp joined).2]
    | blank isBlank later => rw [none space, none (joinsWord_of_isBlank isBlank)]
    | drop isBlank isBlank' later ih' =>
      rw [ih', none (joinsWord_of_isBlank isBlank), none (joinsWord_of_isBlank isBlank')]
    | before isLoose mark later => rw [none space, none (joinsWord_of_mem_sign mark)]
    | behind isLoose mark later =>
      rw [none (joinsWord_of_mem_sign mark), none (joinsWord_of_mem_sign mark)]

theorem holdsWord (same : Reblanked loose t t') (joined : isJoined word = true)
    (filled : word ≠ []) (before : Bool) :
    Text.holdsWord word before t' = Text.holdsWord word before t := by
  have space : joinsWord ' ' = false := joinsWord_of_isBlank (by decide)
  have onward : ∀ {c : Char}, joinsWord c = false → ∀ before t,
      Text.holdsWord word before (c :: t) = Text.holdsWord word false t :=
    fun apart => holdsWord_of_break apart joined filled
  induction same generalizing before with
  | nil => rfl
  | keep c later ih =>
    rw [Text.holdsWord, Text.holdsWord, ih, (Reblanked.keep c later).startsWithWord joined]
  | blank isBlank later ih => rw [onward space, onward (joinsWord_of_isBlank isBlank), ih]
  | drop isBlank isBlank' later ih =>
    rw [ih, onward (joinsWord_of_isBlank isBlank), onward (joinsWord_of_isBlank isBlank'),
      onward (joinsWord_of_isBlank isBlank')]
  | before isLoose mark later ih =>
    rw [onward space, ih, onward (joinsWord_of_mem_sign mark), onward (joinsWord_of_mem_sign mark)]
  | behind isLoose mark later ih =>
    rw [onward (joinsWord_of_mem_sign mark), onward space, onward (joinsWord_of_mem_sign mark), ih]

theorem holdsSpacedWord (same : Reblanked loose t t') (joined : isJoined word = true)
    (filled : word ≠ []) (holds : Text.holdsSpacedWord word t = true) :
    Text.holdsSpacedWord word t' = true := by
  have space : isBlank ' ' = true := by decide
  induction same with
  | nil => cases holds
  | @keep c t t' later ih =>
    simp only [Text.holdsSpacedWord, Bool.or_eq_true, Bool.and_eq_true] at holds ⊢
    rcases holds with ⟨blank, starts⟩ | ⟨row, holds⟩
    · exact .inl ⟨blank, by rw [later.startsWithWord joined, starts]⟩
    · exact .inr ⟨row, ih holds⟩
  | blank isBlank later ih =>
    simp only [Text.holdsSpacedWord, Bool.or_eq_true, Bool.and_eq_true] at holds ⊢
    rcases holds with ⟨-, starts⟩ | ⟨-, holds⟩
    · exact .inl ⟨space, by rw [later.startsWithWord joined, starts]⟩
    · exact .inr ⟨by decide, ih holds⟩
  | drop isBlank isBlank' later ih =>
    rw [Text.holdsSpacedWord, startsWithWord_of_break (joinsWord_of_isBlank isBlank') joined filled,
      Bool.and_false, Bool.false_or, Bool.and_eq_true] at holds
    exact ih holds.2
  | before isLoose mark later ih =>
    rw [Text.holdsSpacedWord, ih holds]
    simp
  | behind isLoose mark later ih =>
    rw [Text.holdsSpacedWord, isBlank_of_mem_sign mark, Bool.false_and, Bool.false_or,
      Bool.and_eq_true] at holds
    rw [Text.holdsSpacedWord, Text.holdsSpacedWord, ih holds.2, holds.1]
    simp

/-! ## The last word -/

theorem eq_of_isJoined (same : Reblanked loose word t') (joined : isJoined word = true) :
    t' = word := by
  induction same with
  | nil => rfl
  | keep c later ih => rw [ih (isJoined_cons.mp joined).2]
  | blank isBlank later ih =>
    rw [isJoined_cons, joinsWord_of_isBlank isBlank] at joined
    cases joined.1
  | drop isBlank isBlank' later ih =>
    rw [isJoined_cons, joinsWord_of_isBlank isBlank] at joined
    cases joined.1
  | before isLoose mark later ih =>
    rw [isJoined_cons, joinsWord_of_mem_sign mark] at joined
    cases joined.1
  | behind isLoose mark later ih =>
    rw [isJoined_cons, joinsWord_of_mem_sign mark] at joined
    cases joined.1

theorem exists_append_word (same : Reblanked loose (t ++ word) t') (joined : isJoined word = true)
    (filled : word ≠ []) : ∃ front, t' = front ++ word ∧ Reblanked loose t front := by
  have alone : ∀ {s s' : Text}, Reblanked loose s s' → [] ++ word = s →
      ∃ front, s' = front ++ word ∧ Reblanked loose [] front := by
    rintro s s' same rfl
    exact ⟨[], same.eq_of_isJoined joined, .nil⟩
  generalize whole : t ++ word = s at same
  induction same generalizing t with
  | nil => exact absurd (List.append_eq_nil_iff.mp whole).2 filled
  | keep c later ih =>
    cases t with
    | nil => exact alone (.keep c later) whole
    | cons d t =>
      obtain ⟨rfl, rest⟩ := List.cons.inj whole
      obtain ⟨front, rfl, early⟩ := ih rest
      exact ⟨d :: front, rfl, .keep d early⟩
  | blank isBlank later ih =>
    cases t with
    | nil => exact alone (.blank isBlank later) whole
    | cons d t =>
      obtain ⟨rfl, rest⟩ := List.cons.inj whole
      obtain ⟨front, rfl, early⟩ := ih rest
      exact ⟨' ' :: front, rfl, .blank isBlank early⟩
  | drop isBlank isBlank' later ih =>
    cases t with
    | nil => exact alone (.drop isBlank isBlank' later) whole
    | cons d t =>
      obtain ⟨rfl, rest⟩ := List.cons.inj whole
      obtain ⟨front, rfl, early⟩ := ih rest
      cases t with
      | nil =>
        rw [show word = _ from rest, isJoined_cons, joinsWord_of_isBlank isBlank'] at joined
        cases joined.1
      | cons next t =>
        obtain ⟨rfl, -⟩ := List.cons.inj rest
        exact ⟨front, rfl, .drop isBlank isBlank' early⟩
  | before isLoose mark later ih =>
    cases t with
    | nil => exact alone (.before isLoose mark later) whole
    | cons d t =>
      obtain ⟨front, rfl, early⟩ := ih whole
      obtain ⟨rfl, -⟩ := List.cons.inj whole
      exact ⟨' ' :: front, rfl, .before isLoose mark early⟩
  | behind isLoose mark later ih =>
    cases t with
    | nil => exact alone (.behind isLoose mark later) whole
    | cons d t =>
      obtain ⟨rfl, rest⟩ := List.cons.inj whole
      obtain ⟨front, rfl, early⟩ := ih rest
      exact ⟨d :: ' ' :: front, rfl, .behind isLoose mark early⟩

theorem getLast?_joins (same : Reblanked loose t t') :
    t'.getLast?.any joinsWord = t.getLast?.any joinsWord := by
  have space : joinsWord ' ' = false := joinsWord_of_isBlank (by decide)
  have last : ∀ s : Text, s.getLast?.any joinsWord = s.foldl (fun _ => joinsWord) false := by
    intro s
    rcases s.eq_nil_or_concat with rfl | ⟨front, c, rfl⟩
    · rfl
    · simp
  -- With whether the character before the text joins words.
  have folded : ∀ before, t'.foldl (fun _ => joinsWord) before =
      t.foldl (fun _ => joinsWord) before := by
    induction same with
    | nil => exact fun _ => rfl
    | keep c later ih => exact fun before => ih _
    | blank isBlank later ih =>
      intro before
      rw [List.foldl_cons, List.foldl_cons, space, joinsWord_of_isBlank isBlank, ih]
    | drop isBlank isBlank' later ih =>
      intro before
      rw [ih]
      rfl
    | before isLoose mark later ih =>
      intro before
      rw [List.foldl_cons, ih]
      rfl
    | behind isLoose mark later ih =>
      intro before
      rw [List.foldl_cons, List.foldl_cons, List.foldl_cons, space, joinsWord_of_mem_sign mark, ih]
  rw [last, last, folded]

end Reblanked

theorem endsWithWord_iff (t word : Text) :
    endsWithWord t word = true ↔
      ∃ front, t = front ++ word ∧ front.getLast?.any joinsWord = false := by
  have broken : ∀ front : Text, breaksWord front.reverse = !front.getLast?.any joinsWord := by
    intro front
    rw [breaksWord, List.head?_reverse]
  simp only [endsWithWord, startsWithWord, startsWith, Bool.and_eq_true, List.isPrefixOf_iff_prefix,
    List.reverse_prefix, List.length_reverse]
  constructor
  · rintro ⟨⟨front, rfl⟩, breaks⟩
    refine ⟨front, rfl, ?_⟩
    rw [List.reverse_append, ← List.length_reverse, List.drop_left, broken] at breaks
    simpa using breaks
  · rintro ⟨front, rfl, apart⟩
    refine ⟨⟨front, rfl⟩, ?_⟩
    rw [List.reverse_append, ← List.length_reverse, List.drop_left, broken, apart]
    rfl

theorem Reblanked.endsWithWord {loose : Bool} {t t' word : Text} (same : Reblanked loose t t')
    (joined : isJoined word = true) (filled : word ≠ []) (ends : endsWithWord t word = true) :
    endsWithWord t' word = true := by
  rw [endsWithWord_iff] at ends ⊢
  obtain ⟨front, rfl, apart⟩ := ends
  obtain ⟨front', rfl, early⟩ := same.exists_append_word joined filled
  exact ⟨front', rfl, by rw [early.getLast?_joins, apart]⟩

/-! ## Signs -/

namespace Reblanked

variable {loose : Bool} {t t' u u' word : Text}

theorem eq_nil_of_prefix_blank {b : Char} (isBlank : isBlank b = true)
    (solid : ∀ c ∈ word, Text.isBlank c = false) (starts : word <+: b :: t) : word = [] := by
  cases word with
  | nil => rfl
  | cons d word =>
    have blank := solid d (List.mem_cons_self ..)
    rw [(List.cons_prefix_cons.mp starts).1, isBlank] at blank
    cases blank

theorem starts_before (same : Reblanked loose t t') (solid : ∀ c ∈ word, isBlank c = false)
    (starts : word <+: t') : word <+: t := by
  have space : isBlank ' ' = true := by decide
  induction same generalizing word with
  | nil => exact starts
  | keep c later ih =>
    cases word with
    | nil => exact List.nil_prefix
    | cons d word =>
      obtain ⟨rfl, rest⟩ := List.cons_prefix_cons.mp starts
      exact List.cons_prefix_cons.mpr
        ⟨rfl, ih (fun c member => solid c (List.mem_cons_of_mem _ member)) rest⟩
  | blank isBlank later ih =>
    rw [eq_nil_of_prefix_blank space solid starts]
    exact List.nil_prefix
  | drop isBlank isBlank' later ih =>
    rw [eq_nil_of_prefix_blank isBlank' solid (ih solid starts)]
    exact List.nil_prefix
  | before isLoose mark later ih =>
    rw [eq_nil_of_prefix_blank space solid starts]
    exact List.nil_prefix
  | behind isLoose mark later ih =>
    cases word with
    | nil => exact List.nil_prefix
    | cons d word =>
      obtain ⟨rfl, rest⟩ := List.cons_prefix_cons.mp starts
      rw [eq_nil_of_prefix_blank space (fun c member => solid c (List.mem_cons_of_mem _ member))
        rest]
      exact List.cons_prefix_cons.mpr ⟨rfl, List.nil_prefix⟩

/-- No sign is made by setting blanks. -/
theorem holds_before (same : Reblanked loose t t') (solid : ∀ c ∈ word, isBlank c = false)
    (holds : word <:+: t') : word <:+: t := by
  have early : ∀ {s s' : Text}, Reblanked loose s s' → word <+: s' → word <:+: s :=
    fun same starts => (same.starts_before solid starts).isInfix
  induction same with
  | nil => exact holds
  | keep c later ih =>
    rcases List.infix_cons_iff.mp holds with starts | holds
    · exact early (.keep c later) starts
    · exact List.infix_cons_iff.mpr (.inr (ih holds))
  | blank isBlank later ih =>
    rcases List.infix_cons_iff.mp holds with starts | holds
    · exact early (.blank isBlank later) starts
    · exact List.infix_cons_iff.mpr (.inr (ih holds))
  | drop isBlank isBlank' later ih => exact List.infix_cons_iff.mpr (.inr (ih holds))
  | before isLoose mark later ih =>
    rcases List.infix_cons_iff.mp holds with starts | holds
    · exact early (.before isLoose mark later) starts
    · exact ih holds
  | behind isLoose mark later ih =>
    rcases List.infix_cons_iff.mp holds with starts | holds
    · exact early (.behind isLoose mark later) starts
    · rcases List.infix_cons_iff.mp holds with starts | holds
      · rw [eq_nil_of_prefix_blank (by decide) solid starts]
        exact List.nil_infix
      · exact List.infix_cons_iff.mpr (.inr (ih holds))

/-! ## Words -/

/-- The words of a text stay as they are if no blanks are put beside its signs. -/
theorem words (same : Reblanked false t t') : Text.words t' = Text.words t := by
  have space : isBlank ' ' = true := by decide
  -- The first stretch is the same, and so are the words behind it.
  obtain ⟨first, later, later', cut, cut', rest⟩ : ∃ first later later',
      t.splitOnP isBlank = first :: later ∧ t'.splitOnP isBlank = first :: later' ∧
        later.filter (!·.isEmpty) = later'.filter (!·.isEmpty) := by
    induction same with
    | nil => exact ⟨[], [], [], rfl, rfl, rfl⟩
    | keep c later ih =>
      obtain ⟨first, later, later', cut, cut', rest⟩ := ih
      simp only [List.splitOnP_cons_eq_if_modifyHead, cut, cut']
      split
      · exact ⟨[], first :: later, first :: later', rfl, rfl, by simp [List.filter_cons, rest]⟩
      · exact ⟨c :: first, later, later', rfl, rfl, rest⟩
    | blank isBlank later ih =>
      obtain ⟨first, later, later', cut, cut', rest⟩ := ih
      simp only [List.splitOnP_cons_eq_if_modifyHead, cut, cut', isBlank, space, if_true]
      exact ⟨[], first :: later, first :: later', rfl, rfl, by simp [List.filter_cons, rest]⟩
    | drop isBlank isBlank' later ih =>
      obtain ⟨first, later, later', cut, cut', rest⟩ := ih
      rw [List.splitOnP_cons_eq_if_modifyHead, if_pos isBlank, cut]
      rw [List.splitOnP_cons_eq_if_modifyHead, if_pos isBlank'] at cut
      obtain ⟨rfl, -⟩ := List.cons.inj cut
      exact ⟨[], [] :: later, later', rfl, cut', by simpa [List.filter_cons] using rest⟩
    | before isLoose => cases isLoose
    | behind isLoose => cases isLoose
  rw [Text.words, Text.words, cut, cut', List.filter_cons, List.filter_cons, rest]

end Reblanked

/-! ## Neat texts -/

theorem reblanked_mapCode {loose : Bool} {change : Text → Text}
    (changes : ∀ x, Reblanked loose x (change x)) (t : Text) :
    Reblanked loose t (mapCode change t) := by
  have pieces : ∀ chunks : List Chunk, Reblanked loose (chunks.flatMap Chunk.text)
      (chunks.flatMap fun chunk => if chunk.literal then chunk.text else change chunk.text) := by
    intro chunks
    induction chunks with
    | nil => exact .nil
    | cons chunk later ih =>
      rw [List.flatMap_cons, List.flatMap_cons]
      refine Reblanked.append ?_ ih
      split
      · exact .refl _
      · exact changes _
  have whole := pieces (chunks t)
  rwa [chunks, Quoting.flatMap_text_chunks] at whole

theorem reblanked_collapse (loose : Bool) (x : Text) : Reblanked loose x (collapse x) := by
  induction x with
  | nil => exact .nil
  | cons c rest ih =>
    rw [collapse]
    split
    · rename_i isBlank
      cases rest with
      | nil => exact .blank isBlank ih
      | cons next rest =>
        cases isBlank' : Text.isBlank next with
        | true =>
          rw [if_pos (by simpa using isBlank')]
          exact .drop isBlank isBlank' ih
        | false =>
          rw [if_neg (by simp [isBlank'])]
          exact .blank isBlank ih
    · exact .keep c ih

theorem collapse_sign (x : Text) : collapse (' ' :: ':' :: ':' :: '=' :: x) =
    ' ' :: ':' :: ':' :: '=' :: collapse x := by
  have space : isBlank ' ' = true := by decide
  have colon : isBlank ':' = false := by decide
  have equals : isBlank '=' = false := by decide
  simp [collapse, space, colon, equals]

theorem spaceAssignments_cases (x : Text) :
    (∃ rest, x = ':' :: ':' :: '=' :: rest) ∨ (spaceAssignments x).head? = x.head? := by
  fun_cases spaceAssignments x with
  | case1 => exact .inr rfl
  | case2 rest => exact .inl ⟨rest, rfl⟩
  | case3 c rest other => exact .inr rfl

theorem reblanked_spaced (x : Text) : Reblanked true x (collapse (spaceAssignments x)) := by
  have space : isBlank ' ' = true := by decide
  fun_induction spaceAssignments x with
  | case1 => exact .nil
  | case2 rest ih =>
    rw [collapse_sign]
    refine .before rfl (by decide) (.keep _ (.keep _ ?_))
    rw [collapse, if_pos space]
    split
    · exact .keep _ ih
    · exact .behind rfl (by decide) ih
  | case3 c rest other ih =>
    rw [collapse]
    split
    · rename_i isBlank
      split
      · rename_i next
        -- Behind the blank there is another one, or an assignment sign with a space before it.
        cases rest with
        | nil => cases next
        | cons d rest =>
          cases isBlank' : Text.isBlank d with
          | true => exact .drop isBlank isBlank' ih
          | false =>
            obtain ⟨behind, sign⟩ | same := spaceAssignments_cases (d :: rest)
            · rw [sign] at ih ⊢
              rw [spaceAssignments, collapse_sign] at ih ⊢
              exact .blank isBlank (ih.of_before (by decide))
            · rw [same] at next
              simp [isBlank'] at next
      · exact .blank isBlank ih
    · exact .keep c ih

theorem reblanked_neat (t : Text) :
    ∃ t', Reblanked true t t' ∧ neat t = trim t' :=
  ⟨_, reblanked_mapCode reblanked_spaced t, rfl⟩

theorem isBlankText_neat (t : Text) : isBlankText (neat t) = isBlankText t := by
  obtain ⟨t', same, trimmed⟩ := reblanked_neat t
  rw [trimmed, isBlankText_trim, same.isBlankText]

theorem spaceAssignments_of_signless {x : Text} (absent : ¬assignmentSign <:+: x) :
    spaceAssignments x = x := by
  fun_induction spaceAssignments x with
  | case1 => rfl
  | case2 rest ih => exact absurd ⟨[], rest, rfl⟩ absent
  | case3 c rest other ih =>
    rw [ih fun holds => absent (List.infix_cons_iff.mpr (.inr holds))]

theorem words_neat {t : Text} (absent : ¬assignmentSign <:+: t) : words (neat t) = words t := by
  have same : mapCode (fun code => collapse (spaceAssignments code)) t = mapCode collapse t := by
    have inside : ∀ chunk ∈ chunks t, ¬assignmentSign <:+: chunk.text := by
      intro chunk member holds
      refine absent (holds.trans ?_)
      obtain ⟨before, behind, cut⟩ := List.append_of_mem member
      have whole : (chunks t).flatMap Chunk.text = t := Quoting.flatMap_text_chunks {} t
      rw [cut, List.flatMap_append, List.flatMap_cons] at whole
      exact ⟨_, _, by rw [← whole, List.append_assoc]⟩
    refine List.flatMap_congr fun chunk member => ?_
    simp only [spaceAssignments_of_signless (inside chunk member)]
  rw [neat, same, words_trim]
  exact (reblanked_mapCode (reblanked_collapse false) t).words

/-! ## Kinds of neat lines -/

/-- A text that starts with a character of words starts with it when blanks are set anew. -/
theorem Reblanked.exists_cons {loose : Bool} {c : Char} {t t' : Text}
    (same : Reblanked loose (c :: t) t') (word : joinsWord c = true) :
    ∃ rest, t' = c :: rest ∧ Reblanked loose t rest := by
  cases same with
  | keep c later => exact ⟨_, rfl, later⟩
  | blank isBlank later =>
    rw [joinsWord_of_isBlank isBlank] at word
    cases word
  | drop isBlank isBlank' later =>
    rw [joinsWord_of_isBlank isBlank] at word
    cases word
  | before isLoose mark later =>
    rw [joinsWord_of_mem_sign mark] at word
    cases word
  | behind isLoose mark later =>
    rw [joinsWord_of_mem_sign mark] at word
    cases word

theorem exists_neat_cons {c : Char} {t : Text} (word : joinsWord c = true) :
    ∃ rest, neat (c :: t) = c :: trimEnd rest ∧ Reblanked true t rest := by
  obtain ⟨whole, same, trimmed⟩ := reblanked_neat (c :: t)
  obtain ⟨rest, rfl, later⟩ := same.exists_cons word
  have solid : isBlank c = false := by
    rw [Bool.eq_false_iff]
    intro blank
    rw [joinsWord_of_isBlank blank] at word
    cases word
  refine ⟨rest, ?_, later⟩
  rw [trimmed, trim, trimStart_of_not_blank solid]
  exact trimEnd_append_mark solid [] rest

theorem joinsWord_of_isLatinLetter {c : Char} (letter : isLatinLetter c = true) :
    joinsWord c = true := by
  have all : ∀ code < 128, isLatinLetter (Char.ofNat code) = true →
      joinsWord (Char.ofNat code) = true := by decide +kernel
  have small : c.toNat < 128 := by
    simp only [isLatinLetter, Bool.or_eq_true, Bool.and_eq_true, decide_eq_true_eq] at letter
    rcases letter with ⟨-, last⟩ | ⟨-, last⟩
    · exact Nat.lt_of_le_of_lt (Char.le_def.mp last) (by decide)
    · exact Nat.lt_of_le_of_lt (Char.le_def.mp last) (by decide)
  have found := all c.toNat small
  rw [Char.ofNat_toNat] at found
  exact found letter

theorem contains_neat {t : Text} (absent : contains t assignmentSign = false) :
    contains (neat t) assignmentSign = false := by
  have filled : assignmentSign ≠ [] := by decide
  obtain ⟨whole, same, trimmed⟩ := reblanked_neat t
  rw [trimmed, contains_trim]
  rw [Bool.eq_false_iff, ne_eq, contains_iff filled] at absent ⊢
  exact fun holds => absent (same.holds_before (fun _ => isBlank_of_mem_sign) holds)

theorem isModuleHeader_neat {t : Text} (header : isModuleHeader t = true) :
    isModuleHeader (neat t) = true := by
  cases t with
  | nil => cases header
  | cons c t =>
    rw [isModuleHeader, Bool.and_eq_true] at header
    obtain ⟨letter, holds⟩ := header
    have joined : isJoined definitionsWord = true := by decide +kernel
    obtain ⟨rest, found, same⟩ := @exists_neat_cons c t (joinsWord_of_isLatinLetter letter)
    obtain ⟨blank, isBlank, cut⟩ := exists_blank_trimEnd rest
    have held := same.holdsSpacedWord joined (by decide) holds
    rw [cut] at held
    rw [found, isModuleHeader, letter, holdsSpacedWord_of_append isBlank joined (by decide) held]
    rfl

theorem startsWithWord_neat {t word : Text} (joined : isJoined word = true) (filled : word ≠ [])
    (starts : startsWithWord t word = true) : startsWithWord (neat t) word = true := by
  cases word with
  | nil => exact absurd rfl filled
  | cons d word =>
    cases t with
    | nil => cases starts
    | cons c t =>
      rw [startsWithWord_cons, Bool.and_eq_true, beq_iff_eq] at starts
      obtain ⟨rfl, starts⟩ := starts
      obtain ⟨word', joined⟩ := isJoined_cons.mp joined
      obtain ⟨rest, found, same⟩ := @exists_neat_cons d t word'
      obtain ⟨blank, isBlank, cut⟩ := exists_blank_trimEnd rest
      have started := same.startsWithWord joined
      rw [starts, cut, startsWithWord_append (breaksWord_of_isBlankText isBlank) joined] at started
      rw [found, startsWithWord_cons, started]
      simp

theorem endsWithWord_neat {t word : Text} (joined : isJoined word = true) (filled : word ≠ [])
    (ends : endsWithWord t word = true) : endsWithWord (neat t) word = true := by
  obtain ⟨whole, same, trimmed⟩ := reblanked_neat t
  obtain ⟨front, rfl, apart⟩ := (endsWithWord_iff ..).mp (same.endsWithWord joined filled ends)
  have solid : ∀ c ∈ word, isBlank c = false := by
    intro c member
    rw [Bool.eq_false_iff]
    intro blank
    have joins := List.all_eq_true.mp joined c member
    rw [joinsWord_of_isBlank blank] at joins
    cases joins
  obtain ⟨d, rest, rfl⟩ := List.exists_cons_of_ne_nil filled
  refine (endsWithWord_iff ..).mpr ⟨trimStart front, ?_, ?_⟩
  · have ended := trimEnd_append_word solid filled (trimStart front) []
    rw [List.append_nil, show trimEnd [] = [] from rfl, List.append_nil] at ended
    rw [trimmed, trim, trimStart_append_mark (solid d (List.mem_cons_self ..)), ended]
  · obtain ⟨blank, isBlank, cut⟩ := exists_blank_trimStart front
    cases last : (trimStart front).getLast? with
    | none => rfl
    | some c =>
      rw [cut, List.getLast?_append, last] at apart
      exact apart

/-- A line defines a type if it has an assignment sign and is no part of the frame of a module. -/
theorem codeKind_eq_typeDefinition (t : Text) : codeKind t = .typeDefinition ↔
    isModuleHeader t = false ∧ opensModule t = false ∧ startsWithWord t endWord = false ∧
      contains t assignmentSign = true := by
  unfold codeKind
  cases isModuleHeader t <;> cases opensModule t <;> cases startsWithWord t endWord <;>
    cases contains t assignmentSign <;> simp
  split <;> simp

theorem codeKind_neat {t : Text} (kind : codeKind t ≠ .typeDefinition) :
    codeKind (neat t) ≠ .typeDefinition := by
  rw [ne_eq, codeKind_eq_typeDefinition] at kind ⊢
  rintro ⟨header, opens, ends, sign⟩
  refine kind ⟨?_, ?_, ?_, ?_⟩
  · rw [Bool.eq_false_iff] at header ⊢
    exact fun found => header (isModuleHeader_neat found)
  · rw [Bool.eq_false_iff] at opens ⊢
    exact fun found => opens (endsWithWord_neat (by decide +kernel) (by decide) found)
  · rw [Bool.eq_false_iff] at ends ⊢
    exact fun found => ends (startsWithWord_neat (by decide +kernel) (by decide) found)
  · by_contra absent
    rw [contains_neat (by simpa using absent)] at sign
    cases sign

/-! ## Texts without the signs of a frame -/

/-- A text without an assignment sign and without the words that head and end a module, literals
included. -/
structure Calm (t : Text) : Prop where
  noSign : contains t assignmentSign = false
  noEnd : holdsWord endWord false t = false
  noHeader : holdsWord definitionsWord false t = false

instance (t : Text) : Decidable (Calm t) :=
  decidable_of_iff (contains t assignmentSign = false ∧ holdsWord endWord false t = false ∧
    holdsWord definitionsWord false t = false)
    ⟨fun all => ⟨all.1, all.2.1, all.2.2⟩, fun calm => ⟨calm.noSign, calm.noEnd, calm.noHeader⟩⟩

theorem isJoined_endWord : isJoined endWord = true := by decide +kernel

theorem isJoined_definitionsWord : isJoined definitionsWord = true := by decide +kernel

theorem contains_append {c : Char} {mark : Text} (filled : mark ≠ []) (absent : c ∉ mark)
    (front back : Text) :
    contains (front ++ c :: back) mark = (contains front mark || contains back mark) := by
  rw [Bool.eq_iff_iff, Bool.or_eq_true, contains_iff filled, contains_iff filled,
    contains_iff filled]
  constructor
  · intro holds
    rcases List.infix_append_iff.mp holds with before | behind | ⟨start, rest, rfl, ends, starts⟩
    · exact .inl before
    · rcases List.infix_cons_iff.mp behind with starts | behind
      · obtain ⟨d, rest, rfl⟩ := List.exists_cons_of_ne_nil filled
        obtain ⟨rfl, -⟩ := List.cons_prefix_cons.mp starts
        exact absurd (List.mem_cons_self ..) absent
      · exact .inr behind
    · cases rest with
      | nil =>
        rw [List.append_nil]
        exact .inl ends.isInfix
      | cons d rest =>
        obtain ⟨rfl, -⟩ := List.cons_prefix_cons.mp starts
        simp at absent
  · rintro (before | behind)
    · exact before.trans (List.prefix_append ..).isInfix
    · exact behind.trans ((List.suffix_cons ..).trans (List.suffix_append ..)).isInfix

namespace Calm

variable {t front back : Text}

theorem nil : Calm [] := ⟨rfl, by decide, by decide⟩

theorem append_iff {c : Char} (apart : joinsWord c = false) (absent : c ∉ assignmentSign) :
    Calm (front ++ c :: back) ↔ Calm front ∧ Calm back := by
  have sign := contains_append (show assignmentSign ≠ [] by decide) absent front back
  have ending := holdsWord_append apart isJoined_endWord (by decide) false front back
  have header := holdsWord_append apart isJoined_definitionsWord (by decide) false front back
  constructor
  · rintro ⟨noSign, noEnd, noHeader⟩
    rw [sign, Bool.or_eq_false_iff] at noSign
    rw [ending, Bool.or_eq_false_iff] at noEnd
    rw [header, Bool.or_eq_false_iff] at noHeader
    exact ⟨⟨noSign.1, noEnd.1, noHeader.1⟩, ⟨noSign.2, noEnd.2, noHeader.2⟩⟩
  · rintro ⟨⟨noSign, noEnd, noHeader⟩, ⟨noSign', noEnd', noHeader'⟩⟩
    refine ⟨?_, ?_, ?_⟩
    · rw [sign, noSign, noSign']
      rfl
    · rw [ending, noEnd, noEnd']
      rfl
    · rw [header, noHeader, noHeader']
      rfl

theorem trim (calm : Calm t) : Calm (Text.trim t) := by
  refine ⟨?_, ?_, ?_⟩
  · rw [contains_trim, calm.noSign]
  · rw [holdsWord_trim isJoined_endWord (by decide), calm.noEnd]
  · rw [holdsWord_trim isJoined_definitionsWord (by decide), calm.noHeader]

theorem neat (calm : Calm t) : Calm (Text.neat t) := by
  obtain ⟨t', same, trimmed⟩ := reblanked_neat t
  refine ⟨contains_neat calm.noSign, ?_, ?_⟩
  · rw [trimmed, holdsWord_trim isJoined_endWord (by decide),
      same.holdsWord isJoined_endWord (by decide), calm.noEnd]
  · rw [trimmed, holdsWord_trim isJoined_definitionsWord (by decide),
      same.holdsWord isJoined_definitionsWord (by decide), calm.noHeader]

theorem memberForm (calm : Calm t) : Calm (Text.memberForm t) := by
  have kept : ∀ {front back : Text}, (∀ c ∈ back, c = ',' ∨ isBlank c = true) →
      Calm (front ++ back) → Calm front := by
    intro front back dropped whole
    cases back with
    | nil => rwa [List.append_nil] at whole
    | cons c back =>
      rcases dropped c (List.mem_cons_self ..) with rfl | blank
      · exact ((append_iff (by decide +kernel) (by decide)).mp whole).1
      · refine ((append_iff (joinsWord_of_isBlank blank) fun mark => ?_).mp whole).1
        rw [isBlank_of_mem_sign mark] at blank
        cases blank
  refine @kept _ ((Text.neat t).rtakeWhile fun c => c = ',' || isBlank c) (fun c member => ?_) ?_
  · simpa using List.mem_rtakeWhile_imp member
  · rw [Text.memberForm, trimEndBy_eq, List.rdropWhile_append_rtakeWhile]
    exact calm.neat

end Calm

theorem holdsWord_of_startsWithWord {t word : Text} (starts : startsWithWord t word = true) :
    holdsWord word false t = true := by
  cases t with
  | nil => exact starts
  | cons c rest => rw [holdsWord, starts]; rfl

theorem holdsWord_of_holdsSpacedWord {t word : Text} (holds : holdsSpacedWord word t = true)
    (before : Bool) : holdsWord word before t = true := by
  induction t generalizing before with
  | nil => cases holds
  | cons c rest ih =>
    rw [holdsSpacedWord, Bool.or_eq_true, Bool.and_eq_true, Bool.and_eq_true] at holds
    rw [holdsWord, Bool.or_eq_true]
    rcases holds with ⟨blank, starts⟩ | ⟨-, holds⟩
    · rw [joinsWord_of_isBlank blank, holdsWord_of_startsWithWord starts]
      exact .inr rfl
    · exact .inr (ih holds _)

theorem isModuleHeader_of_noHeader {t : Text} (none : holdsWord definitionsWord false t = false) :
    isModuleHeader t = false := by
  cases t with
  | nil => rfl
  | cons c rest =>
    rw [isModuleHeader, Bool.and_eq_false_iff]
    refine .inr ?_
    rw [Bool.eq_false_iff]
    intro holds
    rw [holdsWord, holdsWord_of_holdsSpacedWord holds, Bool.or_true] at none
    cases none

theorem startsWithWord_of_noEnd {t : Text} (none : holdsWord endWord false t = false) :
    startsWithWord t endWord = false := by
  rw [Bool.eq_false_iff]
  intro starts
  rw [holdsWord_of_startsWithWord starts] at none
  cases none

theorem Calm.mayStandInBody {t : Text} (calm : Calm t) :
    Reader.mayStandInBody (codeKind t) = true := by
  unfold codeKind
  rw [isModuleHeader_of_noHeader calm.noHeader, startsWithWord_of_noEnd calm.noEnd, calm.noSign]
  cases opensModule t with
  | true => rfl
  | false =>
    simp only [Bool.false_eq_true, if_false]
    split <;> rfl

end Text

end AsnLayout
