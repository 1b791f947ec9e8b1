import AsnLayout.Fence
import AsnLayout.Proofs.NeatLines
import AsnLayout.Proofs.Pairing
import AsnLayout.Proofs.Tabs

/-!
# Stretches of code

What a layout may put on a line of its own stands between commas, braces and line ends.  A text is
unfenced if no stretch of it between these is a fence and nothing else, and whatever a layout does
with blanks, members and groups keeps it so.
-/

set_option autoImplicit false

namespace AsnLayout.Text

def divides (c : Char) : Bool := c = ',' || c = '{' || c = '}'

def stretches (t : Text) : List Text := t.splitOnP divides

def IsFence (t : Text) : Prop := words t = [Fence.mark]

instance (t : Text) : Decidable (IsFence t) := inferInstanceAs (Decidable (_ = _))

/-- A line of code without a stretch that is a fence. -/
structure Unfenced (t : Text) : Prop where
  single : '\n' ∉ t
  free : ∀ stretch ∈ stretches t, ¬IsFence stretch

structure UnfencedBehind (t : Text) : Prop where
  single : '\n' ∉ t
  free : ∀ stretch ∈ (stretches t).tail, ¬IsFence stretch

theorem Unfenced.behind {t : Text} (unfenced : Unfenced t) : UnfencedBehind t :=
  ⟨unfenced.single, fun stretch member => unfenced.free stretch (List.mem_of_mem_tail member)⟩

/-! ## Cutting and joining -/

theorem stretches_cons (c : Char) (t : Text) :
    stretches (c :: t) =
      if divides c then [] :: stretches t else (stretches t).modifyHead (c :: ·) :=
  List.splitOnP_cons_eq_if_modifyHead ..

theorem exists_stretches (t : Text) : ∃ first later, stretches t = first :: later :=
  List.exists_cons_of_ne_nil (List.splitOnP_ne_nil _ _)

theorem stretches_cut {c : Char} (divides : divides c = true) (front back : Text) :
    stretches (front ++ c :: back) = stretches front ++ stretches back :=
  List.splitOnP_append_cons front back divides

/-- Joined texts have their stretches, the last of the first text and the first of the second one
in one. -/
theorem exists_stretches_append (front back : Text) :
    ∃ early last first late, stretches front = early ++ [last] ∧ stretches back = first :: late ∧
      stretches (front ++ back) = early ++ (last ++ first) :: late := by
  induction front with
  | nil =>
    obtain ⟨first, late, cut⟩ := exists_stretches back
    exact ⟨[], [], first, late, rfl, cut, cut⟩
  | cons c rest ih =>
    obtain ⟨early, last, first, late, cut, cut', whole⟩ := ih
    rw [List.cons_append, stretches_cons, stretches_cons, cut, whole]
    split
    · exact ⟨[] :: early, last, first, late, rfl, cut', rfl⟩
    · cases early with
      | nil => exact ⟨[], c :: last, first, late, rfl, cut', rfl⟩
      | cons start early => exact ⟨(c :: start) :: early, last, first, late, rfl, cut', rfl⟩

theorem ne_newline_of_divides {c : Char} (divides : divides c = true) : c ≠ '\n' := by
  rintro rfl
  exact absurd divides (by decide)

theorem unfenced_cut {c : Char} (divides : divides c = true) {front back : Text} :
    Unfenced (front ++ c :: back) ↔ Unfenced front ∧ Unfenced back := by
  have other := ne_newline_of_divides divides
  constructor
  · rintro ⟨single, free⟩
    simp only [List.mem_append, List.mem_cons, not_or] at single
    rw [stretches_cut divides, List.forall_mem_append] at free
    exact ⟨⟨single.1, free.1⟩, ⟨single.2.2, free.2⟩⟩
  · rintro ⟨⟨single, free⟩, ⟨single', free'⟩⟩
    refine ⟨?_, ?_⟩
    · simp only [List.mem_append, List.mem_cons, not_or]
      exact ⟨single, Ne.symm other, single'⟩
    · rw [stretches_cut divides]
      exact List.forall_mem_append.mpr ⟨free, free'⟩

theorem UnfencedBehind.cut {c : Char} (divides : divides c = true) {front back : Text}
    (unfenced : UnfencedBehind (front ++ c :: back)) : UnfencedBehind front ∧ Unfenced back := by
  obtain ⟨single, free⟩ := unfenced
  obtain ⟨first, later, cut⟩ := exists_stretches front
  simp only [List.mem_append, List.mem_cons, not_or] at single
  rw [stretches_cut divides, cut, List.cons_append, List.tail_cons, List.forall_mem_append] at free
  refine ⟨⟨single.1, ?_⟩, ⟨single.2.2, free.2⟩⟩
  rw [cut, List.tail_cons]
  exact free.1

theorem Unfenced.drop {front back : Text} (unfenced : Unfenced (front ++ back)) :
    UnfencedBehind back := by
  obtain ⟨single, free⟩ := unfenced
  obtain ⟨early, last, first, late, -, cut, whole⟩ := exists_stretches_append front back
  refine ⟨fun newline => single (List.mem_append_right front newline), fun stretch member => ?_⟩
  rw [cut, List.tail_cons] at member
  exact free stretch (by simp [whole, member])

theorem isFence_join {front back : Text} (fence : IsFence (front ++ ' ' :: back)) :
    IsFence front ∨ IsFence back := by
  rw [IsFence, words_append_blank (by decide)] at fence
  rcases List.append_eq_singleton_iff.mp fence with ⟨-, late⟩ | ⟨early, -⟩
  · exact .inr late
  · exact .inl early

theorem isFence_blank_cons {b : Char} (blank : isBlank b = true) (t : Text) :
    IsFence (b :: t) ↔ IsFence t := by
  have same : words (b :: t) = words t := words_append_blank blank [] t
  rw [IsFence, same, IsFence]

theorem stretches_cons_of_not {c : Char} (other : divides c = false) {t first : Text}
    {late : List Text} (cut : stretches t = first :: late) :
    stretches (c :: t) = (c :: first) :: late := by
  rw [stretches_cons, if_neg (by simp [other]), cut]
  rfl

theorem exists_stretches_join (front back : Text) :
    ∃ early last first late, stretches front = early ++ [last] ∧ stretches back = first :: late ∧
      stretches (front ++ ' ' :: back) = early ++ (last ++ ' ' :: first) :: late := by
  obtain ⟨early, last, first', late', cut, cut', whole⟩ :=
    exists_stretches_append front (' ' :: back)
  obtain ⟨first, late, cut''⟩ := exists_stretches back
  rw [stretches_cons_of_not (by decide) cut''] at cut'
  obtain ⟨rfl, rfl⟩ := List.cons.inj cut'
  exact ⟨early, last, first, late, cut, cut'', whole⟩

theorem newline_not_mem_join {front back : Text} (single : '\n' ∉ front) (single' : '\n' ∉ back) :
    '\n' ∉ front ++ ' ' :: back := by
  simp only [List.mem_append, List.mem_cons, not_or]
  exact ⟨single, by decide, single'⟩

theorem Unfenced.join {front back : Text} (unfenced : Unfenced front) (unfenced' : Unfenced back) :
    Unfenced (front ++ ' ' :: back) := by
  obtain ⟨early, last, first, late, cut, cut', whole⟩ := exists_stretches_join front back
  have free := unfenced.free
  have free' := unfenced'.free
  rw [cut, List.forall_mem_append, List.forall_mem_singleton] at free
  rw [cut', List.forall_mem_cons] at free'
  refine ⟨newline_not_mem_join unfenced.single unfenced'.single, ?_⟩
  rw [whole, List.forall_mem_append, List.forall_mem_cons]
  exact ⟨free.1, fun fence => (isFence_join fence).elim free.2 free'.1, free'.2⟩

theorem UnfencedBehind.join {front back : Text} (unfenced : UnfencedBehind front)
    (unfenced' : Unfenced back) : UnfencedBehind (front ++ ' ' :: back) := by
  obtain ⟨early, last, first, late, cut, cut', whole⟩ := exists_stretches_join front back
  have free := unfenced.free
  have free' := unfenced'.free
  rw [cut] at free
  rw [cut', List.forall_mem_cons] at free'
  refine ⟨newline_not_mem_join unfenced.single unfenced'.single, ?_⟩
  rw [whole]
  cases early with
  | nil => exact free'.2
  | cons one early =>
    rw [List.cons_append, List.tail_cons, List.forall_mem_append,
      List.forall_mem_singleton] at free
    rw [List.cons_append, List.tail_cons, List.forall_mem_append, List.forall_mem_cons]
    exact ⟨free.1, fun fence => (isFence_join fence).elim free.2 free'.1, free'.2⟩

/-! ## Other blanks -/

/-- A text with other blanks, in which a stretch is a fence only if it was one. -/
structure Milder (t t' : Text) : Prop where
  single : '\n' ∉ t → '\n' ∉ t'
  stretches : List.Forall₂ (fun x x' => IsFence x' → IsFence x) (stretches t) (Text.stretches t')

theorem forall₂_isFence_refl (xs : List Text) :
    List.Forall₂ (fun x x' => IsFence x' → IsFence x) xs xs :=
  List.forall₂_same.mpr fun _ _ fence => fence

namespace Milder

variable {t t' t'' : Text}

theorem refl (t : Text) : Milder t t := ⟨id, forall₂_isFence_refl (Text.stretches t)⟩

theorem trans (first : Milder t t') (second : Milder t' t'') : Milder t t'' where
  single := second.single ∘ first.single
  stretches := by
    have chain : ∀ {xs ys zs : List Text}, List.Forall₂ (fun x y => IsFence y → IsFence x) xs ys →
        List.Forall₂ (fun x y => IsFence y → IsFence x) ys zs →
        List.Forall₂ (fun x y => IsFence y → IsFence x) xs zs := by
      intro xs ys zs early late
      induction early generalizing zs with
      | nil => exact late
      | cons here early ih =>
        cases late with
        | cons there late => exact .cons (here ∘ there) (ih late)
    exact chain first.stretches second.stretches

theorem forall_free {xs ys : List Text}
    (same : List.Forall₂ (fun x y => IsFence y → IsFence x) xs ys)
    (free : ∀ x ∈ xs, ¬IsFence x) : ∀ y ∈ ys, ¬IsFence y := by
  induction same with
  | nil => exact free
  | cons here later ih =>
    obtain ⟨first, others⟩ := List.forall_mem_cons.mp free
    exact List.forall_mem_cons.mpr ⟨first ∘ here, ih others⟩

theorem unfenced (same : Milder t t') (unfenced : Unfenced t) : Unfenced t' :=
  ⟨same.single unfenced.single, forall_free same.stretches unfenced.free⟩

theorem unfencedBehind (same : Milder t t') (unfenced : UnfencedBehind t) : UnfencedBehind t' := by
  refine ⟨same.single unfenced.single, ?_⟩
  have free := unfenced.free
  have stretches := same.stretches
  generalize Text.stretches t = xs at free stretches
  generalize Text.stretches t' = ys at stretches ⊢
  cases stretches with
  | nil => simp
  | cons here later => exact forall_free later free

end Milder

/-- Whether blanks stand before a text or behind it, it has the same words. -/
theorem isFence_append_blank {back : Text} (blank : isBlankText back = true) (t : Text) :
    IsFence (t ++ back) ↔ IsFence t := by
  rw [IsFence, ← words_trim, trim_append_blank blank, words_trim, IsFence]

theorem not_divides_of_isBlank {c : Char} (blank : isBlank c = true) : divides c = false := by
  simp only [divides, Bool.or_eq_false_iff, decide_eq_false_iff_not]
  refine ⟨⟨?_, ?_⟩, ?_⟩ <;>
    · rintro rfl
      exact absurd blank (by decide)

theorem forall₂_stretches_cons {R : Text → Text → Prop} {c c' : Char} {t t' : Text}
    (other : divides c = false) (other' : divides c' = false)
    (keeps : ∀ x x', R x x' → R (c :: x) (c' :: x'))
    (same : List.Forall₂ R (stretches t) (stretches t')) :
    List.Forall₂ R (stretches (c :: t)) (stretches (c' :: t')) := by
  obtain ⟨first, late, cut⟩ := exists_stretches t
  obtain ⟨first', late', cut'⟩ := exists_stretches t'
  rw [cut, cut'] at same
  rw [stretches_cons_of_not other cut, stretches_cons_of_not other' cut']
  cases same with
  | cons here there => exact .cons (keeps _ _ here) there

theorem stretches_of_isBlankText {t : Text} (blank : isBlankText t = true) : stretches t = [t] :=
  List.splitOnP_eq_singleton fun c member => by
    simp [not_divides_of_isBlank (List.all_eq_true.mp blank c member)]

theorem milder_append_blank {back : Text} (blank : isBlankText back = true) (t : Text) :
    Milder (t ++ back) t := by
  obtain ⟨early, last, first, late, cut, cut', whole⟩ := exists_stretches_append t back
  rw [stretches_of_isBlankText blank] at cut'
  obtain ⟨rfl, rfl⟩ := List.cons.inj cut'
  refine ⟨fun single newline => single (List.mem_append_left _ newline), ?_⟩
  rw [whole, cut]
  exact List.rel_append (forall₂_isFence_refl early)
    (.cons (isFence_append_blank blank last).mpr .nil)

theorem milder_blank_append {front : Text} (blank : isBlankText front = true) (t : Text) :
    Milder (front ++ t) t := by
  induction front with
  | nil => exact .refl t
  | cons b rest ih =>
    obtain ⟨here, there⟩ := Bool.and_eq_true_iff.mp blank
    refine Milder.trans ⟨fun single newline => single (List.mem_cons_of_mem b newline), ?_⟩
      (ih there)
    obtain ⟨first, late, cut⟩ := exists_stretches (rest ++ t)
    change List.Forall₂ _ (stretches (b :: (rest ++ t))) (stretches (rest ++ t))
    rw [stretches_cons_of_not (not_divides_of_isBlank here) cut, cut]
    exact .cons (isFence_blank_cons here first).mpr (forall₂_isFence_refl late)

theorem milder_trim (t : Text) : Milder t (trim t) := by
  obtain ⟨front, back, blank, blank', cut⟩ := exists_blank_trim t
  have whole := (milder_blank_append blank (trim t ++ back)).trans
    (milder_append_blank blank' (trim t))
  rwa [← cut] at whole

theorem flatten_words (t : Text) : (words t).flatten = t.filter (!isBlank ·) := by
  induction t with
  | nil => rfl
  | cons c rest ih =>
    rw [List.filter_cons]
    cases blank : isBlank c with
    | true =>
      rw [show words (c :: rest) = words rest from words_append_blank blank [] rest, ih]
      rfl
    | false =>
      obtain ⟨first, later, cut⟩ := List.exists_cons_of_ne_nil (List.splitOnP_ne_nil isBlank rest)
      rw [words, cut] at ih
      rw [words, List.splitOnP_cons_eq_if_modifyHead, blank, cut, Bool.not_false, if_pos rfl, ← ih]
      cases first <;> rfl

theorem mem_fence {t : Text} (fence : IsFence t) {c : Char} (member : c ∈ t) :
    isBlank c = true ∨ c = '`' := by
  cases blank : isBlank c with
  | true => exact .inl rfl
  | false =>
    have inWords : c ∈ (words t).flatten := by
      rw [flatten_words]
      simp [member, blank]
    rw [show words t = [Fence.mark] from fence] at inWords
    simpa [Fence.mark] using inWords

namespace Reblanked

variable {loose : Bool} {t t' : Text}

/-- Without signs there is nothing to put spaces beside. -/
theorem tight (same : Reblanked loose t t') (noSign : ∀ c ∈ t, c ∉ assignmentSign) :
    Reblanked false t t' := by
  induction same with
  | nil => exact .nil
  | keep c later ih => exact .keep c (ih fun d member => noSign d (List.mem_cons_of_mem _ member))
  | blank isBlank later ih =>
    exact .blank isBlank (ih fun d member => noSign d (List.mem_cons_of_mem _ member))
  | drop isBlank isBlank' later ih =>
    exact .drop isBlank isBlank' (ih fun d member => noSign d (List.mem_cons_of_mem _ member))
  | before isLoose mark later ih => exact absurd mark (noSign _ (List.mem_cons_self ..))
  | behind isLoose mark later ih => exact absurd mark (noSign _ (List.mem_cons_self ..))

theorem isFence (same : Reblanked loose t t') (fence : IsFence t') : IsFence t := by
  have solid : ∀ c ∈ t, isBlank c = false → c = '`' := by
    intro c member seen
    have kept : c ∈ t' := by
      have inside : c ∈ t.filter (!isBlank ·) := by simp [member, seen]
      rw [← same.filter_solid] at inside
      exact List.mem_of_mem_filter inside
    exact (mem_fence fence kept).resolve_left (by simp [seen])
  have tight : Reblanked false t t' := same.tight fun c member mark => by
    rw [solid c member (isBlank_of_mem_sign mark)] at mark
    exact absurd mark (by decide)
  rw [IsFence, ← tight.words]
  exact fence

theorem mem_or_space (same : Reblanked loose t t') {c : Char} (member : c ∈ t') :
    c ∈ t ∨ c = ' ' := by
  induction same with
  | nil => exact .inl member
  | keep d later ih =>
    rcases List.mem_cons.mp member with rfl | behind
    · exact .inl (List.mem_cons_self ..)
    · exact (ih behind).imp_left (List.mem_cons_of_mem _)
  | blank isBlank later ih =>
    rcases List.mem_cons.mp member with rfl | behind
    · exact .inr rfl
    · exact (ih behind).imp_left (List.mem_cons_of_mem _)
  | drop isBlank isBlank' later ih => exact (ih member).imp_left (List.mem_cons_of_mem _)
  | before isLoose mark later ih =>
    rcases List.mem_cons.mp member with rfl | behind
    · exact .inr rfl
    · exact ih behind
  | behind isLoose mark later ih =>
    rcases List.mem_cons.mp member with rfl | behind
    · exact .inl (List.mem_cons_self ..)
    rcases List.mem_cons.mp behind with rfl | behind
    · exact .inr rfl
    · exact (ih behind).imp_left (List.mem_cons_of_mem _)

theorem stretches (same : Reblanked loose t t') :
    List.Forall₂ (Reblanked loose) (stretches t) (Text.stretches t') := by
  have sign : ∀ c ∈ assignmentSign, divides c = false := by simp [assignmentSign, divides]
  have space : divides ' ' = false := by decide
  induction same with
  | nil => exact .cons .nil .nil
  | @keep c t t' later ih =>
    cases cuts : divides c with
    | true =>
      rw [stretches_cons, stretches_cons, if_pos cuts, if_pos cuts]
      exact .cons .nil ih
    | false => exact forall₂_stretches_cons cuts cuts (fun _ _ => .keep c) ih
  | blank isBlank later ih =>
    exact forall₂_stretches_cons (not_divides_of_isBlank isBlank) space
      (fun _ _ => .blank isBlank) ih
  | @drop b next t t' isBlank isBlank' later ih =>
    obtain ⟨first, late, cut⟩ := exists_stretches t
    have cut' := stretches_cons_of_not (not_divides_of_isBlank isBlank') cut
    rw [cut'] at ih
    rw [stretches_cons_of_not (not_divides_of_isBlank isBlank) cut']
    generalize Text.stretches t' = pieces at ih
    cases ih with
    | cons here there => exact .cons (.drop isBlank isBlank' here) there
  | @before c t t' isLoose mark later ih =>
    obtain ⟨first, late, cut⟩ := exists_stretches t
    obtain ⟨first', late', cut'⟩ := exists_stretches t'
    rw [stretches_cons_of_not (sign c mark) cut, cut'] at ih
    rw [stretches_cons_of_not (sign c mark) cut, stretches_cons_of_not space cut']
    cases ih with
    | cons here there => exact .cons (.before isLoose mark here) there
  | @behind c t t' isLoose mark later ih =>
    obtain ⟨first, late, cut⟩ := exists_stretches t
    obtain ⟨first', late', cut'⟩ := exists_stretches t'
    rw [cut, cut'] at ih
    rw [stretches_cons_of_not (sign c mark) cut,
      stretches_cons_of_not (sign c mark) (stretches_cons_of_not space cut')]
    cases ih with
    | cons here there => exact .cons (.behind isLoose mark here) there

theorem milder (same : Reblanked loose t t') : Milder t t' where
  single none newline := (same.mem_or_space newline).elim none (by decide)
  stretches := same.stretches.imp fun _ _ same => same.isFence

end Reblanked

namespace Respaced

variable {t t' : Text}

theorem mem_or_space (same : Respaced t t') {c : Char} (member : c ∈ t') : c ∈ t ∨ c = ' ' := by
  induction same with
  | nil => exact .inl member
  | keep other later ih =>
    rcases List.mem_cons.mp member with rfl | behind
    · exact .inl (List.mem_cons_self ..)
    · exact (ih behind).imp_left (List.mem_cons_of_mem _)
  | tab later ih =>
    rcases List.mem_cons.mp member with rfl | behind
    · exact .inr rfl
    · exact (ih behind).imp_left (List.mem_cons_of_mem _)
  | more later ih =>
    rcases List.mem_cons.mp member with rfl | behind
    · exact .inr rfl
    · exact ih behind

theorem stretches (same : Respaced t t') :
    List.Forall₂ Respaced (stretches t) (Text.stretches t') := by
  have space : divides ' ' = false := by decide
  have tab : divides '\t' = false := by decide
  induction same with
  | nil => exact .cons .nil .nil
  | @keep c t t' other later ih =>
    cases cuts : divides c with
    | true =>
      rw [stretches_cons, stretches_cons, if_pos cuts, if_pos cuts]
      exact .cons .nil ih
    | false => exact forall₂_stretches_cons cuts cuts (fun _ _ => .keep other) ih
  | tab later ih => exact forall₂_stretches_cons tab space (fun _ _ => .tab) ih
  | @more t t' later ih =>
    obtain ⟨first, late, cut⟩ := exists_stretches t
    obtain ⟨first', late', cut'⟩ := exists_stretches t'
    rw [stretches_cons_of_not tab cut, cut'] at ih
    rw [stretches_cons_of_not tab cut, stretches_cons_of_not space cut']
    cases ih with
    | cons here there => exact .cons (.more here) there

theorem milder (same : Respaced t t') : Milder t t' where
  single none newline := (same.mem_or_space newline).elim none (by decide)
  stretches := same.stretches.imp fun _ _ same fence => same.words.symm.trans fence

end Respaced

/-! ## Neat texts and members -/

theorem milder_neat (t : Text) : Milder t (neat t) := by
  obtain ⟨t', same, trimmed⟩ := reblanked_neat t
  rw [trimmed]
  exact same.milder.trans (milder_trim t')

theorem newline_not_mem_trim {t : Text} (single : '\n' ∉ t) : '\n' ∉ trim t :=
  (milder_trim t).single single

theorem newline_not_mem_neat {t : Text} (single : '\n' ∉ t) : '\n' ∉ neat t :=
  (milder_neat t).single single

theorem newline_not_mem_memberForm {t : Text} (single : '\n' ∉ t) : '\n' ∉ memberForm t := by
  intro newline
  refine (milder_neat t).single single ?_
  rw [memberForm, trimEndBy_eq] at newline
  exact (List.rdropWhile_prefix _ _).subset newline

namespace Unfenced

variable {t : Text}

theorem nil : Unfenced [] := ⟨by simp, List.forall_mem_singleton.mpr (by decide)⟩

theorem trim (unfenced : Unfenced t) : Unfenced (Text.trim t) := (milder_trim t).unfenced unfenced

theorem neat (unfenced : Unfenced t) : Unfenced (Text.neat t) := (milder_neat t).unfenced unfenced

theorem memberForm (unfenced : Unfenced t) : Unfenced (Text.memberForm t) := by
  have kept : ∀ {front back : Text}, (∀ c ∈ back, c = ',' ∨ isBlank c = true) →
      Unfenced (front ++ back) → Unfenced front := by
    intro front back
    induction back generalizing front with
    | nil => exact fun _ whole => by rwa [List.append_nil] at whole
    | cons c back ih =>
      intro dropped whole
      obtain ⟨here, there⟩ := List.forall_mem_cons.mp dropped
      rcases here with rfl | blank
      · exact ((unfenced_cut (by decide)).mp whole).1
      · rw [← List.singleton_append, ← List.append_assoc] at whole
        exact (milder_append_blank (by simp [isBlankText, blank]) front).unfenced (ih there whole)
  refine @kept _ ((Text.neat t).rtakeWhile fun c => c = ',' || isBlank c) (fun c member => ?_) ?_
  · simpa using List.mem_rtakeWhile_imp member
  · rw [Text.memberForm, trimEndBy_eq, List.rdropWhile_append_rtakeWhile]
    exact unfenced.neat

theorem members (unfenced : Unfenced t) : ∀ part ∈ Text.members t, Unfenced part := by
  obtain ⟨first, later, cut, here, others⟩ := @forall_segments Unfenced
    (fun _ _ => (unfenced_cut (by decide)).mp) {} [] t 0 unfenced
  exact forall_members cut here.memberForm fun segment inside => (others segment inside).memberForm

theorem not_closes (unfenced : Unfenced t) : Fence.closes t = false := by
  rw [Bool.eq_false_iff]
  intro closes
  have same : Text.trim t = Fence.mark := of_decide_eq_true closes
  have free := unfenced.trim.free
  rw [same] at free
  exact free Fence.mark (by decide) (by decide)

end Unfenced

/-! ## Lines between fences -/

/-- A line that stays between the fences around it. -/
structure Inner (line : Text) : Prop where
  single : '\n' ∉ line
  goesOn : Fence.closes line = false

theorem Unfenced.inner {t : Text} (unfenced : Unfenced t) : Inner t :=
  ⟨unfenced.single, unfenced.not_closes⟩

theorem Inner.of_trim {t t' : Text} (inner : Inner t) (single : '\n' ∉ t')
    (same : trim t' = trim t) : Inner t' := by
  have goesOn := inner.goesOn
  rw [Fence.closes, ← same] at goesOn
  exact ⟨single, goesOn⟩

/-- A character that is neither blank nor part of a fence keeps a line between fences. -/
theorem inner_of_mem {t : Text} {c : Char} (single : '\n' ∉ t) (member : c ∈ t)
    (seen : isBlank c = false) (other : c ≠ '`') : Inner t := by
  refine ⟨single, ?_⟩
  rw [Bool.eq_false_iff]
  intro closes
  have same : trim t = Fence.mark := of_decide_eq_true closes
  have fence : IsFence t := by
    rw [IsFence, ← words_trim, same]
    decide
  rcases mem_fence fence member with blank | mark
  · simp [seen] at blank
  · exact other mark

theorem Respaced.eq_of_solid {t t' : Text} (same : Respaced t t') (solid : ' ' ∉ t') : t' = t := by
  induction same with
  | nil => rfl
  | keep other later ih => rw [ih fun member => solid (List.mem_cons_of_mem _ member)]
  | tab later ih => exact absurd (List.mem_cons_self ..) solid
  | more later ih => exact absurd (List.mem_cons_self ..) solid

/-- Tabs that become spaces leave a line between its fences. -/
theorem Inner.respaced {t t' : Text} (inner : Inner t) (same : Respaced t t') : Inner t' := by
  refine ⟨same.milder.single inner.single, ?_⟩
  rw [Bool.eq_false_iff]
  intro closes
  have mark : trim t' = Fence.mark := of_decide_eq_true closes
  have unchanged := same.trim.eq_of_solid (by rw [mark]; decide)
  have goesOn := inner.goesOn
  rw [Fence.closes, ← unchanged, mark] at goesOn
  exact absurd goesOn (by decide)

end AsnLayout.Text
