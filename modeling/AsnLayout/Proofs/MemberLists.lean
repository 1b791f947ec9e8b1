import AsnLayout.Proofs.UndividedBody

/-!
# Lists of members

A text is cut at commas into parts, each cut at none, and all but the last leave no bracket and no
literal open.  The members are the forms of these parts, so each of them is its own form and lists
itself alone.  Joined with commas and spaces, the members are cut again where they were joined.
-/

set_option autoImplicit false

namespace AsnLayout.Text

/-! ## Parts between commas -/

/-- A text that is cut at no comma and leaves nothing open: a comma behind it cuts. -/
structure Settled (t : Text) : Prop where
  uncut : Uncut t 0
  closed : (Quoting.after {} t).inside = false

/-- The parts of a list, cut at no comma each.  What the last one opens may stay open. -/
inductive Listed : List Text → Prop where
  | nil : Listed []
  | last {t : Text} (uncut : isUncut t = true) : Listed [t]
  | cons {t : Text} {later : List Text} (settled : Settled t) (rest : Listed later) :
      Listed (t :: later)

variable {t : Text} {later parts : List Text}

theorem Uncut.snoc {brackets : Nat} {c : Char} (uncut : Uncut t brackets)
    (noCut : ¬((Quoting.after {} t).exposes c = true ∧ c = ',' ∧ brackets = 0)) :
    Uncut (t ++ [c]) (openAfter brackets ((Quoting.after {} t).signs isDivider [c])) := by
  cases shown : (Quoting.after {} t).exposes c with
  | false =>
    rw [Quoting.signs_cons, shown]
    exact uncut.hidden shown
  | true =>
    rw [Quoting.signs_cons, shown, Quoting.signs_nil, List.append_nil, Bool.true_and,
      openAfter_sign]
    exact uncut.code shown fun cuts => noCut ⟨shown, cuts⟩

namespace Settled

theorem segments_comma (settled : Settled t) (back : Text) :
    segments (· = ',') 0 (marks (t ++ ',' :: back)) = t :: segments (· = ',') 0 (marks back) := by
  have shown : (Quoting.after {} t).exposes ',' = true := by
    simp [Quoting.exposes, Quoting.isQuote, settled.closed]
  have count : openAfter 0 (Quoting.signs {} isDivider t) = 0 := settled.uncut.count
  calc segments (· = ',') 0 (marks (t ++ ',' :: back))
      = (segments (· = ',') 0 ((Quoting.after {} t).marks (',' :: back))).modifyHead (t ++ ·) := by
        rw [marks, segments_append_of_commasInside settled.uncut.inside, count]
    _ = ([] :: segments (· = ',') 0 (marks back)).modifyHead (t ++ ·) := by
        rw [segments_step, if_pos ⟨shown, rfl, rfl⟩, Quoting.next_of_exposes shown (by decide)]
        rfl
    _ = t :: segments (· = ',') 0 (marks back) := by
        rw [List.modifyHead_cons, List.append_nil]

/-- The form of a settled text is settled: there is no comma to drop. -/
theorem memberForm (settled : Settled t) : Settled (memberForm t) := by
  obtain ⟨uncut, closed⟩ := settled
  rw [uncut.memberForm_eq closed]
  exact ⟨uncut.of_signs (signs_neat tellsApart_isDivider t), (inside_after_neat t).trans closed⟩

end Settled

namespace Listed

theorem isUncut (listed : Listed parts) : ∀ part ∈ parts, Text.isUncut part = true := by
  induction listed with
  | nil => simp
  | last uncut => exact List.forall_mem_singleton.mpr uncut
  | cons settled rest ih => exact List.forall_mem_cons.mpr ⟨settled.uncut.inside, ih⟩

theorem filter (listed : Listed parts) (keep : Text → Bool) : Listed (parts.filter keep) := by
  induction listed with
  | nil => exact .nil
  | last uncut =>
    rw [List.filter_singleton]
    cases keep _ with
    | false => exact .nil
    | true => exact .last uncut
  | cons settled rest ih =>
    rw [List.filter_cons]
    split
    · exact .cons settled ih
    · exact ih

theorem map_memberForm (listed : Listed parts) : Listed (parts.map memberForm) := by
  induction listed with
  | nil => exact .nil
  | last uncut => exact .last (isUncut_memberForm uncut)
  | cons settled rest ih => exact .cons settled.memberForm ih

end Listed

/-- A text is cut into the parts of a list, what stands before it included in the first of them. -/
theorem exists_listed_segments {front : Text} {depth : Nat} (uncut : Uncut front depth) (t : Text) :
    ∃ first later, segments (· = ',') depth ((Quoting.after {} front).marks t) = first :: later ∧
      Listed ((front ++ first) :: later) := by
  induction t generalizing front depth with
  | nil => exact ⟨[], [], rfl, .last (by rw [List.append_nil]; exact uncut.inside)⟩
  | cons c rest ih =>
    rw [segments_step]
    split
    · rename_i cuts
      obtain ⟨shown, rfl, rfl⟩ := cuts
      obtain ⟨first, later, cut, listed⟩ := ih .nil
      have closed : (Quoting.after {} front).inside = false := by
        simpa [Quoting.exposes, Quoting.isQuote] using shown
      refine ⟨[], first :: later, ?_, .cons ⟨?_, ?_⟩ listed⟩
      · rw [Quoting.next_of_exposes shown (by decide)]
        exact congrArg ([] :: ·) cut
      · rwa [List.append_nil]
      · rwa [List.append_nil]
    · rename_i noCut
      obtain ⟨first, later, cut, listed⟩ := ih (uncut.snoc noCut)
      rw [Quoting.after_append] at cut
      refine ⟨c :: first, later, ?_, ?_⟩
      · rw [show (Quoting.after {} front).next c = Quoting.after (Quoting.after {} front) [c] from
          rfl, cut, List.modifyHead_cons]
      · rwa [List.append_assoc] at listed

/-! ## Members -/

theorem listed_members (t : Text) : Listed (members t) := by
  obtain ⟨first, later, cut, listed⟩ := exists_listed_segments .nil t
  have cut : segments (· = ',') 0 (marks t) = first :: later := cut
  rw [members, cut]
  exact listed.map_memberForm.filter isMember

theorem form_of_mem_members {part : Text} (listed : part ∈ members t) :
    memberForm part = part ∧ isMember part = true := by
  obtain ⟨inForms, kept⟩ := List.mem_filter.mp listed
  obtain ⟨segment, -, rfl⟩ := List.mem_map.mp inForms
  exact ⟨memberForm_memberForm segment, kept⟩

theorem memberForm_space (t : Text) : memberForm (' ' :: t) = memberForm t := by
  have space : isBlankText [' '] = true := by decide
  obtain ⟨gap, blank, grown⟩ := exists_mapCode_blank_append space t
  rw [List.singleton_append] at grown
  rw [memberForm_eq, memberForm_eq, formBy, formBy, grown, trimStart_of_blank blank]

/-- Parts joined with commas and spaces are cut where they were joined. -/
theorem segments_intercalate (listed : Listed (t :: later)) :
    segments (· = ',') 0 (marks ([',', ' '].intercalate (t :: later))) =
      t :: later.map (' ' :: ·) := by
  induction later generalizing t with
  | nil =>
    rw [List.intercalate_singleton, List.map_nil]
    exact segments_of_commasInside (listed.isUncut t (List.mem_singleton_self t))
  | cons second others ih =>
    cases listed with
    | cons settled rest =>
      have whole : [',', ' '].intercalate (t :: second :: others) =
          t ++ ',' :: ' ' :: [',', ' '].intercalate (second :: others) := by
        simp [List.intercalate]
      have space : ∀ back : Text, segments (· = ',') 0 (marks (' ' :: back)) =
          (segments (· = ',') 0 (marks back)).modifyHead (' ' :: ·) := fun _ => rfl
      rw [whole, settled.segments_comma, space, ih rest, List.modifyHead_cons, List.map_cons]

theorem members_intercalate (listed : Listed parts)
    (forms : ∀ part ∈ parts, memberForm part = part ∧ isMember part = true) :
    members ([',', ' '].intercalate parts) = parts := by
  cases parts with
  | nil => rfl
  | cons part others =>
    have spaced : (others.map (' ' :: ·)).map memberForm = others := by
      rw [List.map_map]
      refine (List.map_congr_left fun other member => ?_).trans (List.map_id others)
      exact (memberForm_space other).trans (forms other (List.mem_cons_of_mem _ member)).1
    rw [members, segments_intercalate listed, List.map_cons, spaced, (forms part (by simp)).1]
    exact List.filter_eq_self.mpr fun part member => (forms part member).2

/-- Every member of a text is its own form, neither empty nor a brace alone, and lists itself and no
other; the members joined with commas and spaces are listed as they were. -/
theorem members_stable (t : Text) :
    (∀ part ∈ members t, memberForm part = part ∧ part ≠ [] ∧ part ≠ ['{'] ∧
      part ≠ ['}'] ∧ members part = [part]) ∧
    members ([',', ' '].intercalate (members t)) = members t := by
  refine ⟨fun part member => ?_,
    members_intercalate (listed_members t) fun _ => form_of_mem_members⟩
  obtain ⟨form, kept⟩ := form_of_mem_members member
  have single : members part = [part] := by
    have uncut := (listed_members t).isUncut part member
    rw [← form] at kept
    have alone := members_memberForm uncut kept
    rwa [form] at alone
  simp only [isMember, Bool.and_eq_true, decide_eq_true_eq] at kept
  exact ⟨form, kept.1.1, kept.1.2, kept.2, single⟩

/-- A bracket that closes nothing, a brace alone, a literal with a comma, and commas behind an open
bracket. -/
theorem members_stable_of_unpaired :
    let text : Text := "x ), \x7d ,\t\"a \\\" ,  b\" , (c  , d , ,".toList
    members text = ["x )".toList, "\"a \\\" ,  b\"".toList, "(c , d".toList] ∧
    members "(c , d".toList = ["(c , d".toList] ∧
    members "x ), \"a \\\" ,  b\", (c , d".toList = members text := by
  intro text
  have listed : members text = ["x )".toList, "\"a \\\" ,  b\"".toList, "(c , d".toList] := by
    decide +kernel
  obtain ⟨alone, joined⟩ := members_stable text
  refine ⟨listed, (alone _ (by rw [listed]; simp)).2.2.2.2, ?_⟩
  rw [listed] at joined ⊢
  exact joined

end AsnLayout.Text
