import AsnLayout.Proofs.BlankLines
import AsnLayout.Proofs.MemberLists
import AsnLayout.Proofs.NeatCode
import AsnLayout.Proofs.NeatLines

/-!
# Parts of neat texts

Code without an assignment sign is neat where its blanks are single spaces.  So the parts of a neat
text around a bracket are neat again, and so is what a layout puts together of neat texts: a member
with its comma, the line that opens a group and the line that closes one.
-/

set_option autoImplicit false

namespace AsnLayout

namespace Text

variable {t front back : Text} {c : Char}

/-! ## Tight code -/

/-- Code whose blanks are single spaces and which has no assignment sign. -/
structure IsTight (code : Text) : Prop where
  spaces : ∀ c ∈ code, isBlank c = true → c = ' '
  single : ¬[' ', ' '] <:+: code
  noSign : ¬assignmentSign <:+: code

theorem IsTight.inner {part code : Text} (tight : IsTight code) (inside : part <:+: code) :
    IsTight part where
  spaces c member := tight.spaces c (inside.subset member)
  single twice := tight.single (twice.trans inside)
  noSign sign := tight.noSign (sign.trans inside)

theorem IsTight.cons_of_solid (tight : IsTight t) (solid : isBlank c = false) (noColon : c ≠ ':') :
    IsTight (c :: t) where
  spaces d member blank := by
    rcases List.mem_cons.mp member with rfl | member
    · rw [solid] at blank
      cases blank
    · exact tight.spaces d member blank
  single twice := by
    rcases List.infix_cons_iff.mp twice with ⟨rest, starts⟩ | later
    · cases (List.cons.inj starts).1
      cases solid
    · exact tight.single later
  noSign sign := by
    rcases List.infix_cons_iff.mp sign with ⟨rest, starts⟩ | later
    · exact noColon (List.cons.inj starts).1.symm
    · exact tight.noSign later

/-- A mark that is neither a blank nor part of a sign joins tight code. -/
theorem IsTight.join (tight : IsTight front) (tight' : IsTight back) (solid : isBlank c = false)
    (noSign : c ∉ assignmentSign) : IsTight (front ++ c :: back) where
  spaces d member blank := by
    rcases List.mem_append.mp member with early | late
    · exact tight.spaces d early blank
    · rcases List.mem_cons.mp late with rfl | late
      · rw [solid] at blank
        cases blank
      · exact tight'.spaces d late blank
  single twice := by
    have absent : c ∉ [' ', ' '] := by
      rintro member
      obtain rfl : c = ' ' := by simpa using member
      cases solid
    exact (infix_of_append_cons absent twice).elim tight.single tight'.single
  noSign sign := (infix_of_append_cons noSign sign).elim tight.noSign tight'.noSign

theorem isTight_nil : IsTight [] :=
  ⟨by simp, by simp, by simp [assignmentSign]⟩

theorem IsTight.space (tight : IsTight t) (ends : ∀ d ∈ t.getLast?, isBlank d = false) :
    IsTight (t ++ [' ']) where
  spaces d member blank := by
    rcases List.mem_append.mp member with early | late
    · exact tight.spaces d early blank
    · exact List.mem_singleton.mp late
  single twice := by
    rcases List.infix_concat_iff.mp twice with ⟨front, whole⟩ | early
    · have cut : t = front ++ [' '] := by
        have whole : t ++ [' '] = (front ++ [' ']) ++ [' '] := by simpa using whole.symm
        exact List.append_cancel_right whole
      have last := ends ' ' (by simp [cut])
      cases last
    · exact tight.single early
  noSign sign := by
    rcases List.infix_concat_iff.mp sign with ⟨front, whole⟩ | early
    · have whole : t ++ [' '] = (front ++ [':', ':']) ++ ['='] := by
        simpa [assignmentSign] using whole.symm
      have last := (List.append_inj' whole rfl).2
      cases last
    · exact tight.noSign early

theorem collapse_of_isTight (tight : IsTight t) : collapse t = t := by
  induction t with
  | nil => rfl
  | cons c rest ih =>
    have later := ih (tight.inner (List.suffix_cons c rest).isInfix)
    rw [collapse]
    split
    · rename_i blank
      obtain rfl := tight.spaces c (List.mem_cons_self ..) blank
      split
      · rename_i next
        cases rest with
        | nil => cases next
        | cons d more =>
          obtain rfl := tight.spaces d (by simp) next
          exact absurd ⟨[], more, rfl⟩ tight.single
      · rw [later]
    · rw [later]

theorem spaced_of_isTight (tight : IsTight t) : spaced t = t := by
  rw [spaced, spaceAssignments_of_signless tight.noSign, collapse_of_isTight tight]

theorem mapCode_of_isTight (tight : IsTight (masked t)) : mapCode spaced t = t := by
  induction t using inStretches with
  | code x quiet =>
    rw [masked, Quoting.masked_of_quiet quiet] at tight
    rw [mapCode_of_quiet quiet]
    exact spaced_of_isTight tight
  | opened x y quiet opens quiet' =>
    rw [masked_opened quiet opens quiet'] at tight
    rw [mapCode_opened quiet opens quiet',
      spaced_of_isTight (tight.inner (List.prefix_append x _).isInfix)]
  | closed x y rest quiet opens quiet' closes ih =>
    rw [masked_literal quiet opens quiet' closes] at tight
    have behind : masked rest <:+: x ++ '"' :: (y.map (fun _ => '"') ++ '"' :: masked rest) :=
      ⟨x ++ '"' :: (y.map (fun _ => '"') ++ ['"']), [], by simp⟩
    rw [mapCode_literal quiet opens quiet' closes,
      spaced_of_isTight (tight.inner (List.prefix_append x _).isInfix), ih (tight.inner behind)]

/-! ## Neat texts without a sign -/

structure IsNeat (t : Text) : Prop where
  trimmed : trim t = t
  tight : IsTight (masked t)

theorem IsNeat.neat (isNeat : IsNeat t) : Text.neat t = t := by
  rw [neat_eq, mapCode_of_isTight isNeat.tight, isNeat.trimmed]

theorem infix_of_masked {word : Text} (unquoted : '"' ∉ word) {q : Quoting}
    (seen : word <:+: q.masked t) : word <:+: t := by
  have starts : ∀ (word t : Text) (q : Quoting), '"' ∉ word → word <+: q.masked t → word <+: t := by
    intro word
    induction word with
    | nil => exact fun t _ _ _ => List.nil_prefix
    | cons c more ih =>
      intro t q absent seen
      simp only [List.mem_cons, not_or] at absent
      cases t with
      | nil => exact absurd (List.prefix_nil.mp seen) (by simp)
      | cons d rest =>
        rw [Quoting.masked_cons, List.cons_prefix_cons] at seen
        obtain ⟨same, later⟩ := seen
        split at same
        · exact List.cons_prefix_cons.mpr ⟨same, ih rest _ absent.2 later⟩
        · exact absurd same.symm absent.1
  induction t generalizing q with
  | nil => exact seen
  | cons d rest ih =>
    rw [Quoting.masked_cons, List.infix_cons_iff] at seen
    rw [List.infix_cons_iff]
    rcases seen with here | later
    · rw [← Quoting.masked_cons] at here
      exact .inl (starts _ _ q unquoted here)
    · exact .inr (ih later)

theorem isNeat_of_neat (neat : Text.neat t = t) (calm : Calm t) : IsNeat t := by
  have spaced := isSpaced_neat t
  rw [neat] at spaced
  refine ⟨?_, spaced.spaces, spaced.single, fun sign => ?_⟩
  · rw [← neat]
    exact trim_trim _
  · have inside := infix_of_masked (by decide) sign
    have noSign := calm.noSign
    rw [(contains_iff (by decide) t).mpr inside] at noSign
    cases noSign

theorem IsNeat.trim (tight : IsTight (masked t)) : IsNeat (Text.trim t) :=
  ⟨trim_trim t, tight.inner (masked_trim_isInfix t)⟩

theorem masked_append_mark (shown : (Quoting.after {} front).exposes c = true) (plain : c ≠ '\\')
    (back : Text) : masked (front ++ c :: back) = masked front ++ c :: masked back := by
  rw [masked, Quoting.masked_append, Quoting.masked_cons, if_pos shown,
    Quoting.next_of_exposes shown plain]
  rfl

/-- The parts of a neat text on both sides of a mark of code are neat once they are trimmed. -/
theorem IsNeat.cut (isNeat : IsNeat (front ++ c :: back))
    (shown : (Quoting.after {} front).exposes c = true) (plain : c ≠ '\\') :
    IsNeat (Text.trim front) ∧ IsTight (masked back) := by
  have tight := isNeat.tight
  rw [masked_append_mark shown plain] at tight
  refine ⟨.trim (tight.inner (List.prefix_append _ _).isInfix), tight.inner ?_⟩
  exact ⟨masked front ++ [c], [], by simp⟩

/-! ## Neat texts put together -/

theorem exposes_of_closed (closed : (Quoting.after {} t).inside = false) (noQuote : c ≠ '"') :
    (Quoting.after {} t).exposes c = true := by
  simp [Quoting.exposes, Quoting.isQuote, closed, noQuote]

theorem ends_of_trimmed (trimmed : Text.trim t = t) : ∀ d ∈ t.getLast?, isBlank d = false := by
  intro d last
  rw [← trimmed] at last
  exact isBlank_of_getLast?_trim last

theorem ends_masked (trimmed : Text.trim t = t) :
    ∀ d ∈ (masked t).getLast?, isBlank d = false := by
  rcases List.eq_nil_or_concat t with rfl | ⟨front, last, rfl⟩
  · simp [masked, Quoting.masked, Quoting.marks]
  · have solid := ends_of_trimmed trimmed last (by simp)
    rw [masked, List.concat_eq_append, Quoting.masked_append, Quoting.masked_cons]
    intro d member
    simp only [List.getLast?_append, Quoting.masked, Quoting.marks, List.map_nil,
      List.getLast?_singleton, Option.some_or, Option.mem_def, Option.some.injEq] at member
    rw [← member]
    split
    · exact solid
    · decide

theorem isTight_singleton {d : Char} (solid : isBlank d = false) (noSign : d ∉ assignmentSign) :
    IsTight [d] := by
  have joined := isTight_nil.join isTight_nil solid noSign
  exact joined

theorem trimStart_of_trimmed (trimmed : Text.trim t = t) : trimStart t = t := by
  have short : (Text.trim t).length ≤ (trimStart t).length :=
    (List.rdropWhile_prefix _ _).length_le
  rw [trimmed] at short
  exact (List.dropWhile_suffix _).eq_of_length_le short

theorem trim_concat (trimmed : Text.trim t = t) (solid : isBlank c = false) :
    Text.trim (t ++ [c]) = t ++ [c] := by
  rw [trim_append_solid solid, trimStart_of_trimmed trimmed]

theorem IsNeat.withComma (isNeat : IsNeat t) (closed : (Quoting.after {} t).inside = false)
    (comma : Bool) : IsNeat (Layout.withComma t comma) := by
  cases comma with
  | false => exact isNeat
  | true =>
    refine ⟨trim_concat isNeat.trimmed (by decide), ?_⟩
    rw [Layout.withComma, if_pos rfl,
      masked_append_mark (exposes_of_closed closed (by decide)) (by decide)]
    exact isNeat.tight.join isTight_nil (by decide) (by decide)

theorem exists_cons_of_trimmed (trimmed : Text.trim t = t) (filled : t ≠ []) :
    ∃ d rest, t = d :: rest ∧ isBlank d = false := by
  obtain ⟨d, rest, rfl⟩ := List.exists_cons_of_ne_nil filled
  exact ⟨d, rest, rfl, isBlank_of_head?_trim (t := d :: rest) (by rw [trimmed]; rfl)⟩

theorem IsNeat.opener (isNeat : IsNeat t) (closed : (Quoting.after {} t).inside = false) :
    IsNeat (Layout.opener t) := by
  by_cases empty : t = []
  · rw [Layout.opener, if_pos empty]
    exact ⟨rfl, isTight_singleton (by decide) (by decide)⟩
  obtain ⟨d, rest, rfl, solid⟩ := exists_cons_of_trimmed isNeat.trimmed empty
  rw [Layout.opener, if_neg empty]
  refine ⟨?_, ?_⟩
  · have split : d :: rest ++ [' ', '{'] = (d :: rest ++ [' ']) ++ ['{'] := by simp
    rw [split, trim_append_solid (by decide), List.cons_append, trimStart_of_not_blank solid]
  · have seen : masked (d :: rest ++ [' ', '{']) = (masked (d :: rest) ++ [' ']) ++ ['{'] := by
      rw [masked_append_mark (exposes_of_closed closed (by decide)) (by decide)]
      exact (List.append_assoc _ [' '] ['{']).symm
    rw [seen]
    exact (isNeat.tight.space (ends_masked isNeat.trimmed)).join isTight_nil (by decide) (by decide)

theorem IsTight.cons_space (tight : IsTight t) (starts : ∀ d ∈ t.head?, isBlank d = false) :
    IsTight (' ' :: t) where
  spaces d member blank := by
    rcases List.mem_cons.mp member with rfl | later
    · rfl
    · exact tight.spaces d later blank
  single twice := by
    rcases List.infix_cons_iff.mp twice with ⟨rest, whole⟩ | later
    · have blank := starts ' ' (by rw [← (List.cons.inj whole).2]; rfl)
      cases blank
    · exact tight.single later
  noSign sign := by
    rcases List.infix_cons_iff.mp sign with ⟨rest, whole⟩ | later
    · cases (List.cons.inj whole).1
    · exact tight.noSign later

theorem IsNeat.closer (isNeat : IsNeat t) (closed : (Quoting.after {} t).inside = false)
    (comma : Bool) : IsNeat (Layout.closer t comma) := by
  have brace : ∀ {back : Text}, masked ('}' :: back) = '}' :: masked back :=
    fun {back} => @masked_append_mark [] _ rfl (by decide) back
  rw [Layout.closer]
  by_cases empty : t = []
  · have alone : IsNeat ['}'] := ⟨rfl, isTight_singleton (by decide) (by decide)⟩
    rw [if_pos empty]
    exact alone.withComma rfl comma
  rw [if_neg empty]
  obtain ⟨d, rest, rfl, solid⟩ := exists_cons_of_trimmed isNeat.trimmed empty
  refine IsNeat.withComma ⟨?_, ?_⟩ ?_ comma
  · have ends := trimEnd_append_mark solid ['}', ' '] rest
    have kept := isNeat.trimmed
    rw [Text.trim, trimStart_of_not_blank solid] at kept
    rw [Text.trim, List.cons_append, trimStart_of_not_blank (by decide)]
    refine ends.trans ?_
    have alone := trimEnd_append_mark solid [] rest
    rw [List.nil_append, kept, List.nil_append] at alone
    rw [← (List.cons.inj alone).2]
    rfl
  · have space : masked (' ' :: d :: rest) = ' ' :: masked (d :: rest) :=
      @masked_append_mark [] _ rfl (by decide) (d :: rest)
    have start : ∀ e ∈ (masked (d :: rest)).head?, isBlank e = false := by
      intro e member
      rw [masked, Quoting.masked_cons, List.head?_cons, Option.mem_def, Option.some.injEq] at member
      rw [← member]
      split
      · exact solid
      · decide
    change IsTight (masked ('}' :: ' ' :: d :: rest))
    rw [brace, space]
    exact (isNeat.tight.cons_space start).cons_of_solid (by decide) (by decide)
  · exact closed

/-! ## Blanks around a text -/

theorem neat_space (t : Text) : neat (' ' :: t) = neat t := by
  have space : isBlankText [' '] = true := by decide
  obtain ⟨gap, blank, grown⟩ := exists_mapCode_blank_append space t
  rw [List.singleton_append] at grown
  rw [neat_eq, neat_eq, grown, trim_append_of_blank blank]

theorem neat_concat_space (t : Text) : neat (t ++ [' ']) = neat t := by
  obtain ⟨tail, edge, grown⟩ := @exists_mapCode_append [' '] (by decide) (by decide) t
  have blank : ∀ d ∈ tail, isBlank d = true := by
    intro d member
    rcases edge d member with inBack | rfl
    · rw [List.mem_singleton.mp inBack]
      decide
    · decide
  rw [neat_eq, neat_eq, grown]
  exact trimEndBy_trimStart_append blank _

theorem memberForm_eq_self (isNeat : IsNeat t) (ends : t.getLast? ≠ some ',') :
    memberForm t = t := by
  rw [memberForm, isNeat.neat]
  refine List.rdropWhile_eq_self_iff.mpr fun filled => ?_
  have solid := ends_of_trimmed isNeat.trimmed (t.getLast filled)
    (List.getLast?_eq_some_getLast filled)
  have noComma : t.getLast filled ≠ ',' := by
    rintro same
    exact ends (by rw [List.getLast?_eq_some_getLast filled, same])
  simp [solid, noComma]

theorem getLast?_filter_solid (ends : ∀ d ∈ t.getLast?, isBlank d = false) :
    (t.filter (!isBlank ·)).getLast? = t.getLast? := by
  rcases List.eq_nil_or_concat t with rfl | ⟨front, last, rfl⟩
  · rfl
  · have solid := ends last (by simp)
    rw [List.concat_eq_append, List.filter_append, List.filter_cons_of_pos (by simp [solid])]
    simp

theorem getLast?_neat (ends : ∀ d ∈ t.getLast?, isBlank d = false) :
    (neat t).getLast? = t.getLast? := by
  obtain ⟨t', same, trimmed⟩ := reblanked_neat t
  have kept : (neat t).filter (!isBlank ·) = t.filter (!isBlank ·) := by
    rw [trimmed, filter_solid_trim, Reblanked.filter_solid same]
  rw [← getLast?_filter_solid ends, ← kept, getLast?_filter_solid]
  rw [neat_eq]
  exact ends_of_trimmed (trim_trim _)

theorem neat_of_memberForm (form : memberForm t = t) : neat t = t ∧ t.getLast? ≠ some ',' := by
  have last : ∀ d ∈ t.getLast?, d ≠ ',' ∧ isBlank d = false := by
    intro d member
    rw [← form] at member
    have filled : memberForm t ≠ [] := by
      intro empty
      rw [empty] at member
      cases member
    have kept := List.rdropWhile_last_not (fun c => c = ',' || isBlank c) (neat t) filled
    rw [List.getLast?_eq_some_getLast filled, Option.mem_def, Option.some.injEq] at member
    change ¬((memberForm t).getLast filled = ',' || isBlank ((memberForm t).getLast filled)) = true
      at kept
    simpa [member] using kept
  refine ⟨?_, fun comma => (last ',' comma).1 rfl⟩
  -- Nothing is dropped behind the neat text, for it ends as the form does.
  have ends := getLast?_neat fun d member => (last d member).2
  have kept : memberForm t = neat t := by
    refine List.rdropWhile_eq_self_iff.mpr fun filled => ?_
    have here := last ((neat t).getLast filled)
      (by rw [← ends, List.getLast?_eq_some_getLast filled]; rfl)
    simp [here.1, here.2]
  rw [← kept, form]

end Text

end AsnLayout
