import AsnLayout.Proofs.Reblanking

/-!
# Neat texts

A text that has been made neat stays as it is when it is made neat again, and so does the form of a
member: the code between the literals settles, and what is dropped at the ends does not come back.
-/

set_option autoImplicit false

namespace AsnLayout

namespace Text

theorem mapCode_opened {x y : Text} (quiet : Quoting.quiet {} x = true)
    (opens : (Quoting.after {} x).escaped = false) (quiet' : Quoting.quiet ⟨false, true⟩ y = true)
    (change : Text → Text) : mapCode change (x ++ '"' :: y) = change x ++ '"' :: y := by
  simp [mapCode, chunks, Quoting.chunks_opening quiet rfl opens, Quoting.chunks_of_quiet quiet',
    Chunk.extend]

theorem mapCode_mapCode {change : Text → Text}
    (keeps : ∀ x, Quoting.quiet {} x = true → KeepsCode {} x (change x))
    (settled : ∀ x, change (change x) = change x) (t : Text) :
    mapCode change (mapCode change t) = mapCode change t := by
  induction t using inStretches with
  | code x quiet =>
    rw [mapCode_of_quiet quiet, mapCode_of_quiet (keeps x quiet).quiet, settled]
  | opened x y quiet opens quiet' =>
    have kept := keeps x quiet
    rw [mapCode_opened quiet opens quiet',
      mapCode_opened kept.quiet (kept.escaped.trans opens) quiet', settled]
  | closed x y rest quiet opens quiet' closes ih =>
    have kept := keeps x quiet
    rw [mapCode_literal quiet opens quiet' closes,
      mapCode_literal kept.quiet (kept.escaped.trans opens) quiet' closes, settled, ih]

/-! ## Blanks and assignment signs of code -/

theorem collapse_cons_blank {b : Char} (blank : isBlank b = true) (t : Text) :
    collapse (b :: t) =
      if (collapse t).head? = some ' ' then collapse t else ' ' :: collapse t := by
  rw [collapse, if_pos blank]
  cases t with
  | nil => rfl
  | cons c rest =>
    cases next : isBlank c with
    | true =>
      obtain ⟨more, found⟩ := collapse_of_blank next rest
      rw [if_pos (by simpa using next), found, List.head?_cons, if_pos rfl]
    | false =>
      have first : (collapse (c :: rest)).head? = some c := by simp [collapse, next]
      rw [if_neg (by simp [next]), if_neg]
      rw [first, Option.some.injEq]
      rintro rfl
      cases next

theorem collapse_cons_solid {c : Char} (solid : isBlank c = false) (t : Text) :
    collapse (c :: t) = c :: collapse t :=
  collapse_append_mark solid [] t

/-- Texts with the same collapse have it behind every character, and behind every blank. -/
theorem collapse_cons_congr {c c' : Char} {t t' : Text} (same : collapse t = collapse t')
    (alike : c = c' ∨ isBlank c = true ∧ isBlank c' = true) :
    collapse (c :: t) = collapse (c' :: t') := by
  cases blank : isBlank c with
  | true =>
    have blank' : isBlank c' = true := by
      rcases alike with rfl | ⟨-, blank'⟩
      · exact blank
      · exact blank'
    rw [collapse_cons_blank blank, collapse_cons_blank blank', same]
  | false =>
    rcases alike with rfl | ⟨blank', -⟩
    · rw [collapse_cons_solid blank, collapse_cons_solid blank, same]
    · cases blank.symm.trans blank'

theorem collapse_cons_cons {b b' : Char} (blank : isBlank b = true) (blank' : isBlank b' = true)
    (t : Text) : collapse (b :: b' :: t) = collapse (b' :: t) := by
  rw [collapse, if_pos blank, if_pos (by simpa using blank')]

/-- A character before a text starts an assignment sign only with the two characters behind it. -/
theorem spaceAssignments_cons {c : Char} {t : Text}
    (other : ∀ rest, c = ':' → t = ':' :: '=' :: rest → False) :
    spaceAssignments (c :: t) = c :: spaceAssignments t :=
  spaceAssignments.eq_3 c t other

theorem spaceAssignments_sign (t : Text) : spaceAssignments (':' :: ':' :: '=' :: t) =
    ' ' :: ':' :: ':' :: '=' :: ' ' :: spaceAssignments t := rfl

theorem spaceAssignments_space (t : Text) :
    spaceAssignments (' ' :: t) = ' ' :: spaceAssignments t :=
  spaceAssignments_cons fun _ colon => nomatch colon

/-- Spacing the signs of a collapsed text makes no other blanks than spacing those of the text. -/
theorem collapse_spaceAssignments_collapse (t : Text) :
    collapse (spaceAssignments (collapse t)) = collapse (spaceAssignments t) := by
  have space : isBlank ' ' = true := by decide
  have colon : isBlank ':' = false := by decide
  have equals : isBlank '=' = false := by decide
  fun_induction spaceAssignments t with
  | case1 => rfl
  | case2 rest ih =>
    rw [collapse_cons_solid colon, collapse_cons_solid colon, collapse_cons_solid equals,
      spaceAssignments_sign]
    exact collapse_cons_congr (collapse_cons_congr (collapse_cons_congr (collapse_cons_congr
      (collapse_cons_congr ih (.inl rfl)) (.inl rfl)) (.inl rfl)) (.inl rfl)) (.inl rfl)
  | case3 c rest other ih =>
    cases blank : isBlank c with
    | true =>
      rw [collapse, if_pos blank]
      split
      · rename_i next
        obtain ⟨b, more, rfl⟩ : ∃ b more, rest = b :: more := by
          cases rest with
          | nil => cases next
          | cons b more => exact ⟨b, more, rfl⟩
        have blank' : isBlank b = true := by simpa using next
        have noSign : ∀ more', b = ':' → more = ':' :: '=' :: more' → False := by
          rintro more' rfl
          cases blank'
        rw [ih, spaceAssignments_cons noSign, collapse_cons_cons blank blank']
      · rw [spaceAssignments_space]
        exact collapse_cons_congr ih (.inr ⟨space, blank⟩)
    | false =>
      rw [collapse_cons_solid blank, spaceAssignments_cons]
      · exact collapse_cons_congr ih (.inl rfl)
      · rintro more rfl sign
        -- The collapsed rest starts with a sign only if the rest does.
        obtain ⟨second, rfl⟩ : ∃ second, rest = ':' :: second :=
          List.head?_eq_some_iff.mp (head?_of_collapse colon (by rw [sign]; rfl))
        rw [collapse_cons_solid colon] at sign
        obtain ⟨third, rfl⟩ : ∃ third, second = '=' :: third :=
          List.head?_eq_some_iff.mp
            (head?_of_collapse equals (by rw [(List.cons.inj sign).2]; rfl))
        exact other third rfl rfl

/-- Spacing the signs of a text makes no sign behind a character that starts none. -/
theorem not_sign_spaceAssignments {c : Char} {t : Text}
    (other : ∀ rest, c = ':' → t = ':' :: '=' :: rest → False) :
    ∀ rest, c = ':' → spaceAssignments t = ':' :: '=' :: rest → False := by
  have colon : isBlank ':' = false := by decide
  have equals : isBlank '=' = false := by decide
  rintro rest rfl sign
  obtain ⟨second, rfl⟩ : ∃ second, t = ':' :: second :=
    List.head?_eq_some_iff.mp (head?_of_spaceAssignments colon (by rw [sign]; rfl))
  rcases spaceAssignments_cases (':' :: second) with ⟨third, whole⟩ | same
  · rw [whole, spaceAssignments_sign] at sign
    cases sign
  · have noSign : ∀ third, (':' : Char) = ':' → second = ':' :: '=' :: third → False := by
      rintro third - rfl
      cases same
    rw [spaceAssignments_cons noSign] at sign
    obtain ⟨third, rfl⟩ : ∃ third, second = '=' :: third :=
      List.head?_eq_some_iff.mp
        (head?_of_spaceAssignments equals (by rw [(List.cons.inj sign).2]; rfl))
    exact other third rfl rfl

/-- Spacing signs twice makes no other blanks than doing so once. -/
theorem collapse_spaceAssignments_twice (t : Text) :
    collapse (spaceAssignments (spaceAssignments t)) = collapse (spaceAssignments t) := by
  have space : isBlank ' ' = true := by decide
  fun_induction spaceAssignments t with
  | case1 => rfl
  | case2 rest ih =>
    rw [spaceAssignments_space, spaceAssignments_sign, spaceAssignments_space,
      collapse_cons_cons space space]
    refine collapse_cons_congr (collapse_cons_congr (collapse_cons_congr (collapse_cons_congr
      ?_ (.inl rfl)) (.inl rfl)) (.inl rfl)) (.inl rfl)
    rw [collapse_cons_cons space space]
    exact collapse_cons_congr ih (.inl rfl)
  | case3 c rest other ih =>
    rw [spaceAssignments_cons (not_sign_spaceAssignments other)]
    exact collapse_cons_congr ih (.inl rfl)

/-- Code whose signs were spaced and whose blanks were collapsed stays as it is. -/
theorem collapse_spaceAssignments_idem (t : Text) :
    collapse (spaceAssignments (collapse (spaceAssignments t))) = collapse (spaceAssignments t) :=
  (collapse_spaceAssignments_collapse _).trans (collapse_spaceAssignments_twice t)

/-! ## The ends of a text -/

def spaced (code : Text) : Text := collapse (spaceAssignments code)

theorem neat_eq (t : Text) : neat t = trim (mapCode spaced t) := rfl

theorem spaced_spaced (code : Text) : spaced (spaced code) = spaced code :=
  collapse_spaceAssignments_idem code

theorem keepsCode_spaced {x : Text} (quiet : Quoting.quiet {} x = true) :
    KeepsCode {} x (spaced x) :=
  keepsCode_neat quiet

theorem mapCode_spaced_twice (t : Text) : mapCode spaced (mapCode spaced t) = mapCode spaced t :=
  mapCode_mapCode (fun _ => keepsCode_spaced) spaced_spaced t

theorem exists_spaced_cons {b : Char} (blank : isBlank b = true) (code : Text) :
    ∃ gap, isBlankText gap = true ∧ spaced (b :: code) = gap ++ spaced code := by
  have noSign : ∀ rest, b = ':' → code = ':' :: '=' :: rest → False := by
    rintro rest rfl
    cases blank
  rw [spaced, spaceAssignments_cons noSign, collapse_cons_blank blank]
  split
  · exact ⟨[], rfl, rfl⟩
  · exact ⟨[' '], by decide, rfl⟩

theorem quiet_append {q : Quoting} {x : Text} {c : Char} (other : c ≠ '"') :
    q.quiet (x ++ [c]) = q.quiet x := by
  induction x generalizing q with
  | nil => simp [Quoting.quiet, Quoting.isQuote, other]
  | cons d rest ih => rw [List.cons_append, Quoting.quiet, ih, Quoting.quiet]

/-- The signs of two texts are spaced apart if the second completes no sign of the first. -/
theorem spaceAssignments_append {back : Text} (second : ¬[':', '='] <+: back)
    (third : ¬['='] <+: back) (front : Text) :
    spaceAssignments (front ++ back) = spaceAssignments front ++ spaceAssignments back := by
  fun_induction spaceAssignments front with
  | case1 => rfl
  | case2 rest ih =>
    rw [List.cons_append, List.cons_append, List.cons_append, spaceAssignments_sign, ih]
    rfl
  | case3 c rest noSign ih =>
    rw [List.cons_append, spaceAssignments_cons, ih]
    · rfl
    · rintro more rfl sign
      rcases List.append_eq_cons_iff.mp sign with ⟨-, starts⟩ | ⟨others, rfl, ends⟩
      · exact second ⟨more, starts.symm⟩
      rcases List.append_eq_cons_iff.mp ends.symm with ⟨-, starts⟩ | ⟨last, rfl, -⟩
      · exact third ⟨more, starts.symm⟩
      · exact noSign last rfl rfl

theorem collapse_append_blank {b : Char} (blank : isBlank b = true) (t : Text) :
    collapse (t ++ [b]) = collapse t ∨ collapse (t ++ [b]) = collapse t ++ [' '] := by
  induction t with
  | nil => exact .inr (by simp [collapse, blank])
  | cons c rest ih =>
    rw [List.cons_append]
    cases first : isBlank c with
    | false =>
      rw [collapse_cons_solid first, collapse_cons_solid first]
      exact ih.imp (congrArg _) (congrArg _)
    | true =>
      rw [collapse_cons_blank first, collapse_cons_blank first]
      rcases ih with same | grown
      · exact .inl (by rw [same])
      rw [grown]
      cases collapse rest with
      | nil => exact .inl rfl
      | cons d more =>
        right
        rw [List.cons_append, List.head?_cons, List.head?_cons]
        split <;> rfl

theorem exists_spaced_append {c : Char} (other : c ≠ '=') (code : Text) :
    ∃ tail, (∀ d ∈ tail, d = c ∨ d = ' ') ∧ spaced (code ++ [c]) = spaced code ++ tail := by
  have alone : spaceAssignments [c] = [c] := spaceAssignments_cons fun _ _ sign => nomatch sign
  rw [spaced, spaceAssignments_append (by simp) (by simp [Ne.symm other]), alone]
  cases blank : isBlank c with
  | true =>
    rcases collapse_append_blank blank (spaceAssignments code) with same | grown
    · exact ⟨[], by simp, by rw [same, List.append_nil]; rfl⟩
    · exact ⟨[' '], by simp, grown⟩
  | false => exact ⟨[c], by simp, collapse_append_mark blank _ []⟩

theorem next_blank {b : Char} (blank : isBlank b = true) : Quoting.next {} b = {} :=
  (next_of_isBlank {} blank).trans (by decide)

theorem exists_mapCode_cons {b : Char} (blank : isBlank b = true) (t : Text) :
    ∃ gap, isBlankText gap = true ∧ mapCode spaced (b :: t) = gap ++ mapCode spaced t := by
  have noQuote : b ≠ '"' := ne_of_isBlank blank (by decide)
  have same := next_blank blank
  have quietly : ∀ {x : Text}, Quoting.quiet {} x = true → Quoting.quiet {} (b :: x) = true :=
    fun quiet => Quoting.quiet_cons.mpr ⟨by simp [Quoting.isQuote, noQuote], by rw [same, quiet]⟩
  have opening : ∀ {x : Text}, (Quoting.after {} x).escaped = false →
      (Quoting.after {} (b :: x)).escaped = false := by
    intro x opens
    rw [Quoting.after_cons, same, opens]
  cases t using casesStretches with
  | code t quiet =>
    rw [mapCode_of_quiet quiet, mapCode_of_quiet (quietly quiet)]
    exact exists_spaced_cons blank t
  | opened x y quiet opens quiet' =>
    obtain ⟨gap, isGap, grown⟩ := exists_spaced_cons blank x
    refine ⟨gap, isGap, ?_⟩
    rw [mapCode_opened quiet opens quiet', ← List.cons_append,
      mapCode_opened (quietly quiet) (opening opens) quiet', grown, List.append_assoc]
  | closed x y rest quiet opens quiet' closes =>
    obtain ⟨gap, isGap, grown⟩ := exists_spaced_cons blank x
    refine ⟨gap, isGap, ?_⟩
    rw [mapCode_literal quiet opens quiet' closes, ← List.cons_append,
      mapCode_literal (quietly quiet) (opening opens) quiet' closes, grown, List.append_assoc]

theorem exists_mapCode_blank_append {front : Text} (blank : isBlankText front = true) (t : Text) :
    ∃ gap, isBlankText gap = true ∧ mapCode spaced (front ++ t) = gap ++ mapCode spaced t := by
  induction front with
  | nil => exact ⟨[], rfl, rfl⟩
  | cons b front ih =>
    simp only [isBlankText, List.all_cons, Bool.and_eq_true] at blank
    obtain ⟨gap, isGap, grown⟩ := ih blank.2
    obtain ⟨gap', isGap', grown'⟩ := exists_mapCode_cons blank.1 (front ++ t)
    refine ⟨gap' ++ gap, ?_, ?_⟩
    · rw [isBlankText, List.all_append, Bool.and_eq_true]
      exact ⟨isGap', isGap⟩
    · rw [List.cons_append, grown', grown, List.append_assoc]

/-- A character behind a text gives itself, a space or nothing behind the neat text. -/
theorem exists_mapCode_snoc {c : Char} (noQuote : c ≠ '"') (noEquals : c ≠ '=') (t : Text) :
    ∃ tail, (∀ d ∈ tail, d = c ∨ d = ' ') ∧
      mapCode spaced (t ++ [c]) = mapCode spaced t ++ tail := by
  induction t using inStretches with
  | code x quiet =>
    rw [mapCode_of_quiet quiet, mapCode_of_quiet (by rw [quiet_append noQuote, quiet])]
    exact exists_spaced_append noEquals x
  | opened x y quiet opens quiet' =>
    refine ⟨[c], by simp, ?_⟩
    rw [mapCode_opened quiet opens quiet', List.append_assoc, List.cons_append,
      mapCode_opened quiet opens (by rw [quiet_append noQuote, quiet']), List.append_assoc,
      List.cons_append]
  | closed x y rest quiet opens quiet' closes ih =>
    obtain ⟨tail, edge, grown⟩ := ih
    refine ⟨tail, edge, ?_⟩
    rw [mapCode_literal quiet opens quiet' closes]
    simp only [List.append_assoc, List.cons_append]
    rw [mapCode_literal quiet opens quiet' closes, grown]

theorem exists_mapCode_append {back : Text} (noQuote : '"' ∉ back) (noEquals : '=' ∉ back)
    (t : Text) : ∃ tail, (∀ d ∈ tail, d ∈ back ∨ d = ' ') ∧
      mapCode spaced (t ++ back) = mapCode spaced t ++ tail := by
  induction back using List.reverseRecOn with
  | nil => exact ⟨[], by simp, by simp⟩
  | append_singleton back c ih =>
    simp only [List.mem_append, List.mem_singleton, not_or] at noQuote noEquals
    obtain ⟨tail, edge, grown⟩ := ih noQuote.1 noEquals.1
    obtain ⟨tail', edge', grown'⟩ :=
      exists_mapCode_snoc (Ne.symm noQuote.2) (Ne.symm noEquals.2) (t ++ back)
    refine ⟨tail ++ tail', fun d member => ?_, ?_⟩
    · rw [List.mem_append, List.mem_singleton]
      rcases List.mem_append.mp member with early | late
      · exact (edge d early).imp .inl id
      · exact (edge' d late).imp .inr id
    · rw [← List.append_assoc, grown', grown, List.append_assoc]

/-! ## Forms that stay -/

def formBy (drop : Char → Bool) (t : Text) : Text :=
  trimEndBy drop (trimStart (mapCode spaced t))

theorem trimEndBy_append_of_dropped {drop : Char → Bool} {tail : Text}
    (dropped : ∀ c ∈ tail, drop c = true) (t : Text) :
    trimEndBy drop (t ++ tail) = trimEndBy drop t := by
  induction tail using List.reverseRecOn with
  | nil => rw [List.append_nil]
  | append_singleton tail c ih =>
    rw [← List.append_assoc, trimEndBy_eq,
      List.rdropWhile_concat_pos _ _ _ (dropped c (by simp)), ← trimEndBy_eq]
    exact ih fun d member => dropped d (List.mem_append_left _ member)

theorem trimEndBy_of_dropped {drop : Char → Bool} {t : Text} (dropped : ∀ c ∈ t, drop c = true) :
    trimEndBy drop t = [] :=
  trimEndBy_append_of_dropped dropped []

theorem trimEndBy_trimStart_append {drop : Char → Bool} {tail : Text}
    (dropped : ∀ c ∈ tail, drop c = true) (t : Text) :
    trimEndBy drop (trimStart (t ++ tail)) = trimEndBy drop (trimStart t) := by
  rw [trimStart, trimStart, trimStartBy, trimStartBy, List.dropWhile_append]
  split
  · rename_i none
    rw [List.isEmpty_iff.mp none]
    exact trimEndBy_of_dropped fun c member => dropped c (List.dropWhile_sublist _ |>.subset member)
  · exact trimEndBy_append_of_dropped dropped _

/-- The form of a text stays as it is, whichever characters are dropped behind it. -/
theorem formBy_formBy {drop : Char → Bool} (blanks : ∀ c, isBlank c = true → drop c = true)
    (noQuote : drop '"' = false) (noEquals : drop '=' = false) (t : Text) :
    formBy drop (formBy drop t) = formBy drop t := by
  obtain ⟨front, blank, start⟩ := exists_blank_trimStart (mapCode spaced t)
  obtain ⟨back, dropped, cut⟩ : ∃ back, (∀ c ∈ back, drop c = true) ∧
      trimStart (mapCode spaced t) = formBy drop t ++ back :=
    ⟨_, fun c member => List.mem_rtakeWhile_imp member,
      (List.rdropWhile_append_rtakeWhile ..).symm⟩
  have absent : ∀ c, drop c = false → c ∉ back := by
    intro c keeps member
    rw [dropped c member] at keeps
    cases keeps
  obtain ⟨gap, isGap, before⟩ := exists_mapCode_blank_append blank (formBy drop t ++ back)
  obtain ⟨tail, edge, behind⟩ :=
    exists_mapCode_append (absent _ noQuote) (absent _ noEquals) (formBy drop t)
  have edge : ∀ c ∈ tail, drop c = true := by
    intro c member
    rcases edge c member with inBack | rfl
    · exact dropped c inBack
    · exact blanks ' ' (by decide)
  -- The neat text is its own, so it is the form with blanks before it and dropped ones behind it.
  have whole : mapCode spaced t = gap ++ (mapCode spaced (formBy drop t) ++ tail) := by
    rw [← behind, ← before, ← cut, ← start, mapCode_spaced_twice]
  calc formBy drop (formBy drop t)
      = trimEndBy drop (trimStart (mapCode spaced (formBy drop t) ++ tail)) :=
        (trimEndBy_trimStart_append edge _).symm
    _ = trimEndBy drop (trimStart (gap ++ (mapCode spaced (formBy drop t) ++ tail))) := by
        rw [trimStart_of_blank isGap]
    _ = formBy drop t := by rw [← whole]; rfl

theorem neat_neat (t : Text) : neat (neat t) = neat t :=
  formBy_formBy (fun _ blank => blank) (by decide) (by decide) t

def endsNoMember (c : Char) : Bool := c = ',' || isBlank c

theorem memberForm_eq (t : Text) : memberForm t = formBy endsNoMember t := by
  obtain ⟨blank, isBlank, cut⟩ := exists_blank_trimEnd (trimStart (mapCode spaced t))
  rw [formBy, cut, trimEndBy_append_of_dropped fun c member => ?_]
  · rfl
  · rw [endsNoMember, Bool.or_eq_true]
    exact .inr (List.all_eq_true.mp isBlank c member)

theorem memberForm_memberForm (t : Text) : memberForm (memberForm t) = memberForm t := by
  rw [memberForm_eq, memberForm_eq]
  refine formBy_formBy (fun c blank => ?_) (by decide) (by decide) t
  rw [endsNoMember, blank, Bool.or_true]

/-- A text made neat stays as it is when it is made neat again, and so does the form of a member. -/
theorem spelling_settles (t : Text) :
    neat (neat t) = neat t ∧ memberForm (memberForm t) = memberForm t :=
  ⟨neat_neat t, memberForm_memberForm t⟩

/-- Signs next to each other, an escaped quote, and commas behind a literal that is left open. -/
example : memberForm "\t::=::= \\\" a::=\"b  ::=, ,\n".toList = "::= ::= \\\" a ::= \"b  ::=".toList := by
  decide +kernel

end Text

end AsnLayout
