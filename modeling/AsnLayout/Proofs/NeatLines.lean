import AsnLayout.Proofs.Masks

/-!
# Neat lines

A neat line is cut into its code and its comment where the line it was made of is: no comment starts
in the neat code.  Its code ends with a word where the code of the line does.
-/

set_option autoImplicit false

namespace AsnLayout

/-! ## Lines with comments -/

namespace Text

theorem inside_after_mapCode (t : Text) :
    (Quoting.after {} (mapCode spaced t)).inside = (Quoting.after {} t).inside := by
  induction t using inStretches with
  | code x quiet =>
    rw [mapCode_of_quiet quiet, Quoting.inside_after_of_quiet quiet,
      Quoting.inside_after_of_quiet (keepsCode_spaced quiet).quiet]
  | opened x y quiet opens quiet' =>
    have kept := keepsCode_spaced quiet
    rw [mapCode_opened quiet opens quiet', Quoting.after_append, Quoting.after_append,
      Quoting.after_cons, Quoting.after_cons, after_opening quiet opens,
      after_opening kept.quiet (kept.escaped.trans opens)]
  | closed x y rest quiet opens quiet' closes ih =>
    have kept := keepsCode_spaced quiet
    rw [mapCode_literal quiet opens quiet' closes, after_literal quiet opens quiet' closes,
      after_literal kept.quiet (kept.escaped.trans opens) quiet' closes, ih]

theorem inside_after_trimEnd (t : Text) :
    (Quoting.after {} (trimEnd t)).inside = (Quoting.after {} t).inside := by
  obtain ⟨blank, isBlank, cut⟩ := exists_blank_trimEnd t
  have noQuote : '"' ∉ blank := fun member => nomatch List.all_eq_true.mp isBlank '"' member
  conv_rhs => rw [cut, Quoting.after_append, Quoting.inside_after noQuote]

theorem after_trimStart (t : Text) : Quoting.after {} (trimStart t) = Quoting.after {} t := by
  obtain ⟨front, blank, cut⟩ := exists_blank_trimStart t
  conv_rhs => rw [cut, Quoting.after_append, after_of_isBlankText blank]

theorem inside_after_neat (t : Text) :
    (Quoting.after {} (neat t)).inside = (Quoting.after {} t).inside := by
  rw [neat_eq, trim, inside_after_trimEnd, after_trimStart, inside_after_mapCode]

theorem commentIndex?_trimEnd {t : Text} (free : Quoting.commentIndex? {} t = none) :
    Quoting.commentIndex? {} (trimEnd t) = none := by
  obtain ⟨blank, -, cut⟩ := exists_blank_trimEnd t
  rw [cut, Quoting.commentIndex?_eq_none_iff, Quoting.masked_append] at free
  rw [Quoting.commentIndex?_eq_none_iff]
  exact fun sign => free (sign.trans (List.prefix_append ..).isInfix)

/-- No comment starts in a neat text if none starts in the text it was made of. -/
theorem commentIndex?_neat {t : Text} (free : Quoting.commentIndex? {} t = none) :
    Quoting.commentIndex? {} (neat t) = none := by
  have solid : ∀ c ∈ ['-', '-'], isBlank c = false :=
    List.forall_mem_cons.mpr ⟨by decide, List.forall_mem_singleton.mpr (by decide)⟩
  rw [Quoting.commentIndex?_eq_none_iff] at free ⊢
  exact fun sign => free ((reblanked_spaced _).holds_before solid
    (sign.trans (masked_neat_isInfix t)))

theorem trimEnd_trim (t : Text) : trimEnd (trim t) = trim t :=
  List.rdropWhile_idempotent isBlank _

theorem codeLine_beside {code rest : Text} (free : Quoting.commentIndex? {} code = none)
    (closed : (Quoting.after {} code).inside = false) (trimmed : trimEnd code = code) :
    codeLine (beside code (some ('-' :: '-' :: rest))) =
      ⟨code, some (trim ('-' :: '-' :: rest))⟩ := by
  by_cases empty : code = []
  · subst empty
    rfl
  · have found := Quoting.commentIndex?_behind free closed rest
    have cut : code ++ ' ' :: '-' :: '-' :: rest = (code ++ [' ']) ++ '-' :: '-' :: rest := by simp
    rw [beside, if_neg (List.cons_ne_nil _ _), if_neg empty, codeLine, found, cut]
    simp only [show code.length + 1 = (code ++ [' ']).length by simp, List.take_left,
      List.drop_left]
    rw [show trimEnd (code ++ [' ']) = trimEnd code from
      trimEndBy_append_of_dropped (List.forall_mem_singleton.mpr (by decide)) code, trimmed]

theorem codeLine_of_commentIndex? {t : Text} (free : Quoting.commentIndex? {} t = none) :
    codeLine t = ⟨t, none⟩ := by
  rw [codeLine, free]

theorem exists_codeLine {line : Text} {index : Nat}
    (found : Quoting.commentIndex? {} line = some index) :
    ∃ front rest, codeLine line = ⟨trimEnd front, some ('-' :: '-' :: trimEnd rest)⟩ ∧
      Quoting.commentIndex? {} front = none ∧ (Quoting.after {} front).inside = false := by
  obtain ⟨front, rest, cut, length, free, closed⟩ := Quoting.exists_of_commentIndex? found
  have solid : isBlank '-' = false := by decide
  have sign : trim ('-' :: '-' :: rest) = '-' :: '-' :: trimEnd rest := by
    rw [trim, trimStart_of_not_blank solid]
    exact trimEnd_append_mark solid ['-'] rest
  refine ⟨front, rest, ?_, free, closed⟩
  rw [codeLine, found, ← sign]
  simp only [cut, ← length, List.take_left, List.drop_left]

theorem commentIndex?_code (line : Text) : Quoting.commentIndex? {} (codeLine line).code = none := by
  cases found : Quoting.commentIndex? {} line with
  | none =>
    rw [codeLine_of_commentIndex? found]
    exact found
  | some index =>
    obtain ⟨front, rest, parts, free, -⟩ := exists_codeLine found
    rw [parts]
    exact commentIndex?_trimEnd free

theorem prefix_comment {line comment : Text} (behind : (codeLine line).comment = some comment) :
    ['-', '-'] <+: comment := by
  cases found : Quoting.commentIndex? {} line with
  | none =>
    rw [codeLine_of_commentIndex? found] at behind
    cases behind
  | some index =>
    obtain ⟨front, rest, parts, -, -⟩ := exists_codeLine found
    rw [parts] at behind
    cases behind
    exact ⟨_, rfl⟩

theorem codeLine_neatLine (line : Text) :
    codeLine (neatLine line) = ⟨neat (codeLine line).code, (codeLine line).comment⟩ := by
  cases found : Quoting.commentIndex? {} line with
  | none =>
    rw [neatLine, codeLine_of_commentIndex? found, beside,
      codeLine_of_commentIndex? (commentIndex?_neat found)]
  | some index =>
    obtain ⟨front, rest, parts, free, closed⟩ := exists_codeLine found
    have closed' : (Quoting.after {} (neat (trimEnd front))).inside = false := by
      rw [inside_after_neat, inside_after_trimEnd, closed]
    have sign : trim ('-' :: '-' :: trimEnd rest) = '-' :: '-' :: trimEnd rest := by
      have solid : isBlank '-' = false := by decide
      rw [trim, trimStart_of_not_blank solid]
      exact (trimEnd_append_mark solid ['-'] _).trans
        (congrArg (['-'] ++ '-' :: ·) (List.rdropWhile_idempotent isBlank rest))
    rw [neatLine, parts, codeLine_beside (commentIndex?_neat (commentIndex?_trimEnd free)) closed'
      (trimEnd_trim _), sign]

theorem trimEnd_codeLine (line : Text) :
    trimEnd (codeLine (trim line)).code = (codeLine (trim line)).code := by
  cases found : Quoting.commentIndex? {} (trim line) with
  | none => rw [codeLine_of_commentIndex? found, trimEnd_trim]
  | some index =>
    obtain ⟨front, rest, parts, -, -⟩ := exists_codeLine found
    rw [parts]
    exact List.rdropWhile_idempotent isBlank front

theorem neatLine_neatLine (line : Text) : neatLine (neatLine line) = neatLine line := by
  rw [neatLine, codeLine_neatLine, neat_neat]
  rfl

/-- A neat line is cut where the line was: into the code of the line, made neat, and its comment.
The comment starts with two hyphens, and outside of the literals of the code there are none. -/
theorem codeLine_settles (line : Text) :
    codeLine (neatLine line) = ⟨neat (codeLine line).code, (codeLine line).comment⟩ ∧
    neatLine (neatLine line) = neatLine line ∧
    (∀ comment, (codeLine line).comment = some comment → ['-', '-'] <+: comment) ∧
    ¬['-', '-'] <:+: masked (codeLine line).code ∧
    codeLine (codeLine line).code = ⟨(codeLine line).code, none⟩ := by
  have free := commentIndex?_code line
  exact ⟨codeLine_neatLine line, neatLine_neatLine line, fun _ => prefix_comment,
    (Quoting.commentIndex?_eq_none_iff {} _).mp free, codeLine_of_commentIndex? free⟩

/-- Hyphens in a literal, behind an escaped quote, on their own and in a run. -/
theorem codeLine_settles_of_hyphens :
    let line : Text := "\"--\\\"  --\"::=-\t - \\\"-\"\"-  --- \"b\t".toList
    (codeLine line).comment = some "--- \"b".toList ∧ ['-', '-'] <+: "--- \"b".toList ∧
      codeLine (neatLine line) =
        ⟨"\"--\\\"  --\" ::= - - \\\"-\"\"-".toList, some "--- \"b".toList⟩ := by
  intro line
  have parts : codeLine line =
      ⟨"\"--\\\"  --\"::=-\t - \\\"-\"\"-".toList, some "--- \"b".toList⟩ := by decide +kernel
  obtain ⟨cut, -, sign, -⟩ := codeLine_settles line
  refine ⟨by rw [parts], sign _ (by rw [parts]), cut.trans ?_⟩
  rw [parts]
  decide +kernel

/-! ## Words that neat texts end with -/

namespace Reblanked

variable {loose : Bool} {t t' word : Text}

theorem filter_solid (same : Reblanked loose t t') :
    t'.filter (!isBlank ·) = t.filter (!isBlank ·) := by
  have space : isBlank ' ' = true := by decide
  induction same with
  | nil => rfl
  | keep c later ih => rw [List.filter_cons, List.filter_cons, ih]
  | blank isBlank later ih => simp [space, isBlank, ih]
  | drop isBlank isBlank' later ih => simpa [isBlank] using ih
  | before isLoose mark later ih => simpa [space] using ih
  | behind isLoose mark later ih => simp [space, isBlank_of_mem_sign mark, ih]

/-- A text that ends with no blank has the last character that is not blank with other blanks. -/
theorem exists_append_last {c : Char} (same : Reblanked loose t t')
    (trimmed : trimEnd t = t) (last : [c] <:+ t'.filter (!isBlank ·)) : ∃ s, t = s ++ [c] := by
  rw [same.filter_solid] at last
  rcases List.eq_nil_or_concat t with rfl | ⟨s, d, rfl⟩
  · cases List.eq_nil_of_suffix_nil last
  · rw [List.concat_eq_append] at trimmed last ⊢
    have seen : isBlank d = false := by
      simpa using List.rdropWhile_eq_self_iff.mp trimmed (by simp)
    rw [List.filter_append, show [d].filter (!isBlank ·) = [d] by simp [seen]] at last
    obtain ⟨front, whole⟩ := last
    exact ⟨s, by rw [(List.append_singleton_inj.mp whole).2]⟩

/-- The last word of a text that ends with a character of words stays the last with other blanks. -/
theorem ends_before {s : Text} {c : Char} (same : Reblanked loose (s ++ [c]) t')
    (joins : joinsWord c = true) (joined : isJoined word = true) (ends : word <:+ t') :
    word <:+ s ++ [c] := by
  -- The longest word at the end stays, and what stands before it ends with no character of words.
  have cut : s ++ [c] = s.rdropWhile joinsWord ++ (s.rtakeWhile joinsWord ++ [c]) := by
    rw [← List.append_assoc, List.rdropWhile_append_rtakeWhile]
  have longest : isJoined (s.rtakeWhile joinsWord ++ [c]) = true := by
    rw [isJoined, List.all_append, Bool.and_eq_true]
    exact ⟨List.all_eq_true.mpr fun d member => List.mem_rtakeWhile_imp member, by simp [joins]⟩
  have apart : (s.rdropWhile joinsWord).getLast?.any joinsWord = false := by
    rcases List.eq_nil_or_concat (s.rdropWhile joinsWord) with none | ⟨front, d, last⟩
    · rw [none]
      rfl
    · have breaks := List.rdropWhile_last_not joinsWord s (by simp [last])
      simpa [last] using breaks
  rw [cut] at same ⊢
  obtain ⟨front, rfl, before⟩ := same.exists_append_word longest (by simp)
  rw [← before.getLast?_joins] at apart
  rcases List.suffix_or_suffix_of_suffix ends (List.suffix_append front _) with short | ⟨more, long⟩
  · exact short.trans (List.suffix_append _ _)
  rcases List.eq_nil_or_concat more with rfl | ⟨more, d, rfl⟩
  · rw [← long]
    exact List.suffix_append _ _
  · -- A longer word would end what stands before the longest one.
    rw [List.concat_eq_append] at long
    rw [← long, List.suffix_append_self_iff] at ends
    obtain ⟨rest, rfl⟩ := ends
    have joins' : joinsWord d = true := by
      rw [← long] at joined
      exact List.all_eq_true.mp joined d (by simp)
    rw [← List.append_assoc, List.getLast?_append] at apart
    simp [joins'] at apart

end Reblanked

theorem filter_solid_of_blank {t : Text} (blank : isBlankText t = true) :
    t.filter (!isBlank ·) = [] := by
  rw [List.filter_eq_nil_iff]
  intro c member
  simp [List.all_eq_true.mp blank c member]

theorem filter_solid_trim (t : Text) : (trim t).filter (!isBlank ·) = t.filter (!isBlank ·) := by
  obtain ⟨front, blank, start⟩ := exists_blank_trimStart t
  obtain ⟨back, blank', stop⟩ := exists_blank_trimEnd (trimStart t)
  conv_rhs => rw [start, List.filter_append, filter_solid_of_blank blank, List.nil_append, stop,
    List.filter_append, filter_solid_of_blank blank', List.append_nil]
  rfl

theorem trim_append_solid {c : Char} (solid : isBlank c = false) (t : Text) :
    trim (t ++ [c]) = trimStart t ++ [c] := by
  rw [trim, trimStart_append_mark solid, trimEnd_append_mark solid]
  rfl

theorem isBlank_of_joinsWord {c : Char} (joins : joinsWord c = true) : isBlank c = false := by
  rw [Bool.eq_false_iff]
  intro blank
  rw [joinsWord_of_isBlank blank] at joins
  cases joins

theorem suffix_trimStart_append {word : Text} (joined : isJoined word = true) (front : Text) :
    word <:+ trimStart (front ++ word) := by
  have kept : word.dropWhile isBlank = word := by
    cases word with
    | nil => rfl
    | cons c word =>
      exact trimStart_of_not_blank (isBlank_of_joinsWord (isJoined_cons.mp joined).1) word
  rw [trimStart, trimStartBy, List.dropWhile_append]
  split
  · rw [kept]
  · exact List.suffix_append _ _

theorem endsWith_neat {t word : Text} (joined : isJoined word = true) (filled : word ≠ [])
    (trimmed : trimEnd t = t) : endsWith (neat t) word = endsWith t word := by
  have same : Reblanked true t (mapCode spaced t) := reblanked_mapCode reblanked_spaced t
  obtain ⟨early, c, rfl⟩ := List.eq_nil_or_concat word |>.resolve_left filled
  rw [List.concat_eq_append] at joined ⊢
  have joins : joinsWord c = true := List.all_eq_true.mp joined c (by simp)
  have solid := isBlank_of_joinsWord joins
  have last : [c] <:+ early ++ [c] := List.suffix_append early [c]
  rw [Bool.eq_iff_iff, endsWith, endsWith, List.isSuffixOf_iff_suffix, List.isSuffixOf_iff_suffix]
  constructor
  · intro ends
    have kept := (last.trans ends).filter (!isBlank ·)
    rw [neat_eq, filter_solid_trim, show [c].filter (!isBlank ·) = [c] by simp [solid]] at kept
    obtain ⟨s, rfl⟩ := same.exists_append_last trimmed kept
    have alone : isJoined [c] = true := by simp [isJoined, joins]
    obtain ⟨front, whole, -⟩ := same.exists_append_word alone (List.cons_ne_nil _ _)
    refine same.ends_before joins joined ?_
    rw [neat_eq, whole, trim_append_solid solid] at ends
    rw [whole]
    exact ends.trans ((List.suffix_append_self_iff).mpr (List.dropWhile_suffix _))
  · rintro ⟨front, rfl⟩
    obtain ⟨front', whole, -⟩ := same.exists_append_word joined (by simp)
    rw [isJoined, List.all_append, Bool.and_eq_true] at joined
    rw [neat_eq, whole, ← List.append_assoc, trim_append_solid solid]
    exact List.suffix_append_self_iff.mpr (suffix_trimStart_append joined.1 front')

/-! ## Parts of neat texts -/

theorem quiet_append_append (q : Quoting) (front back : Text) :
    q.quiet (front ++ back) = (q.quiet front && (q.after front).quiet back) := by
  induction front generalizing q with
  | nil => rfl
  | cons c rest ih =>
    rw [List.cons_append, Quoting.quiet, ih, Quoting.quiet, Quoting.after_cons, Bool.and_assoc]

/-- Before and behind a mark of code the code is spaced on its own. -/
theorem mapCode_append_mark {c : Char} {front back : Text}
    (shown : (Quoting.after {} front).exposes c = true)
    (solid : isBlank c = false) (noSign : c ∉ assignmentSign) (plain : c ≠ '\\') :
    mapCode spaced (front ++ c :: back) = mapCode spaced front ++ c :: mapCode spaced back := by
  have quietly : ∀ {x y : Text}, Quoting.quiet {} x = true → (Quoting.after {} x).exposes c = true →
      Quoting.quiet {} y = true → Quoting.quiet {} (x ++ c :: y) = true := by
    intro x y quiet shown quiet'
    have noQuote : (Quoting.after {} x).isQuote c = false := by
      simp only [Quoting.exposes, Bool.and_eq_true, Bool.not_eq_true'] at shown
      exact shown.1
    rw [quiet_append_append, quiet, Bool.true_and, Quoting.quiet, noQuote,
      Quoting.next_of_exposes shown plain, quiet']
    rfl
  induction front using inStretches with
  | code x quiet =>
    have next := Quoting.next_of_exposes shown plain
    have escaped : ∀ y : Text, Quoting.after {} (x ++ c :: y) = Quoting.after {} y := by
      intro y
      rw [Quoting.after_append, Quoting.after_cons, next]
    cases back using casesStretches with
    | code y quiet' =>
      rw [mapCode_of_quiet quiet, mapCode_of_quiet quiet',
        mapCode_of_quiet (quietly quiet shown quiet'), spaced_append_mark solid noSign]
    | opened y z quiet' opens quiet'' =>
      have whole : x ++ c :: (y ++ '"' :: z) = (x ++ c :: y) ++ '"' :: z := by simp
      rw [whole, mapCode_opened (quietly quiet shown quiet') ((escaped y).symm ▸ opens) quiet'',
        mapCode_opened quiet' opens quiet'', mapCode_of_quiet quiet,
        spaced_append_mark solid noSign]
      simp
    | closed y z rest quiet' opens quiet'' closes =>
      have whole : x ++ c :: (y ++ '"' :: (z ++ '"' :: rest)) =
          (x ++ c :: y) ++ '"' :: (z ++ '"' :: rest) := by simp
      rw [whole,
        mapCode_literal (quietly quiet shown quiet') ((escaped y).symm ▸ opens) quiet'' closes,
        mapCode_literal quiet' opens quiet'' closes, mapCode_of_quiet quiet,
        spaced_append_mark solid noSign]
      simp
  | opened x y quiet opens quiet' =>
    have inside : (Quoting.after {} (x ++ '"' :: y)).inside = true := by
      rw [Quoting.after_append, Quoting.after_cons, after_opening quiet opens,
        Quoting.inside_after_of_quiet quiet']
    simp [Quoting.exposes, inside] at shown
  | closed x y rest quiet opens quiet' closes ih =>
    rw [after_literal quiet opens quiet' closes] at shown
    have whole : x ++ '"' :: (y ++ '"' :: rest) ++ c :: back =
        x ++ '"' :: (y ++ '"' :: (rest ++ c :: back)) := by simp
    rw [whole, mapCode_literal quiet opens quiet' closes, mapCode_literal quiet opens quiet' closes,
      ih shown]
    simp

theorem neat_trimStart (t : Text) : neat (trimStart t) = neat t := by
  obtain ⟨front, blank, cut⟩ := exists_blank_trimStart t
  obtain ⟨gap, isGap, grown⟩ := exists_mapCode_blank_append blank (trimStart t)
  rw [← cut] at grown
  rw [neat_eq t, grown, trim_append_of_blank isGap, ← neat_eq]

/-- The first brace of a text is the first brace of the neat text, and the texts before it are the same
when they are neat. -/
theorem exists_neat_brace {front back : Text}
    (opens : findExposed? (front ++ '{' :: back) (· = '{') = some front.length) :
    ∃ front' back', neat (front ++ '{' :: back) = front' ++ '{' :: back' ∧
      findExposed? (front' ++ '{' :: back') (· = '{') = some front'.length ∧
      neat front' = neat front := by
  obtain ⟨shown, absent⟩ := findExposed?_brace_eq_some.mp opens
  have closed : (Quoting.after {} front).inside = false := by
    simp only [Quoting.exposes, Bool.and_eq_true, Bool.not_eq_true'] at shown
    exact shown.2
  refine ⟨trimStart (mapCode spaced front), trimEnd (mapCode spaced back), ?_, ?_, ?_⟩
  · rw [neat_eq, mapCode_append_mark shown (by decide) (by decide) (by decide), trim,
      trimStart_append_mark (by decide)]
    exact trimEnd_append_mark (by decide) _ _
  · refine findExposed?_brace_eq_some.mpr ⟨?_, ?_⟩
    · have closed' : (Quoting.after {} (trimStart (mapCode spaced front))).inside = false := by
        rw [after_trimStart, inside_after_mapCode, closed]
      simp [Quoting.exposes, Quoting.isQuote, closed']
    · rwa [brackets_trimStart, ← brackets_trim, ← neat_eq, brackets_neat]
  · rw [neat_trimStart, neat_eq, mapCode_spaced_twice, ← neat_eq]

end Text

end AsnLayout
