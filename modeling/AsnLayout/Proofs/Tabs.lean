import AsnLayout.Proofs.Cuts
import AsnLayout.Proofs.Reading
import AsnLayout.Source

/-!
# Tabs that become spaces

A line whose tabs have become spaces is read as the line was: tabs and spaces are blanks, so
comments start, words end and literals open and close where they did.
-/

set_option autoImplicit false

namespace AsnLayout

namespace Text

/-- A text in which each tab has become one or more spaces. -/
inductive Respaced : Text → Text → Prop where
  | nil : Respaced [] []
  | keep {c : Char} {t t' : Text} (other : c ≠ '\t') (later : Respaced t t') :
      Respaced (c :: t) (c :: t')
  | tab {t t' : Text} (later : Respaced t t') : Respaced ('\t' :: t) (' ' :: t')
  | more {t t' : Text} (later : Respaced ('\t' :: t) t') : Respaced ('\t' :: t) (' ' :: t')

def isSolid (word : Text) : Bool := word.all (!isBlank ·)

theorem isSolid_cons {c : Char} {word : Text} :
    isSolid (c :: word) = true ↔ isBlank c = false ∧ isSolid word = true := by
  rw [isSolid, List.all_cons, Bool.and_eq_true, Bool.not_eq_true']
  rfl

theorem isSolid_reverse (word : Text) : isSolid word.reverse = isSolid word := List.all_reverse

namespace Respaced

variable {t t' u u' : Text}

theorem tabs (later : Respaced t t') (count : Nat) :
    Respaced ('\t' :: t) (List.replicate (count + 1) ' ' ++ t') := by
  induction count with
  | zero => exact .tab later
  | succ count ih => exact .more ih

theorem of_tabsToSpaces {width : Nat} (positive : 0 < width) (column : Nat) (t : Text) :
    Respaced t (tabsToSpaces width column t) := by
  induction t generalizing column with
  | nil => exact .nil
  | cons c rest ih =>
    rw [tabsToSpaces]
    split
    · rename_i isTab
      subst isTab
      simp only [if_neg (Nat.ne_of_gt positive)]
      have stop := Nat.mod_lt column positive
      obtain ⟨count, gap⟩ : ∃ count, width - column % width = count + 1 :=
        ⟨width - column % width - 1, by omega⟩
      rw [gap]
      exact tabs (ih _) count
    · rename_i other
      exact .keep other (ih _)

theorem eq_of_not_mem (same : Respaced t t') (absent : '\t' ∉ t) : t' = t := by
  induction same with
  | nil => rfl
  | keep other later ih => rw [ih fun member => absent (List.mem_cons_of_mem _ member)]
  | tab later ih => exact absurd (List.mem_cons_self ..) absent
  | more later ih => exact absurd (List.mem_cons_self ..) absent

theorem length_le (same : Respaced t t') : t.length ≤ t'.length := by
  induction same with
  | nil => exact Nat.le_refl _
  | keep other later ih => exact Nat.succ_le_succ ih
  | tab later ih => exact Nat.succ_le_succ ih
  | more later ih => exact Nat.le_succ_of_le ih

theorem append (same : Respaced t t') (same' : Respaced u u') : Respaced (t ++ u) (t' ++ u') := by
  induction same with
  | nil => exact same'
  | keep other later ih => exact .keep other ih
  | tab later ih => exact .tab ih
  | more later ih => exact .more ih

theorem space_behind (same : Respaced (t ++ ['\t']) t') : Respaced (t ++ ['\t']) (t' ++ [' ']) := by
  generalize whole : t ++ ['\t'] = s at same
  induction same generalizing t with
  | nil => simp at whole
  | keep other later ih =>
    cases t with
    | nil => exact absurd (List.cons.inj whole).1.symm other
    | cons d t => exact .keep other (ih (List.cons.inj whole).2)
  | tab later ih =>
    cases t with
    | nil =>
      cases (List.cons.inj whole).2
      cases later
      exact .more (.tab .nil)
    | cons d t => exact .tab (ih (List.cons.inj whole).2)
  | more later ih => exact .more (ih whole)

theorem reverse (same : Respaced t t') : Respaced t.reverse t'.reverse := by
  induction same with
  | nil => exact .nil
  | keep other later ih =>
    rw [List.reverse_cons, List.reverse_cons]
    exact ih.append (.keep other .nil)
  | tab later ih =>
    rw [List.reverse_cons, List.reverse_cons]
    exact ih.append (.tab .nil)
  | more later ih =>
    rw [List.reverse_cons] at ih ⊢
    rw [List.reverse_cons]
    exact ih.space_behind

/-! ## Trimming -/

theorem trimStart (same : Respaced t t') : Respaced (Text.trimStart t) (Text.trimStart t') := by
  have blankTab : isBlank '\t' = true := by decide
  have blankSpace : isBlank ' ' = true := by decide
  simp only [Text.trimStart, trimStartBy]
  induction same with
  | nil => exact .nil
  | @keep c t t' other later ih =>
    cases blank : isBlank c with
    | true => simpa [List.dropWhile_cons, blank] using ih
    | false => simpa [List.dropWhile_cons, blank] using Respaced.keep other later
  | tab later ih => simpa [List.dropWhile_cons, blankTab, blankSpace] using ih
  | more later ih => simpa [List.dropWhile_cons, blankTab, blankSpace] using ih

theorem trimEnd (same : Respaced t t') : Respaced (Text.trimEnd t) (Text.trimEnd t') :=
  same.reverse.trimStart.reverse

theorem trim (same : Respaced t t') : Respaced (Text.trim t) (Text.trim t') :=
  same.trimStart.trimEnd

/-! ## Words at their place -/

variable {word : Text}

theorem startsWith (same : Respaced t t') (solid : isSolid word = true) :
    Text.startsWith t' word = Text.startsWith t word ∧
      (Text.startsWith t word = true → Respaced (t.drop word.length) (t'.drop word.length)) := by
  induction word generalizing t t' with
  | nil => exact ⟨by simp [Text.startsWith], fun _ => same⟩
  | cons d word ih =>
    obtain ⟨mark, solid⟩ := isSolid_cons.mp solid
    have noTab : (d == '\t') = false :=
      beq_eq_false_iff_ne.mpr (ne_of_isBlank (by decide) mark).symm
    have noSpace : (d == ' ') = false :=
      beq_eq_false_iff_ne.mpr (ne_of_isBlank (by decide) mark).symm
    simp only [Text.startsWith] at ih ⊢
    cases same with
    | nil => exact ⟨rfl, fun starts => by simp at starts⟩
    | @keep c t t' other later =>
      obtain ⟨starts, rest⟩ := ih later solid
      refine ⟨by simp [List.isPrefixOf, starts], ?_⟩
      intro both
      exact rest (Bool.and_eq_true_iff.mp both).2
    | tab later => simp [List.isPrefixOf, noTab, noSpace]
    | more later => simp [List.isPrefixOf, noTab, noSpace]

theorem endsWith (same : Respaced t t') (solid : isSolid word = true) :
    Text.endsWith t' word = Text.endsWith t word :=
  (same.reverse.startsWith ((isSolid_reverse word).trans solid)).1

/-! ## Comment lines -/

theorem isLineComment (same : Respaced t t') : Text.isLineComment t' = Text.isLineComment t :=
  (same.trim.startsWith (by decide)).1

theorem startsBlock (same : Respaced t t') : Text.startsBlock t' = Text.startsBlock t :=
  (same.trim.startsWith (by decide)).1

theorem endsBlock (same : Respaced t t') : Text.endsBlock t' = Text.endsBlock t :=
  same.trim.endsWith (by decide)

theorem isRemark (same : Respaced t t') (inBlock : Bool) :
    Reader.isRemark inBlock t' = Reader.isRemark inBlock t := by
  rw [Reader.isRemark, Reader.isRemark, same.isLineComment, same.startsBlock]

/-- A text that starts and ends with the signs of a block comment and is too short for both has no
tab. -/
theorem long_iff (same : Respaced t t') (starts : Text.startsWith t ['-', '*'] = true)
    (ends : Text.endsWith t ['*', '-'] = true) : 4 ≤ t'.length ↔ 4 ≤ t.length := by
  refine ⟨?_, fun long => Nat.le_trans long same.length_le⟩
  intro long
  by_contra short
  obtain ⟨rest, rfl⟩ := List.isPrefixOf_iff_prefix.mp starts
  obtain ⟨front, tail⟩ := List.isSuffixOf_iff_suffix.mp ends
  have absent : '\t' ∉ ['-', '*'] ++ rest := by
    match rest, short, tail with
    | [], _, _ => decide
    | [c], _, tail =>
      have last := congrArg List.getLast? tail
      rw [List.getLast?_append, List.getLast?_append] at last
      have isHyphen : '-' = c := by simpa using last
      rw [← isHyphen]
      decide
    | _ :: _ :: _, short, _ => simp at short
  rw [same.eq_of_not_mem absent] at long
  exact short long

theorem leavesBlockOpen (same : Respaced t t') :
    Text.leavesBlockOpen t' = Text.leavesBlockOpen t := by
  have starts := same.startsBlock
  have ends := same.endsBlock
  unfold Text.leavesBlockOpen
  rw [starts, ends]
  cases start : Text.startsBlock t with
  | false => rfl
  | true =>
    cases tail : Text.endsBlock t with
    | false => simp
    | true => simp [same.trim.long_iff start tail]

theorem blockAfter (same : Respaced t t') (inBlock : Bool) :
    LineKind.blockAfter inBlock t' = LineKind.blockAfter inBlock t := by
  rw [LineKind.blockAfter, LineKind.blockAfter, same.endsBlock, same.leavesBlockOpen]

/-! ## Scans -/

theorem next_space (q : Quoting) :
    q.next ' ' = q.next '\t' ∧ (q.next ' ').next '\t' = q.next '\t' ∧
      q.exposes ' ' = !q.inside ∧ q.exposes '\t' = !q.inside ∧ (q.next ' ').inside = q.inside := by
  simp [Quoting.next, Quoting.exposes, Quoting.isQuote]

theorem after (same : Respaced t t') (q : Quoting) : q.after t' = q.after t := by
  induction same generalizing q with
  | nil => rfl
  | keep other later ih => exact ih _
  | tab later ih =>
    obtain ⟨space, -⟩ := next_space q
    rw [Quoting.after_cons, Quoting.after_cons, ih, space]
  | more later ih =>
    obtain ⟨-, again, -⟩ := next_space q
    rw [Quoting.after_cons, ih, Quoting.after_cons, Quoting.after_cons, again]

theorem head? (same : Respaced t t') {c : Char} (solid : isBlank c = false) :
    (t'.head? = some c) = (t.head? = some c) := by
  have noTab : '\t' ≠ c := ne_of_isBlank (by decide) solid
  have noSpace : ' ' ≠ c := ne_of_isBlank (by decide) solid
  cases same <;> simp [noTab, noSpace]

theorem hasSign (same : Respaced t t') (q : Quoting) : q.hasSign t' = q.hasSign t := by
  induction same generalizing q with
  | nil => rfl
  | keep other later ih =>
    rw [Quoting.hasSign, Quoting.hasSign, ih]
    simp only [later.head? (show isBlank '-' = false by decide),
      later.head? (show isBlank '*' = false by decide)]
  | tab later ih =>
    obtain ⟨space, -⟩ := next_space q
    simp [Quoting.hasSign, ih, space]
  | more later ih =>
    obtain ⟨-, again, -⟩ := next_space q
    have step := ih (q.next ' ')
    simp only [Quoting.hasSign, again] at step ⊢
    simpa using step

theorem hidden (same : Respaced t t') (q : Quoting) : Respaced (q.hidden t) (q.hidden t') := by
  induction same generalizing q with
  | nil => exact .nil
  | keep other later ih =>
    rw [Quoting.hidden, Quoting.hidden]
    split
    · exact ih _
    · exact .keep other (ih _)
  | tab later ih =>
    obtain ⟨space, -, shown, shown', -⟩ := next_space q
    have step := ih (q.next ' ')
    rw [Quoting.hidden, Quoting.hidden, shown, shown', ← space]
    split
    · exact step
    · exact .tab step
  | more later ih =>
    obtain ⟨-, again, shown, shown', inside⟩ := next_space q
    obtain ⟨-, -, -, shown'', -⟩ := next_space (q.next ' ')
    have step := ih (q.next ' ')
    rw [Quoting.hidden, again, shown'', inside] at step
    rw [Quoting.hidden, Quoting.hidden, shown, shown']
    split at step
    · rename_i outside
      rw [if_pos outside, if_pos outside]
      exact step
    · rename_i within
      rw [if_neg within, if_neg within]
      exact .more step

/-! ## Comments behind code -/

theorem commentIndex?_cons (q : Quoting) {c : Char} (other : c ≠ '-') (t : Text) :
    q.commentIndex? (c :: t) = ((q.next c).commentIndex? t).map (· + 1) := by
  rw [Quoting.commentIndex?, if_neg (by simp [other])]

theorem commentIndex? (same : Respaced t t') (q : Quoting) :
    (q.commentIndex? t = none ∧ q.commentIndex? t' = none) ∨
      ∃ i i', q.commentIndex? t = some i ∧ q.commentIndex? t' = some i' ∧
        Respaced (t.take i) (t'.take i') := by
  induction same generalizing q with
  | nil => exact .inl ⟨rfl, rfl⟩
  | @keep c t t' other later ih =>
    have next := later.head? (show isBlank '-' = false by decide)
    simp only [Quoting.commentIndex?, next]
    split
    · exact .inr ⟨0, 0, rfl, rfl, .nil⟩
    · rcases ih (q.next c) with ⟨none, none'⟩ | ⟨i, i', found, found', early⟩
      · exact .inl ⟨by rw [none]; rfl, by rw [none']; rfl⟩
      · exact .inr ⟨i + 1, i' + 1, by rw [found]; rfl, by rw [found']; rfl, .keep other early⟩
  | tab later ih =>
    obtain ⟨space, -⟩ := next_space q
    rw [commentIndex?_cons q (by decide), commentIndex?_cons q (by decide), ← space]
    rcases ih (q.next ' ') with ⟨none, none'⟩ | ⟨i, i', found, found', early⟩
    · exact .inl ⟨by rw [none]; rfl, by rw [none']; rfl⟩
    · exact .inr ⟨i + 1, i' + 1, by rw [found]; rfl, by rw [found']; rfl, .tab early⟩
  | more later ih =>
    obtain ⟨-, again, -⟩ := next_space q
    have step := ih (q.next ' ')
    -- The tab is scanned once more behind the space that it has already put.
    rw [commentIndex?_cons _ (by decide), again] at step
    rw [commentIndex?_cons q (by decide), commentIndex?_cons q (by decide)]
    rcases step with ⟨none, none'⟩ | ⟨i, i', found, found', early⟩
    · exact .inl ⟨none, by rw [none']; rfl⟩
    · obtain ⟨i, there, rfl⟩ := Option.map_eq_some_iff.mp found
      exact .inr ⟨i + 1, i' + 1, found, by rw [found']; rfl, .more early⟩

theorem codeLine (same : Respaced t t') :
    Respaced (Text.codeLine t).code (Text.codeLine t').code := by
  unfold Text.codeLine
  rcases same.commentIndex? {} with ⟨none, none'⟩ | ⟨i, i', found, found', early⟩
  · rw [none, none']
    exact same
  · rw [found, found']
    exact early.trimEnd

/-! ## Kinds of lines -/

theorem breaksWord (same : Respaced t t') : Text.breaksWord t' = Text.breaksWord t := by
  have noTab : joinsWord '\t' = false := by decide +kernel
  have noSpace : joinsWord ' ' = false := by decide +kernel
  cases same <;> simp [Text.breaksWord, noTab, noSpace]

theorem startsWithWord (same : Respaced t t') (solid : isSolid word = true) :
    Text.startsWithWord t' word = Text.startsWithWord t word := by
  obtain ⟨starts, rest⟩ := same.startsWith solid
  rw [Text.startsWithWord, Text.startsWithWord, starts]
  cases start : Text.startsWith t word with
  | false => rfl
  | true => rw [(rest start).breaksWord]

theorem endsWithWord (same : Respaced t t') (solid : isSolid word = true) :
    Text.endsWithWord t' word = Text.endsWithWord t word :=
  same.reverse.startsWithWord ((isSolid_reverse word).trans solid)

theorem startsWith_blank {c : Char} (blank : isBlank c = true)
    (solid : isSolid word = true) (filled : word ≠ []) (t : Text) :
    Text.startsWith (c :: t) word = false := by
  cases word with
  | nil => exact absurd rfl filled
  | cons d word =>
    have other : (d == c) = false :=
      beq_eq_false_iff_ne.mpr (ne_of_isBlank blank (isSolid_cons.mp solid).1).symm
    simp [Text.startsWith, List.isPrefixOf, other]

theorem startsWithWord_tab (solid : isSolid word = true) (filled : word ≠ []) (t : Text) :
    Text.startsWithWord ('\t' :: t) word = false := by
  rw [Text.startsWithWord, startsWith_blank (by decide) solid filled, Bool.false_and]

theorem holdsWord (same : Respaced t t') (solid : isSolid word = true)
    (filled : word ≠ []) (joined : Bool) :
    Text.holdsWord word joined t' = Text.holdsWord word joined t := by
  have noTab : joinsWord '\t' = false := by decide +kernel
  have noSpace : joinsWord ' ' = false := by decide +kernel
  induction same generalizing joined with
  | nil => rfl
  | keep other later ih =>
    rw [Text.holdsWord, Text.holdsWord, ih, (Respaced.keep other later).startsWithWord solid]
  | tab later ih =>
    rw [Text.holdsWord, Text.holdsWord, ih, (Respaced.tab later).startsWithWord solid, noTab,
      noSpace]
  | more later ih =>
    have none := startsWithWord_tab solid filled
    rw [Text.holdsWord, Text.holdsWord, ih, (Respaced.more later).startsWithWord solid, none, noTab,
      noSpace, Text.holdsWord, none, noTab]
    simp

theorem holdsSpacedWord (same : Respaced t t') (solid : isSolid word = true)
    (filled : word ≠ []) : Text.holdsSpacedWord word t' = Text.holdsSpacedWord word t := by
  have blankTab : isBlank '\t' = true := by decide
  have blankSpace : isBlank ' ' = true := by decide
  induction same with
  | nil => rfl
  | keep other later ih =>
    rw [Text.holdsSpacedWord, Text.holdsSpacedWord, ih, later.startsWithWord solid]
  | tab later ih =>
    rw [Text.holdsSpacedWord, Text.holdsSpacedWord, ih, later.startsWithWord solid, blankTab,
      blankSpace]
    simp
  | more later ih =>
    rw [Text.holdsSpacedWord, ih, later.startsWithWord solid, startsWithWord_tab solid filled]
    simp

theorem isModuleHeader (same : Respaced t t') : Text.isModuleHeader t' = Text.isModuleHeader t := by
  cases same with
  | nil => rfl
  | keep other later =>
    rw [Text.isModuleHeader, Text.isModuleHeader, later.holdsSpacedWord (by decide) (by decide)]
  | tab later => rfl
  | more later => rfl

theorem words (same : Respaced t t') : Text.words t' = Text.words t := by
  have blankTab : isBlank '\t' = true := by decide
  have blankSpace : isBlank ' ' = true := by decide
  -- The first stretch is the same, and so are the words behind it.
  obtain ⟨first, later, later', cut, cut', rest⟩ : ∃ first later later',
      t.splitOnP isBlank = first :: later ∧ t'.splitOnP isBlank = first :: later' ∧
        later.filter (!·.isEmpty) = later'.filter (!·.isEmpty) := by
    induction same with
    | nil => exact ⟨[], [], [], rfl, rfl, rfl⟩
    | @keep c t t' other later ih =>
      obtain ⟨first, later, later', cut, cut', rest⟩ := ih
      simp only [List.splitOnP_cons_eq_if_modifyHead, cut, cut']
      split
      · exact ⟨[], first :: later, first :: later', rfl, rfl, by simp [List.filter_cons, rest]⟩
      · exact ⟨c :: first, later, later', rfl, rfl, rest⟩
    | tab later ih =>
      obtain ⟨first, later, later', cut, cut', rest⟩ := ih
      simp only [List.splitOnP_cons_eq_if_modifyHead, cut, cut', blankTab, blankSpace, if_true]
      exact ⟨[], first :: later, first :: later', rfl, rfl, by simp [List.filter_cons, rest]⟩
    | more later ih =>
      obtain ⟨first, later, later', cut, cut', rest⟩ := ih
      have empty : first = [] := by
        rw [List.splitOnP_cons_eq_if_modifyHead, if_pos blankTab] at cut
        exact (List.cons.inj cut).1.symm
      subst empty
      simp only [List.splitOnP_cons_eq_if_modifyHead, cut', blankSpace, if_true] at cut ⊢
      exact ⟨[], later, [] :: later', cut, rfl, by simpa [List.filter_cons] using rest⟩
  rw [Text.words, Text.words, cut, cut', List.filter_cons, List.filter_cons, rest]

/-! ## Assignment signs -/

theorem cutAt? (same : Respaced t t') (solid : isSolid word = true)
    (filled : word ≠ []) :
    (Text.cutAt? word t = none ∧ Text.cutAt? word t' = none) ∨
      ∃ before after before' after', Text.cutAt? word t = some (before, after) ∧
        Text.cutAt? word t' = some (before', after') ∧ Respaced before before' := by
  have noTab := startsWith_blank (show isBlank '\t' = true by decide) solid filled
  have noSpace := startsWith_blank (show isBlank ' ' = true by decide) solid filled
  induction same with
  | nil => exact .inl ⟨by simp [Text.cutAt?, filled], by simp [Text.cutAt?, filled]⟩
  | keep other later ih =>
    rw [Text.cutAt?, Text.cutAt?, ((Respaced.keep other later).startsWith solid).1]
    split
    · exact .inr ⟨[], _, [], _, rfl, rfl, .nil⟩
    · rcases ih with ⟨none, none'⟩ | ⟨before, after, before', after', found, found', early⟩
      · exact .inl ⟨by rw [none]; rfl, by rw [none']; rfl⟩
      · exact .inr ⟨_, _, _, _, by rw [found]; rfl, by rw [found']; rfl, .keep other early⟩
  | tab later ih =>
    simp only [Text.cutAt?, noTab, noSpace, Bool.false_eq_true, if_false]
    rcases ih with ⟨none, none'⟩ | ⟨before, after, before', after', found, found', early⟩
    · exact .inl ⟨by rw [none]; rfl, by rw [none']; rfl⟩
    · exact .inr ⟨_, _, _, _, by rw [found]; rfl, by rw [found']; rfl, .tab early⟩
  | more later ih =>
    simp only [Text.cutAt?, noTab, noSpace, Bool.false_eq_true, if_false] at ih ⊢
    rcases ih with ⟨none, none'⟩ | ⟨before, after, before', after', found, found', early⟩
    · exact .inl ⟨none, by rw [none']; rfl⟩
    · obtain ⟨sides, there, same⟩ := Option.map_eq_some_iff.mp found
      cases same
      exact .inr ⟨_, _, _, _, by rw [there]; rfl, by rw [found']; rfl, .more early⟩

theorem contains (same : Respaced t t') (solid : isSolid word = true)
    (filled : word ≠ []) : Text.contains t' word = Text.contains t word := by
  unfold Text.contains
  rcases same.cutAt? solid filled with ⟨none, none'⟩ | ⟨_, _, _, _, found, found', -⟩
  · rw [none, none']
  · rw [found, found']
    rfl

theorem codeKind (same : Respaced t t') : Text.codeKind t' = Text.codeKind t := by
  unfold Text.codeKind Text.opensModule
  rw [same.isModuleHeader, same.endsWithWord (by decide), same.startsWithWord (by decide),
    same.contains (by decide) (by decide), same.words, same.holdsWord (by decide) (by decide)]

theorem ofLine (same : Respaced t t') (inBlock : Bool) :
    LineKind.ofLine inBlock t' = LineKind.ofLine inBlock t := by
  unfold LineKind.ofLine
  rw [same.isLineComment, same.startsBlock, same.trim.codeLine.codeKind]

theorem definitionSides (same : Respaced t t') :
    Respaced (Reader.definitionSides t).1 (Reader.definitionSides t').1 := by
  have code := same.trim.codeLine
  unfold Reader.definitionSides
  rcases code.cutAt? (show isSolid assignmentSign = true by decide) (by decide) with
    ⟨none, none'⟩ | ⟨_, _, _, _, found, found', early⟩
  · simp only [none, none']
    exact code
  · simp only [found, found']
    exact early

end Respaced

end Text

end AsnLayout
