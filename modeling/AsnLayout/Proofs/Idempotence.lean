import AsnLayout.Proofs.Canonical

/-!
# Formatting twice

The layout of definitions spells them, so formatting it changes nothing.
-/

set_option autoImplicit false

namespace AsnLayout

/-! ## Lexemes of a layout -/

theorem lexemes_unwords {ws : List Text} (tokens : ∀ w ∈ ws, IsToken w) :
    Text.lexemes (unwords ws) = ws := by
  induction ws with
  | nil => rfl
  | cons w later ih =>
    have here := (tokens w (List.mem_cons_self ..)).lexemes_eq
    by_cases none : later = []
    · simpa [none, unwords] using here
    · have there := ih fun w member => tokens w (List.mem_cons_of_mem _ member)
      rw [unwords_cons w none, Text.lexemes_append _ _ (Text.apart_of_mark _ _ (by decide)), here,
        Text.lexemes_cons_gap _ (by decide), there]
      rfl

def comma (last : Bool) : List Text := if last then [] else [[',']]

theorem lexemes_memberText {ws : List Text} (tokens : ∀ w ∈ ws, IsToken w) (last : Bool) :
    Text.lexemes (memberText ws last) = ws ++ comma last := by
  cases last with
  | true => simpa [memberText, comma] using lexemes_unwords tokens
  | false =>
    have marked := Text.lexemes_mark (unwords ws) [] (show isWordChar ',' = false by decide) (by decide)
    rw [lexemes_unwords tokens] at marked
    exact marked

def rowTokens (rows : List Row) : List Text := rows.flatMap fun row => Text.lexemes row.text

theorem rowTokens_append (rows more : List Row) :
    rowTokens (rows ++ more) = rowTokens rows ++ rowTokens more := List.flatMap_append

theorem Member.rowTokens_rowsAll {depth : Nat} {members : List Member}
    (written : ∀ member ∈ members, ∀ last,
      rowTokens (member.rows depth last) = member.tokens ++ comma last) :
    rowTokens (Member.rowsAll depth members) = Member.list members := by
  induction members with
  | nil => rfl
  | cons first later ih =>
    have here := written first (List.mem_cons_self ..)
    have there := ih fun member inLater => written member (List.mem_cons_of_mem _ inLater)
    rw [Member.rowsAll, rowTokens_append, here, there]
    cases later with
    | nil => simp [Member.list, Member.tokensAll_eq, comma]
    | cons second others =>
      simp [Member.list, Member.tokensAll_eq, commaSeparated_cons, comma]

theorem Member.rowTokens_rows (member : Member) (depth : Nat) (last : Bool) :
    rowTokens (member.rows depth last) = member.tokens ++ comma last := by
  induction member using Member.induct generalizing depth last with
  | plain first more =>
    have line := lexemes_memberText (isToken_wordsOf (first :: more)) last
    rw [Member.rows, rowTokens, List.flatMap_singleton]
    exact line
  | group front word members back ih =>
    have opening : ∀ w ∈ wordsOf front ++ [word.text, ['{']], IsToken w := by
      intro w inHeader
      simp only [List.mem_append, List.mem_cons, List.not_mem_nil, or_false] at inHeader
      rcases inHeader with inFront | rfl | rfl
      · exact isToken_wordsOf front w inFront
      · exact word.isToken
      · exact .opening
    have closing : ∀ w ∈ ['}'] :: wordsOf back, IsToken w := by
      intro w inCloser
      rcases List.mem_cons.mp inCloser with rfl | inBack
      · exact .closing
      · exact isToken_wordsOf back w inBack
    have inside := Member.rowTokens_rowsAll fun member inMembers => ih member inMembers (depth + 1)
    rw [rowTokens] at inside
    rw [Member.rows, rowTokens, List.flatMap_cons, List.flatMap_append, inside,
      List.flatMap_singleton, lexemes_unwords opening, lexemes_memberText closing]
    simp [Member.tokens, groupTokens, Member.list]

namespace Definition

variable (width : Int) (definition : Definition)

theorem lexemes_line (row : Row) : Text.lexemes (Row.line width row) = Text.lexemes row.text := by
  refine Text.lexemes_gap_append row.text ?_
  simp [Text.spaces, isGap]

theorem spelledBy_lines {gap : Text} (gaps : gap.all isGap = true) :
    definition.SpelledBy (Text.ofLines (definition.lines width) ++ gap) := by
  have inside : rowTokens (Member.rowsAll 1 definition.members) = Member.list definition.members :=
    Member.rowTokens_rowsAll fun member _ => member.rowTokens_rows 1
  obtain ⟨closing, isClosing⟩ : ∃ row : Row, row = ⟨0, ['}']⟩ := ⟨_, rfl⟩
  obtain ⟨lines, isLines⟩ : ∃ lines, lines =
    (Member.rowsAll 1 definition.members ++ [closing]).map (Row.line width) := ⟨_, rfl⟩
  have below : lines.flatMap Text.lexemes = Member.list definition.members ++ [['}']] := by
    rw [isLines, List.flatMap_map]
    simp only [lexemes_line]
    rw [← rowTokens, rowTokens_append, inside, isClosing]
    rfl
  have some : lines ≠ [] := by simp [isLines]
  obtain ⟨second, others, rfl⟩ := List.exists_cons_of_ne_nil some
  have text : Text.ofLines (definition.lines width) ++ gap = definition.name.text ++ ([' '] ++
      (Text.assignmentSign ++ ((' ' :: (definition.word.text ++ [' '])) ++
        '{' :: ('\n' :: (Text.ofLines (second :: others) ++ gap))))) := by
    rw [Definition.lines, Definition.rows, ← isClosing, List.map_cons, ← isLines,
      Text.ofLines_cons_cons]
    simp [Row.line, Text.spaces, unwords, List.intercalate]
  refine (definition.spelledBy_iff _).mpr ⟨_, _, text, by decide, ?_⟩
  rw [Text.lexemes_mark _ _ (by decide) (by decide), Text.lexemes_cons_gap _ (by decide),
    Text.lexemes_cons_gap _ (by decide), Text.lexemes_append_gap _ gaps,
    Text.lexemes_append_gap _ (show [' '].all isGap = true by decide),
    definition.word.isToken.lexemes_eq, Text.lexemes_ofLines, below]
  rfl

theorem ofLines_append {early later : List Text} (some : early ≠ []) (some' : later ≠ []) :
    Text.ofLines (early ++ later) = Text.ofLines early ++ '\n' :: Text.ofLines later := by
  induction early with
  | nil => exact absurd rfl some
  | cons first others ih =>
    obtain ⟨next, more, rfl⟩ := List.exists_cons_of_ne_nil some'
    cases others with
    | nil =>
      rw [List.singleton_append, Text.ofLines_cons_cons]
      simp [Text.ofLines]
    | cons second others =>
      rw [List.cons_append, List.cons_append, Text.ofLines_cons_cons, Text.ofLines_cons_cons,
        ← List.cons_append, ih (List.cons_ne_nil _ _)]
      simp

theorem spelled_layout {definitions : List Definition} (some : definitions ≠ []) :
    Spelled definitions (layout width definitions) := by
  induction definitions with
  | nil => exact absurd rfl some
  | cons first later ih =>
    have here := first.spelledBy_lines width (show ['\n'].all isGap = true by decide)
    cases later with
    | nil =>
      have last := Spelled.last (show ([] : Text).all isGap = true by decide) here
      rwa [List.nil_append, ← page_single] at last
    | cons second others =>
      have next := Spelled.next (show ([] : Text).all isGap = true by decide) here
        (ih (List.cons_ne_nil _ _))
      have split : Text.ofLines (page width (first :: second :: others)) ++ ['\n'] =
          [] ++ ((Text.ofLines (first.lines width) ++ ['\n']) ++
            '\n' :: (Text.ofLines (page width (second :: others)) ++ ['\n'])) := by
        have start : first.lines width ≠ [] := by simp [Definition.lines, Definition.rows]
        have rest : page width (second :: others) ≠ [] := by
          obtain ⟨line, starts, -⟩ := head?_page width second others
          intro none
          rw [none] at starts
          cases starts
        obtain ⟨row, rows, found⟩ := List.exists_cons_of_ne_nil rest
        rw [page_cons, ofLines_append start (List.cons_ne_nil _ _), found, Text.ofLines_cons_cons]
        simp
      rw [layout, ← page, split]
      exact next

end Definition

/-! ## Formatting a layout -/

/-- Formatting a text that spells definitions once more changes nothing. -/
theorem format_format_of_spelled (definitions : List Definition) (source : Text)
    (configuration : Configuration) (spelled : Definition.Spelled definitions source)
    (fits : ∀ definition ∈ definitions,
      definition.depth ≤ (Format.options configuration).result.maxDepth) :
    (Format.text (Format.text source configuration).result configuration).result =
      (Format.text source configuration).result := by
  have some : definitions ≠ [] := by
    cases spelled with
    | last => exact List.cons_ne_nil _ _
    | next => exact List.cons_ne_nil _ _
  rw [Definition.result_of_spelled spelled fits]
  exact Definition.result_of_spelled (Definition.spelled_layout _ some) fits

end AsnLayout
