import AsnLayout.Proofs.Indentation
import AsnLayout.Proofs.QuotedLayout
import AsnLayout.Proofs.Tabs

/-!
# Literals are kept

The literals in the code of a schema stand in the formatted text as they were, in the same order and
with all of their blanks.  This asks of each line of code that it closes its literals, and that the
signs which are looked for in the text of the line, whether quoted or not, stand where the scan of
literals sees them: an assignment sign outside of literals, a block comment only at the start of a
line, and tabs outside of literals.
-/

set_option autoImplicit false

namespace AsnLayout

namespace Text

/-! ## Literals of lines -/

def codeLiterals (inBlock : Bool) : List Text → List Text
  | [] => []
  | line :: rest =>
    (if Reader.isRemark inBlock line then [] else literals (codeLine (trim line)).code) ++
      codeLiterals (LineKind.blockAfter inBlock line) rest

/-- A line of code whose literals are read as such. -/
structure Legible (line : Text) : Prop where
  closed : (Quoting.after {} (codeLine (trim line)).code).inside = false
  /-- No sign of a comment stands in its code. -/
  noSign : Quoting.hasSign {} (codeLine (trim line)).code = false
  /-- Its assignment sign, if it defines a type, stands outside of literals. -/
  assigned : LineKind.ofLine false line = .typeDefinition →
    (Quoting.after {} (Reader.definitionSides line).1).inside = false
  noTab : ∀ literal ∈ literals (codeLine (trim line)).code, '\t' ∉ literal

instance (line : Text) : Decidable (Legible line) :=
  decidable_of_iff ((Quoting.after {} (codeLine (trim line)).code).inside = false ∧
    Quoting.hasSign {} (codeLine (trim line)).code = false ∧
    (LineKind.ofLine false line = .typeDefinition →
      (Quoting.after {} (Reader.definitionSides line).1).inside = false) ∧
    ∀ literal ∈ literals (codeLine (trim line)).code, '\t' ∉ literal)
    ⟨fun ⟨closed, noSign, assigned, noTab⟩ => ⟨closed, noSign, assigned, noTab⟩,
      fun ⟨closed, noSign, assigned, noTab⟩ => ⟨closed, noSign, assigned, noTab⟩⟩

def LegibleLines (inBlock : Bool) : List Text → Prop
  | [] => True
  | line :: rest => (Reader.isRemark inBlock line = false → Legible line) ∧
      LegibleLines (LineKind.blockAfter inBlock line) rest

instance LegibleLines.decidable (inBlock : Bool) : (lines : List Text) →
    Decidable (LegibleLines inBlock lines)
  | [] => inferInstanceAs (Decidable True)
  | line :: rest =>
    have := decidable (LineKind.blockAfter inBlock line) rest
    inferInstanceAs (Decidable ((Reader.isRemark inBlock line = false → Legible line) ∧
      LegibleLines (LineKind.blockAfter inBlock line) rest))

theorem codeLiterals_filter (inBlock : Bool) (lines : List Text) :
    codeLiterals inBlock (lines.filter (!isBlankText ·)) = codeLiterals inBlock lines := by
  induction lines generalizing inBlock with
  | nil => rfl
  | cons line rest ih =>
    by_cases blank : isBlankText line = true
    · have none : (if Reader.isRemark inBlock line then []
          else literals (codeLine (trim line)).code) = [] := by
        rw [trim_of_blank blank]
        split <;> rfl
      rw [List.filter_cons_of_neg (by simp [blank]), ih, codeLiterals, none,
        blockAfter_of_isBlankText blank]
      rfl
    · rw [List.filter_cons_of_pos (by simp [blank]), codeLiterals, ih, codeLiterals]

theorem codeLiterals_of_isBlankText {t : Text} (blank : isBlankText t = true) (inBlock : Bool) :
    codeLiterals inBlock (lines t) = [] := by
  have none := seenLines_of_isBlankText blank
  rw [seenLines] at none
  rw [← codeLiterals_filter, none]
  rfl

theorem Rows.codeLiterals {before after : Bool} {rows : List Text} {held : Text}
    (reads : Rows before rows held after) : Text.codeLiterals before rows = literals held := by
  induction reads with
  | done => rfl
  | comment isRemark later ih =>
    obtain ⟨remark, -, rfl⟩ := isRemark
    rw [Text.codeLiterals, if_pos remark, ih]
    rfl
  | code isCode later ih =>
    have woven := woven_of_closed isCode.hides.tame.closed
    rw [show hidden _ = _ from isCode.hides.hidden] at woven
    rw [Text.codeLiterals, if_neg (by simp [isCode.noRemark]),
      LineKind.blockAfter_of_not_isRemark isCode.noRemark, ih, woven.literals_append]

theorem flatMap_seenLines_of_single {rows : List Text} (single : ∀ row ∈ rows, '\n' ∉ row) :
    rows.flatMap seenLines = rows.filter (!isBlankText ·) := by
  induction rows with
  | nil => rfl
  | cons row later ih =>
    obtain ⟨here, there⟩ := List.forall_mem_cons.mp single
    rw [List.flatMap_cons, seenLines, lines_of_not_mem here, ih there]
    exact (List.filter_append [row] later).symm

theorem Rows.single {before after : Bool} {rows : List Text} {held : Text}
    (reads : Rows before rows held after) : ∀ row ∈ rows, '\n' ∉ row := by
  induction reads with
  | done => simp
  | comment isRemark later ih => exact List.forall_mem_cons.mpr ⟨isRemark.single, ih⟩
  | code isCode later ih => exact List.forall_mem_cons.mpr ⟨isCode.single, ih⟩

/-! ## Source lines -/

theorem isBlankText_unifyNewlines {t : Text} (blank : isBlankText t = true) :
    isBlankText (unifyNewlines t) = true := by
  fun_induction unifyNewlines t with
  | case1 => rfl
  | case2 rest ih =>
    simp only [isBlankText, List.all_cons, Bool.and_eq_true] at blank ih ⊢
    exact ⟨by decide, ih blank.2.2⟩
  | case3 c rest other ih =>
    simp only [isBlankText, List.all_cons, Bool.and_eq_true] at blank ih ⊢
    refine ⟨?_, ih blank.2⟩
    split
    · decide
    · exact blank.1

theorem Woven.hidden_eq_flatten {t held : Text} (woven : Woven t held) :
    held = (literals t).flatten := by
  induction woven with
  | code quiet => simp [Text.literals, chunks, Quoting.chunks_of_quiet quiet]
  | literal quiet opens quiet' closes later ih =>
    rw [literals_literal quiet opens quiet' closes, List.flatten_cons, ← ih]
    simp

/-- A legible line hides the same characters when its tabs have become spaces. -/
theorem Legible.isSource {line line' : Text} (legible : Legible line) (same : Respaced line line')
    (noRemark : Reader.isRemark false line = false) (single : '\n' ∉ line') :
    IsSource line' (hidden (codeLine (trim line)).code) := by
  have code := same.trim.codeLine
  have woven := woven_of_closed legible.closed
  have absent : '\t' ∉ hidden (codeLine (trim line)).code := by
    rw [woven.hidden_eq_flatten]
    intro member
    obtain ⟨literal, isLiteral, inLiteral⟩ := List.mem_flatten.mp member
    exact legible.noTab literal isLiteral inLiteral
  refine ⟨⟨by rw [same.isRemark, noRemark], single, ⟨⟨?_, ?_, ?_⟩, ?_⟩⟩, ?_⟩
  · rw [code.after, legible.closed]
  · rw [code.hasSign, legible.noSign]
  · exact fun newline => single (((code_isInfix _).trans (trim_isInfix line')).subset newline)
  · exact (code.hidden {}).eq_of_not_mem absent
  · intro defines
    rw [same.definitionSides.after]
    exact legible.assigned (by rw [← same.ofLine, defines])

theorem Legible.isSource_self {line : Text} (legible : Legible line)
    (noRemark : Reader.isRemark false line = false) (single : '\n' ∉ line) :
    IsSource line (hidden (codeLine (trim line)).code) := by
  refine ⟨⟨noRemark, single, ⟨⟨legible.closed, legible.noSign, fun newline => single ?_⟩, rfl⟩⟩,
    legible.assigned⟩
  exact ((code_isInfix _).trans (trim_isInfix line)).subset newline

/-- Legible lines are lines of a source that hide their literals, also after a change that leaves
comments and what is hidden as they are. -/
theorem exists_sourceLines_map {change : Text → Text}
    (remarks : ∀ inBlock line, Reader.isRemark inBlock (change line) = Reader.isRemark inBlock line)
    (blocks : ∀ inBlock line,
      LineKind.blockAfter inBlock (change line) = LineKind.blockAfter inBlock line)
    {inBlock : Bool} {lines : List Text} (single : ∀ line ∈ lines, '\n' ∉ change line)
    (sources : ∀ line ∈ lines, Legible line → Reader.isRemark false line = false →
      IsSource (change line) (hidden (codeLine (trim line)).code))
    (legible : LegibleLines inBlock lines) :
    ∃ held state, SourceLines inBlock (lines.map change) held state ∧
      literals held = codeLiterals inBlock lines := by
  induction lines generalizing inBlock with
  | nil => exact ⟨[], inBlock, .done, rfl⟩
  | cons line rest ih =>
    obtain ⟨here, there⟩ := legible
    obtain ⟨singleHere, singleThere⟩ := List.forall_mem_cons.mp single
    obtain ⟨sourceHere, sourceThere⟩ := List.forall_mem_cons.mp sources
    obtain ⟨held, state, source, kept⟩ := ih singleThere sourceThere there
    by_cases remark : Reader.isRemark inBlock line = true
    · refine ⟨held, state, .comment ⟨?_, singleHere, blocks inBlock line⟩ source, ?_⟩
      · rw [remarks, remark]
      · rw [codeLiterals, if_pos remark, kept]
        rfl
    · have noRemark : Reader.isRemark inBlock line = false := by simpa using remark
      have behind := LineKind.blockAfter_of_not_isRemark noRemark
      have outside : inBlock = false := by
        simp only [Reader.isRemark, Bool.or_eq_false_iff] at noRemark
        exact noRemark.1.1
      subst outside
      rw [behind] at source kept
      refine ⟨_, state, .code (sourceHere (here noRemark) noRemark) source, ?_⟩
      rw [codeLiterals, if_neg remark, behind, ← kept,
        (woven_of_closed (here noRemark).closed).literals_append]

theorem exists_sourceLines {width : Nat} (positive : 0 < width) {inBlock : Bool} {lines : List Text}
    (single : ∀ line ∈ lines, '\n' ∉ line) (legible : LegibleLines inBlock lines) :
    ∃ held state, SourceLines inBlock (lines.map (tabsToSpaces width 0)) held state ∧
      literals held = codeLiterals inBlock lines := by
  have same := Respaced.of_tabsToSpaces positive 0
  have single' : ∀ line ∈ lines, '\n' ∉ tabsToSpaces width 0 line := fun line member =>
    newline_not_mem_tabsToSpaces width 0 line (single line member)
  exact exists_sourceLines_map (fun inBlock line => (same line).isRemark inBlock)
    (fun inBlock line => (same line).blockAfter inBlock) single'
    (fun line member isLegible noRemark =>
      isLegible.isSource (same line) noRemark (single' line member)) legible

end Text

/-! ## Main result -/

theorem Layout.codeLiterals_text {options : Options} {nodes : List Node} {out held : Text}
    {after : Bool} (series : Series Node.IsComment Node.ItemBears false nodes held after)
    (laid : Layout.text options nodes = .ok out) :
    Text.codeLiterals false (Text.lines out) = Text.literals held := by
  obtain ⟨pieces, laidNodes, rfl⟩ := Layout.text_eq_ok.mp laid
  have reads : Piece.Reads options.indentWidth false pieces held after :=
    Layout.reads_layNodes series laidNodes
  have rows : (pieces.flatMap fun piece => Text.seenLines (piece.row options.indentWidth)) =
      (pieces.map (Piece.row options.indentWidth)).filter (!Text.isBlankText ·) := by
    rw [← List.flatMap_map]
    exact Text.flatMap_seenLines_of_single (Text.Rows.single reads)
  rw [← Text.codeLiterals_filter, ← Text.seenLines, Piece.seenLines_assemble, rows,
    Text.codeLiterals_filter, Text.Rows.codeLiterals reads]

/-- The literals of a schema with a tree are kept, if every line of code is legible. -/
theorem codeLiterals_format (source : Text) (configuration : Configuration) (root : Node)
    (out : Text)
    (read : Node.ofText (Text.plainSource source (Format.options configuration).result.indentWidth)
      (Format.options configuration).result = .ok root)
    (laid : root.toText (Format.options configuration).result = .ok out)
    (legible : Text.LegibleLines false (Text.lines (Text.unifyNewlines source))) :
    Text.codeLiterals false (Text.lines (Format.text source configuration).result) =
      Text.codeLiterals false (Text.lines (Text.unifyNewlines source)) := by
  have positive : 0 < (Format.options configuration).result.indentWidth.toNat := by
    have := (Format.options_positive configuration).1
    omega
  by_cases blank : Text.isBlankText source = true
  · have empty : (Format.text source configuration).result = [] := by
      simp only [Format.text, blank, if_true]
    rw [empty, Text.codeLiterals_of_isBlankText (Text.isBlankText_unifyNewlines blank)]
    rfl
  · obtain ⟨held, state, lines, kept⟩ := Text.exists_sourceLines positive
      (Text.newline_not_mem_of_mem_lines (Text.unifyNewlines source)) legible
    rw [← Text.lines_plainSource] at lines
    obtain ⟨nodes, after, run, rfl⟩ := (Reader.ofText_eq_ok ..).mp read
    have series := Reader.series_itemsRun run rfl lines
    rw [Format.result_of_tree (by simpa using blank) read laid, ← kept]
    exact Layout.codeLiterals_text series laid

/-- Literals with braces, commas, hyphens and escaped quotes, among comments with quotes. -/
theorem codeLiterals_format_nested_group :
    let source : Text := ("A ::= SEQUENCE \x7b -- \"a\r\n\ta VisibleString (\"\x7b,  \\\"--\"),-- \"b\n" ++
      "-* \"c\n d *-\n  b SET \x7b c NULL (\"p\"  \"q,\") \x7d \x7d (\"e\")").toList
    Text.LegibleLines false (Text.lines (Text.unifyNewlines source)) ∧
      Text.codeLiterals false (Text.lines (Format.text source .absent).result) =
        ["\"\x7b,  \\\"--\"".toList, "\"p\"".toList, "\"q,\"".toList, "\"e\"".toList] := by
  intro source
  obtain ⟨root, out, read, laid⟩ := @exists_tree (Text.plainSource source 2) {} (by decide +kernel)
  have legible : Text.LegibleLines false (Text.lines (Text.unifyNewlines source)) := by
    decide +kernel
  have kept := codeLiterals_format source .absent root out read laid legible
  exact ⟨legible, kept.trans (by decide +kernel)⟩

/-- A schema with a tree that closes the literals of every line, and whose literals are not kept. -/
def ChangesLiterals (source : Text) : Prop :=
  (∃ root out, Node.ofText (Text.plainSource source 2) {} = .ok root ∧ root.toText {} = .ok out) ∧
    (∀ line ∈ Text.lines source,
      (Quoting.after {} (Text.codeLine (Text.trim line)).code).inside = false) ∧
    Text.codeLiterals false (Text.lines (Format.text source .absent).result) ≠
      Text.codeLiterals false (Text.lines source)

/-- An assignment sign in a literal is set apart, a tab in a literal is widened, and code behind a
comma that starts with the sign of a block comment becomes one with its literals. -/
theorem codeLiterals_format_changed :
    ChangesLiterals "x \"a::=b\"".toList ∧ ChangesLiterals "x \"a\tb\"".toList ∧
      ChangesLiterals "A ::= SEQUENCE \x7b a INTEGER, -* \"x\" \x7d".toList :=
  ⟨⟨exists_tree (by decide +kernel), by decide +kernel, by decide +kernel⟩,
    ⟨exists_tree (by decide +kernel), by decide +kernel, by decide +kernel⟩,
    ⟨exists_tree (by decide +kernel), by decide +kernel, by decide +kernel⟩⟩

end AsnLayout
