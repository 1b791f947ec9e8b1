import AsnLayout.Format
import AsnLayout.Proofs.Rows
import AsnLayout.Proofs.Spelling
import Mathlib.Data.List.Chain

/-!
# The canonical layout

A text that spells definitions is read as their nodes with blank lines between them.  The gaps that
these lines lay out make one empty line each, so all spellings of the same definitions are formatted
as one text.
-/

set_option autoImplicit false

namespace AsnLayout

open Reading

/-! ## Documents -/

inductive Laid : List Node → List Definition → Prop where
  | nil : Laid [] []
  | blank {node : Node} {nodes : List Node} {definitions : List Definition}
      (isBlank : ∀ options, Layout.layNode options node = .ok [.gap])
      (later : Laid nodes definitions) : Laid (node :: nodes) definitions
  | definition {node : Node} {nodes : List Node} {definition : Definition}
      {definitions : List Definition} (laysOut : node.LaysOut definition)
      (later : Laid nodes definitions) : Laid (node :: nodes) (definition :: definitions)

namespace Reader

variable {limits : Limits} {definitions : List Definition} {lines : List Text}

/-- Lines are read as definitions, however many lines have been read before them. -/
def ReadAs (limits : Limits) (definitions : List Definition) (lines : List Text) : Prop :=
  ∀ read number : Nat, (read + lines.length : Int) ≤ limits.lines →
    ∃ nodes after, Laid nodes definitions ∧
      ItemsRun limits { linesRead := read } number 0 lines nodes after

theorem ReadAs.nil : ReadAs limits [] [] :=
  fun _ _ _ => ⟨[], _, .nil, .done _ _ _⟩

theorem yields_readItem_blank {line : Text} (blank : Text.isBlankText line = true) (read number : Nat)
    (room : (read + 1 : Int) ≤ limits.lines) (rest : List Text) :
    ∃ node, (∀ options, Layout.layNode options node = .ok [.gap]) ∧
      Yields (readItem limits number line rest) { linesRead := read } (node, 0)
        { linesRead := read + 1 } := by
  have absent : ∀ c, Text.isBlank c = false → c ∉ line := by
    intro c mark member
    rw [List.all_eq_true.mp blank c member] at mark
    cases mark
  have bare : line.Bare := bare_of_not_mem (absent _ (by decide)) (absent _ (by decide))
  have trimmed := Text.trim_of_blank blank
  have kind : LineKind.ofLine false line = .other := by
    rw [ofLine_of_bare bare, trimmed]
    decide
  refine ⟨itemNode { linesRead := read + 1 } .other line number, ?_, ?_⟩
  · intro options
    have none : Text.neatLine (Text.trim line) = [] := by
      rw [trimmed]
      decide
    simp only [Layout.layNode, itemNode, none, if_true]
  · rw [yields_readItem, kind, if_neg (by decide)]
    refine ⟨room, ?_, rfl⟩
    simp only [lineItem, counted, kind, pass_of_bare bare]

theorem ReadAs.blanks {blanks : List Text}
    (blank : ∀ line ∈ blanks, Text.isBlankText line = true) (others : ReadAs limits definitions lines) :
    ReadAs limits definitions (blanks ++ lines) := by
  induction blanks with
  | nil => exact others
  | cons line later ih =>
    intro read number room
    have onward := ih fun part member => blank part (List.mem_cons_of_mem _ member)
    rw [List.cons_append, List.length_cons] at room
    push_cast at room
    have here : (read + 1 : Int) ≤ limits.lines := by omega
    obtain ⟨node, isGap, item⟩ := yields_readItem_blank (blank line (List.mem_cons_self ..)) read
      number here (later ++ lines)
    obtain ⟨nodes, after, laid, run⟩ := onward (read + 1) (number + 1) (by push_cast; omega)
    exact ⟨node :: nodes, after, .blank isGap laid, .item item run⟩

theorem ReadAs.definition {definition : Definition} {gap text : Text}
    (gaps : gap.all isGap = true) (spelled : definition.SpelledBy text)
    (fits : definition.depth ≤ limits.depth) (others : ReadAs limits definitions lines) :
    ReadAs limits (definition :: definitions) (Text.lines (gap ++ text) ++ lines) := by
  obtain ⟨space, type, rfl, spaces, cut⟩ := (definition.spelledBy_iff text).mp spelled
  have spaceGap : space.all isGap = true := by
    rw [List.all_eq_true] at spaces ⊢
    intro c member
    have same : c = ' ' := by simpa using spaces c member
    rw [same]
    decide
  obtain ⟨first, more, whole⟩ := Text.exists_lines type
  have head : '\n' ∉ definition.name.text ++ (space ++ Text.assignmentSign) := by
    simp only [List.mem_append, not_or]
    refine ⟨not_mem_word definition.name.chars (by decide), ?_, by decide⟩
    intro newline
    simpa using List.all_eq_true.mp spaces _ newline
  have cutText := Text.lines_append_of_not_mem head type
  rw [whole, List.modifyHead_cons, List.append_assoc, List.append_assoc] at cutText
  obtain ⟨blanks, pre, blank, pres, -, cuts⟩ := Text.lines_gap gaps
  rw [cuts _ _ _ cutText, List.append_assoc, List.cons_append]
  refine ReadAs.blanks blank ?_
  intro read number room
  rw [List.length_cons, List.length_append] at room
  push_cast at room
  obtain ⟨node, count, laysOut, small, left, item⟩ := yields_readItem_spelled definition pres spaceGap
    cut whole fits read number (by omega) lines
  obtain ⟨nodes, after, laid, run⟩ := ReadAs.blanks left others (read + 1 + count)
    (number + 1 + count) (by
      rw [List.length_append, List.length_drop]
      push_cast
      omega)
  refine ⟨node :: nodes, after, .definition laysOut laid, ?_⟩
  rw [definitionLine] at item
  simp only [List.append_assoc] at item ⊢
  refine .item item (itemsRun_skip.mpr ?_)
  rw [List.drop_append_of_le_length small]
  exact run

theorem readAs_spelled {source : Text} (spelled : Definition.Spelled definitions source)
    (fits : ∀ definition ∈ definitions, definition.depth ≤ limits.depth) :
    ReadAs limits definitions (Text.lines source) := by
  induction spelled with
  | last gaps spelled =>
    have read := ReadAs.definition gaps spelled (fits _ (List.mem_cons_self ..)) ReadAs.nil
    rwa [List.append_nil] at read
  | next gaps spelled _ ih =>
    rw [← List.append_assoc, Text.lines_append_newline]
    refine ReadAs.definition gaps spelled (fits _ (List.mem_cons_self ..)) (ih ?_)
    exact fun definition member => fits definition (List.mem_cons_of_mem _ member)

end Reader

/-! ## Rows -/

def Text.OneLine (t : Text) : Prop := t ≠ [] ∧ '\n' ∉ t

theorem IsToken.oneLine {w : Text} (token : IsToken w) : w.OneLine := by
  refine ⟨token.ne_nil, ?_⟩
  intro newline
  exact absurd (token.solid _ newline) (by decide)

theorem oneLine_unwords {ws : List Text} (words : ∀ w ∈ ws, Text.OneLine w) (some : ws ≠ []) :
    (unwords ws).OneLine := by
  induction ws with
  | nil => exact absurd rfl some
  | cons w later ih =>
    have here := words w (List.mem_cons_self ..)
    by_cases none : later = []
    · simpa [none, unwords] using here
    · have there := ih (fun w member => words w (List.mem_cons_of_mem _ member)) none
      rw [unwords_cons w none]
      exact ⟨by simp, by simp [here.2, there.2]⟩

theorem oneLine_memberText {ws : List Text} (words : ∀ w ∈ ws, Text.OneLine w) (some : ws ≠ [])
    (last : Bool) : (memberText ws last).OneLine := by
  have line := oneLine_unwords words some
  cases last <;> simp [memberText, Text.OneLine, line.1, line.2]

theorem oneLine_wordsOf (atoms : List Atom) : ∀ w ∈ wordsOf atoms, Text.OneLine w :=
  fun w member => (isToken_wordsOf atoms w member).oneLine

theorem Member.oneLine_rowsAll {depth : Nat} {members : List Member}
    (oneLine : ∀ member ∈ members, ∀ last, ∀ row ∈ member.rows depth last, row.text.OneLine) :
    ∀ row ∈ Member.rowsAll depth members, row.text.OneLine := by
  induction members with
  | nil =>
    intro row member
    rw [Member.rowsAll] at member
    cases member
  | cons first later ih =>
    intro row member
    rw [Member.rowsAll] at member
    rcases List.mem_append.mp member with here | there
    · exact oneLine first (List.mem_cons_self ..) _ row here
    · exact ih (fun other inLater => oneLine other (List.mem_cons_of_mem _ inLater)) row there

theorem Member.oneLine_rows (member : Member) (depth : Nat) (last : Bool) :
    ∀ row ∈ member.rows depth last, row.text.OneLine := by
  induction member using Member.induct generalizing depth last with
  | plain first more =>
    intro row inRows
    rw [Member.rows] at inRows
    rw [List.mem_singleton.mp inRows]
    exact oneLine_memberText (oneLine_wordsOf (first :: more)) (List.cons_ne_nil _ _) last
  | group front word members back ih =>
    intro row inRows
    rw [Member.rows] at inRows
    rcases List.mem_cons.mp inRows with rfl | inRows
    · refine oneLine_unwords ?_ (by simp)
      intro w inHeader
      simp only [List.mem_append, List.mem_cons, List.not_mem_nil, or_false] at inHeader
      rcases inHeader with inFront | rfl | rfl
      · exact oneLine_wordsOf front w inFront
      · exact word.isToken.oneLine
      · exact IsToken.opening.oneLine
    rcases List.mem_append.mp inRows with inside | closing
    · exact Member.oneLine_rowsAll (fun member inMembers => ih member inMembers (depth + 1)) row inside
    · rw [List.mem_singleton.mp closing]
      refine oneLine_memberText ?_ (List.cons_ne_nil _ _) last
      intro w inCloser
      rcases List.mem_cons.mp inCloser with rfl | inBack
      · exact IsToken.closing.oneLine
      · exact oneLine_wordsOf back w inBack

namespace Definition

variable (definition : Definition)

theorem exists_rows : ∃ early, definition.rows = early ++ [⟨0, ['}']⟩] :=
  ⟨_ :: Member.rowsAll 1 definition.members, rfl⟩

theorem oneLine_rows : ∀ row ∈ definition.rows, row.text.OneLine := by
  intro row inRows
  rw [Definition.rows] at inRows
  rcases List.mem_cons.mp inRows with rfl | inRows
  · refine oneLine_unwords ?_ (by simp)
    intro w inHeader
    simp only [List.mem_cons, List.not_mem_nil, or_false] at inHeader
    rcases inHeader with rfl | rfl | rfl | rfl
    · exact definition.name.isToken.oneLine
    · exact ⟨by decide, by decide⟩
    · exact definition.word.isToken.oneLine
    · exact IsToken.opening.oneLine
  rcases List.mem_append.mp inRows with inside | closing
  · exact Member.oneLine_rowsAll (fun member _ => member.oneLine_rows 1) row inside
  · rw [List.mem_singleton.mp closing]
    exact IsToken.closing.oneLine

theorem oneLine_lines (width : Int) : ∀ line ∈ definition.lines width, Text.OneLine line := by
  intro line inLines
  obtain ⟨row, inRows, rfl⟩ := List.mem_map.mp inLines
  obtain ⟨some, single⟩ := definition.oneLine_rows row inRows
  constructor
  · simp [Row.line, some]
  · simp [Row.line, Text.spaces, single]

end Definition

/-! ## Assembly -/

theorem closing_line (width : Int) : Row.line width ⟨0, ['}']⟩ = ['}'] := by
  simp [Row.line, Text.spaces]

theorem rows_concat (width : Int) (last : Option Text) (rows : List Row) (row : Row)
    (later : List Piece) :
    Piece.rows width last ((rows ++ [row]).map Row.piece ++ later) =
      (rows ++ [row]).map (Row.line width) ++ Piece.rows width (some (row.line width)) later := by
  induction rows generalizing last with
  | nil => rfl
  | cons first others ih =>
    have step := ih (some (first.line width))
    exact congrArg (first.line width :: ·) step

/-- Where an empty line or none stands before it, a gap makes no line, so each definition is laid out
with one empty line behind it. -/
theorem rows_of_laid {nodes : List Node} {definitions : List Definition}
    (laid : Laid nodes definitions) (options : Options)
    (fits : ∀ definition ∈ definitions, definition.depth ≤ options.maxDepth) (width : Int) :
    ∃ pieces, Layout.layNodes options nodes = .ok pieces ∧
      ∀ last : Option Text, last.getD [] = [] → Piece.rows width last pieces =
        definitions.flatMap fun definition => definition.lines width ++ [[]] := by
  induction laid with
  | nil => exact ⟨[], rfl, fun _ _ => rfl⟩
  | blank isBlank _ ih =>
    obtain ⟨pieces, laidOut, rows⟩ := ih fits
    refine ⟨.gap :: pieces, ?_, ?_⟩
    · rw [Layout.layNodes, isBlank, laidOut]
      rfl
    · intro last empty
      rw [← rows last empty]
      cases last with
      | none => rfl
      | some row => exact if_pos empty
  | @definition node nodes definition definitions laysOut _ ih =>
    obtain ⟨pieces, laidOut, rows⟩ :=
      ih fun definition member => fits definition (List.mem_cons_of_mem _ member)
    have here := laysOut.of_depth (fits definition (List.mem_cons_self ..))
    refine ⟨definition.rows.map Row.piece ++ .gap :: pieces, ?_, ?_⟩
    · rw [Layout.layNodes, here, laidOut]
      simp [bind, Except.bind, pure, Except.pure]
    · intro last _
      obtain ⟨early, split⟩ := definition.exists_rows
      have behind : Piece.rows width (some ['}']) (.gap :: pieces) =
          [] :: definitions.flatMap fun definition => definition.lines width ++ [[]] := by
        rw [Piece.rows, if_neg (by decide), rows (some []) rfl]
      rw [List.flatMap_cons, Definition.lines, split, rows_concat, closing_line, behind,
        List.append_assoc]
      rfl

theorem trimRows_concat {rows : List Text} {first last : Text} (starts : rows.head? = some first)
    (ends : rows.getLast? = some last) (noBlank : Text.isBlankText first = false)
    (noBlank' : Text.isBlankText last = false) : Piece.trimRows (rows ++ [[]]) = rows := by
  cases rows with
  | nil => cases starts
  | cons row later =>
    cases starts
    have kept : (first :: later ++ [[]]).dropWhile Text.isBlankText = first :: later ++ [[]] :=
      List.dropWhile_cons_of_neg (by simp [noBlank])
    rw [Piece.trimRows, kept, List.reverse_append, List.reverse_singleton, List.singleton_append,
      List.dropWhile_cons_of_pos (by decide)]
    rw [← List.head?_reverse] at ends
    cases turned : (first :: later).reverse with
    | nil => simp at turned
    | cons row others =>
      rw [turned] at ends
      cases ends
      rw [List.dropWhile_cons_of_neg (by simp [noBlank']), ← turned, List.reverse_reverse]

theorem limitNewlines_ofLines {rows : List Text} (single : ∀ row ∈ rows, '\n' ∉ row)
    (apart : rows.IsChain fun row next => row ≠ [] ∨ next ≠ []) {run : Nat}
    (few : run ≤ 1 ∨ run ≤ 2 ∧ rows.head? ≠ some []) :
    Piece.limitNewlines run (Text.ofLines rows) = Text.ofLines rows := by
  induction rows generalizing run with
  | nil => rfl
  | cons row later ih =>
    have here := single row (List.mem_cons_self ..)
    cases later with
    | nil =>
      by_cases none : row = []
      · rw [none]
        rfl
      · have kept := Piece.limitNewlines_append here none run []
        simpa [Text.ofLines, List.intercalate, Piece.limitNewlines] using kept
    | cons next others =>
      rw [List.isChain_cons_cons] at apart
      have onward := fun run few => @ih (fun row member => single row (List.mem_cons_of_mem _ member))
        apart.2 run few
      rw [Text.ofLines_cons_cons]
      by_cases none : row = []
      · subst none
        have next_ne : next ≠ [] := by
          rcases apart.1 with absent | some
          · exact absurd rfl absent
          · exact some
        have small : run ≤ 1 := by simpa using few
        rw [List.nil_append, Piece.limitNewlines, if_pos rfl, if_pos (by omega),
          onward (run + 1) (.inr ⟨by omega, by simpa using next_ne⟩)]
      · rw [Piece.limitNewlines_append here none, Piece.limitNewlines, if_pos rfl, if_pos (by decide),
          onward 1 (.inl (Nat.le_refl 1))]

namespace Definition

variable (width : Int)

def page (definitions : List Definition) : List Text :=
  [[]].intercalate (definitions.map (lines width))

theorem page_single (definition : Definition) : page width [definition] = definition.lines width := by
  simp [page]

theorem page_cons (first second : Definition) (later : List Definition) :
    page width (first :: second :: later) =
      first.lines width ++ [] :: page width (second :: later) := by
  simp [page, List.intercalate]

theorem flatMap_lines_concat {definitions : List Definition} (some : definitions ≠ []) :
    definitions.flatMap (fun definition => definition.lines width ++ [[]]) =
      page width definitions ++ [[]] := by
  induction definitions with
  | nil => exact absurd rfl some
  | cons first later ih =>
    cases later with
    | nil => simp [page_single]
    | cons second others =>
      rw [List.flatMap_cons, ih (List.cons_ne_nil _ _), page_cons, List.append_assoc,
        List.append_assoc, List.singleton_append, List.cons_append]

theorem head?_page (definition : Definition) (later : List Definition) :
    ∃ line, (page width (definition :: later)).head? = some line ∧
      Text.isBlankText line = false := by
  refine ⟨Row.line width ⟨0, unwords [definition.name.text, Text.assignmentSign,
    definition.word.text, ['{']]⟩, ?_, ?_⟩
  · cases later with
    | nil =>
      rw [page_single]
      rfl
    | cons second others =>
      rw [page_cons]
      rfl
  · have brace : '{' ∈ Row.line width ⟨0, unwords [definition.name.text, Text.assignmentSign,
        definition.word.text, ['{']]⟩ := by
      simp [Row.line, unwords, List.intercalate]
    rw [Bool.eq_false_iff]
    intro blank
    exact absurd (List.all_eq_true.mp blank _ brace) (by decide)

theorem getLast?_lines (definition : Definition) : (definition.lines width).getLast? = some ['}'] := by
  obtain ⟨early, split⟩ := definition.exists_rows
  rw [lines, split, List.map_append, List.map_singleton, closing_line, List.getLast?_concat]

theorem getLast?_page {definitions : List Definition} (some : definitions ≠ []) :
    (page width definitions).getLast? = .some ['}'] := by
  induction definitions with
  | nil => exact absurd rfl some
  | cons first later ih =>
    cases later with
    | nil => rw [page_single, getLast?_lines]
    | cons second others =>
      have behind := ih (List.cons_ne_nil _ _)
      rw [page_cons, List.getLast?_append, List.getLast?_cons, behind]
      rfl

theorem newline_not_mem_page (definitions : List Definition) :
    ∀ row ∈ page width definitions, '\n' ∉ row := by
  induction definitions with
  | nil =>
    intro row member
    cases member
  | cons first later ih =>
    cases later with
    | nil =>
      rw [page_single]
      exact fun row member => (first.oneLine_lines width row member).2
    | cons second others =>
      intro row member
      rw [page_cons] at member
      rcases List.mem_append.mp member with here | there
      · exact (first.oneLine_lines width row here).2
      rcases List.mem_cons.mp there with rfl | there
      · exact List.not_mem_nil
      · exact ih row there

theorem isChain_page (definitions : List Definition) :
    (page width definitions).IsChain fun row next => row ≠ [] ∨ next ≠ [] := by
  have block : ∀ definition : Definition,
      (definition.lines width).IsChain fun row next => row ≠ [] ∨ next ≠ [] := by
    intro definition
    apply List.Pairwise.isChain
    apply List.pairwise_of_forall_mem_list
    intro row inLines _ _
    exact .inl (definition.oneLine_lines width row inLines).1
  induction definitions with
  | nil => exact .nil
  | cons first later ih =>
    cases later with
    | nil =>
      rw [page_single]
      exact block first
    | cons second others =>
      obtain ⟨line, starts, noBlank⟩ := head?_page width second others
      have some : line ≠ [] := by
        rintro rfl
        cases noBlank
      rw [page_cons, List.isChain_append, getLast?_lines]
      refine ⟨block first, ?_, ?_⟩
      · rw [List.isChain_cons, starts]
        refine ⟨?_, ih⟩
        intro row isHead
        cases isHead
        exact .inr some
      · intro row isLast next _
        cases isLast
        exact .inl (by decide)

theorem assemble_eq_layout {definitions : List Definition} (some : definitions ≠ [])
    {pieces : List Piece} (rows : Piece.rows width none pieces =
      definitions.flatMap fun definition => definition.lines width ++ [[]]) :
    Piece.assemble width pieces = layout width definitions := by
  obtain ⟨first, later, rfl⟩ := List.exists_cons_of_ne_nil some
  obtain ⟨line, starts, noBlank⟩ := head?_page width first later
  have kept := trimRows_concat starts (getLast?_page width some) noBlank (by decide)
  have limited := limitNewlines_ofLines (newline_not_mem_page width _)
    (isChain_page width (first :: later)) (.inl (Nat.zero_le 1))
  rw [flatMap_lines_concat width some] at rows
  rw [Piece.assemble, rows, kept, layout, ← page, ← limited]
  cases found : page width (first :: later) with
  | nil =>
    rw [found] at starts
    cases starts
  | cons row others => rfl

end Definition

/-! ## Sources that spell definitions -/

namespace Definition

theorem chars_of_spelledBy {definition : Definition} {text : Text}
    (spelled : definition.SpelledBy text) :
    ':' ∈ text ∧ ∀ c ∈ text, isMemberChar c = true ∨ c ∈ Text.assignmentSign := by
  obtain ⟨space, type, rfl, spaces, cut⟩ := (definition.spelledBy_iff text).mp spelled
  have tokenized := Text.Tokenized.of_eq cut definition.isToken
  refine ⟨by simp [Text.assignmentSign], ?_⟩
  intro c member
  simp only [List.mem_append] at member
  rcases member with inName | inSpace | inSign | inType
  · exact .inl (definition.name.isToken.isMemberChar c inName)
  · have same : c = ' ' := by simpa using List.all_eq_true.mp spaces c inSpace
    rw [same]
    exact .inl (by decide)
  · exact .inr inSign
  · exact .inl (tokenized.isMemberChar c inType)

theorem chars_of_spelled {definitions : List Definition} {source : Text}
    (spelled : Spelled definitions source) :
    ':' ∈ source ∧ ∀ c ∈ source, isMemberChar c = true ∨ c ∈ Text.assignmentSign := by
  have inGap : ∀ {gap : Text}, gap.all isGap = true → ∀ c ∈ gap, isMemberChar c = true := by
    intro gap gaps c member
    simp [isMemberChar, List.all_eq_true.mp gaps c member]
  induction spelled with
  | last gaps spelled =>
    obtain ⟨sign, chars⟩ := chars_of_spelledBy spelled
    refine ⟨List.mem_append_right _ sign, ?_⟩
    intro c member
    rcases List.mem_append.mp member with before | here
    · exact .inl (inGap gaps c before)
    · exact chars c here
  | next gaps spelled _ ih =>
    obtain ⟨sign, chars⟩ := chars_of_spelledBy spelled
    refine ⟨List.mem_append_right _ (List.mem_append_left _ sign), ?_⟩
    intro c member
    simp only [List.mem_append, List.mem_cons] at member
    rcases member with before | here | rfl | behind
    · exact .inl (inGap gaps c before)
    · exact chars c here
    · exact .inl (by decide)
    · exact ih.2 c behind

theorem ne_nil_of_spelled {definitions : List Definition} {source : Text}
    (spelled : Spelled definitions source) : definitions ≠ [] := by
  cases spelled with
  | last => exact List.cons_ne_nil _ _
  | next => exact List.cons_ne_nil _ _

theorem exists_ofText_of_spelled {definitions : List Definition} {source : Text} {options : Options}
    (spelled : Spelled definitions source)
    (fits : ∀ definition ∈ definitions, definition.depth ≤ options.maxDepth)
    (positive : 1 ≤ options.iterationFactor) :
    ∃ nodes, Laid nodes definitions ∧
      Node.ofText source options = .ok { kind := .root, name := "root".toList, children := nodes } := by
  -- No line is read twice, so the limit of lines is never reached.
  have room : ((0 : Nat) + (Text.lines source).length : Int) ≤
      (Limits.ofOptions options (Text.lines source).length).lines := by
    have scaled : 1 * ((Text.lines source).length + 1 : Int) ≤
        options.iterationFactor * ((Text.lines source).length + 1) :=
      Int.mul_le_mul_of_nonneg_right positive (by omega)
    simp only [Limits.ofOptions]
    omega
  have readAs : Reader.ReadAs (Limits.ofOptions options (Text.lines source).length) definitions
    (Text.lines source) := Reader.readAs_spelled spelled fits
  obtain ⟨nodes, after, laid, run⟩ := readAs 0 1 room
  exact ⟨nodes, laid, (Reader.ofText_eq_ok source options _).mpr ⟨nodes, after, run, rfl⟩⟩

theorem layout_of_spelled {definitions : List Definition} {source : Text} {options : Options}
    (spelled : Spelled definitions source)
    (fits : ∀ definition ∈ definitions, definition.depth ≤ options.maxDepth)
    (positive : 1 ≤ options.iterationFactor) :
    (Format.layout source options).result = layout options.indentWidth definitions := by
  obtain ⟨nodes, laid, tree⟩ := exists_ofText_of_spelled spelled fits positive
  obtain ⟨pieces, laidOut, rows⟩ := rows_of_laid laid options fits options.indentWidth
  have assembled := assemble_eq_layout options.indentWidth (ne_nil_of_spelled spelled) (rows none rfl)
  have written : Node.toText { kind := .root, name := "root".toList, children := nodes } options =
      .ok (layout options.indentWidth definitions) := by
    rw [Node.toText, bind_of_ok laidOut, assembled]
    rfl
  have parsed : (Node.read source options).result =
      .ok { kind := .root, name := "root".toList, children := nodes } := by
    rw [Node.read, tree]
  rw [Format.layout, parsed]
  simp only [bind, Except.bind, written]

theorem result_of_spelled {definitions : List Definition} {source : Text}
    {configuration : Configuration} (spelled : Spelled definitions source)
    (fits : ∀ definition ∈ definitions,
      definition.depth ≤ (Format.options configuration).result.maxDepth) :
    (Format.text source configuration).result =
      layout (Format.options configuration).result.indentWidth definitions := by
  obtain ⟨sign, chars⟩ := chars_of_spelled spelled
  have absent : ∀ c, isMemberChar c = false → c ∉ Text.assignmentSign → c ∉ source := by
    intro c foreign noSign member
    rcases chars c member with isMember | inSign
    · rw [foreign] at isMember
      cases isMember
    · exact noSign inSign
  have noBlank : Text.isBlankText source = false := by
    rw [Bool.eq_false_iff]
    intro blank
    exact absurd (List.all_eq_true.mp blank _ sign) (by decide)
  rw [Format.text, noBlank, if_neg (by decide)]
  simp only [Text.plainSource_of_not_mem (absent '\r' (by decide) (by decide))
    (absent '\t' (by decide) (by decide))]
  exact layout_of_spelled spelled fits (Format.options_positive configuration).2

end Definition

/-- However a text breaks and spaces the lexemes of definitions, it is formatted as their layout. -/
theorem format_eq_layout (definitions : List Definition) (source : Text)
    (configuration : Configuration) (spelled : Definition.Spelled definitions source)
    (fits : ∀ definition ∈ definitions,
      definition.depth ≤ (Format.options configuration).result.maxDepth) :
    (Format.text source configuration).result =
      Definition.layout (Format.options configuration).result.indentWidth definitions :=
  Definition.result_of_spelled spelled fits

/-- An inner group with broken lines and one without, and a definition behind them. -/
theorem format_eq_layout_two_definitions :
    let word (text : String) (valid : isAtom text.toList = true) : Atom := ⟨text.toList, valid⟩
    let first : Definition := ⟨word "T" (by decide), by decide, ⟨.sequence, by decide⟩,
      [.group [word "a" (by decide)] ⟨.choice, by decide⟩
        [.plain (word "x" (by decide)) [word "NULL" (by decide)], .plain ⟨ellipsis, by decide⟩ []]
        [word "OPTIONAL" (by decide)],
       .group [] ⟨.set, by decide⟩ [] []]⟩
    let second : Definition := ⟨word "U" (by decide), by decide, ⟨.enumerated, by decide⟩,
      [.plain (word "red" (by decide)) []]⟩
    let source : Text := "\n ".toList ++ (("T  ::=SEQUENCE\n\n\x7b a CHOICE \x7b x NULL,\n... \x7d\n" ++
      "OPTIONAL,SET\x7b\x7d\x7d").toList ++ '\n' :: ([] ++ "U ::=\n ENUMERATED \x7bred\x7d \n".toList))
    Definition.Spelled [first, second] source ∧
      (Format.text source .absent).result = ("T ::= SEQUENCE \x7b\n  a CHOICE \x7b\n    x NULL,\n" ++
        "    ...\n  \x7d OPTIONAL,\n  SET \x7b\n  \x7d\n\x7d\n\nU ::= ENUMERATED \x7b\n  red\n" ++
        "\x7d\n").toList := by
  intro word first second source
  have spelled : Definition.Spelled [first, second] source := by
    refine .next (by decide) ?_ (.last (by decide) ?_)
    · refine (first.spelledBy_iff _).mpr ⟨"  ".toList, ("SEQUENCE\n\n\x7b a CHOICE \x7b x NULL,\n" ++
        "... \x7d\nOPTIONAL,SET\x7b\x7d\x7d").toList, ?_, by decide, ?_⟩
      · decide +kernel
      · decide +kernel
    · refine (second.spelledBy_iff _).mpr ⟨" ".toList, "\n ENUMERATED \x7bred\x7d \n".toList, ?_,
        by decide, ?_⟩
      · decide +kernel
      · decide +kernel
  have fits : ∀ definition ∈ [first, second],
      definition.depth ≤ (Format.options .absent).result.maxDepth := by
    decide
  refine ⟨spelled, (format_eq_layout _ source .absent spelled fits).trans ?_⟩
  decide +kernel

end AsnLayout
