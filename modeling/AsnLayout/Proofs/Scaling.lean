import AsnLayout.Proofs.BlockLines
import AsnLayout.Proofs.Realignment
import AsnLayout.Proofs.Wrapping

/-!
# Scaling of indents

Which lines a formatted text has, and how deep each of them stands, does not depend on the width of
a level: with another width only the indents change.  This holds for the layout of a tree, for lines
that are only re-indented, and for which of the two is taken.
-/

set_option autoImplicit false

namespace AsnLayout

/-! ## Placed lines -/

/-- A line of a formatted text, for every width that a level may have. -/
structure PlacedLine where
  text : Text
  level : Nat := 0
  /-- Whether the line is kept as it is, without an indent. -/
  kept : Bool := false
  deriving DecidableEq, Repr

namespace PlacedLine

def row (placed : PlacedLine) (width : Int) : Text :=
  if placed.kept then placed.text else Text.spaces (placed.level * width) ++ placed.text

def Stems (lines : List Text) (placed : PlacedLine) : Prop :=
  placed.kept = true → Text.isBlankText placed.text = true ∨ placed.text ∈ lines

variable {width : Int} {placed : PlacedLine} {lines : List Text}

theorem stems_kept {text : Text} (stem : Text.isBlankText text = true ∨ text ∈ lines) :
    Stems lines { text, kept := true } := fun _ => stem

/-- A line at a level below zero has no indent. -/
theorem row_indented (positive : 1 ≤ width) (level : Int) (text : Text) :
    row { text, level := level.toNat } width = Piece.indented width level text := by
  have indent : ((level.toNat : Int) * width).toNat = (level * width).toNat := by
    rcases Int.le_total 0 level with deep | flat
    · rw [Int.toNat_of_nonneg deep]
    · have none : level * width ≤ 0 := Int.mul_nonpos_of_nonpos_of_nonneg flat (by omega)
      rw [Int.toNat_of_nonpos flat, Int.toNat_of_nonpos none]
      simp
  simp only [row, Piece.indented, Text.spaces, indent]
  rfl

theorem isBlankText_row (placed : PlacedLine) (width : Int) :
    Text.isBlankText (placed.row width) = Text.isBlankText placed.text := by
  unfold row
  split
  · rfl
  · rw [Text.isBlankText_append, Text.isBlankText_spaces, Bool.true_and]

def isEmpty (placed : PlacedLine) : Bool := placed.text = [] && (placed.kept || placed.level = 0)

theorem row_eq_nil_iff (positive : 1 ≤ width) : placed.row width = [] ↔ placed.isEmpty = true := by
  obtain ⟨text, level, kept⟩ := placed
  have indent : level * width ≤ 0 ↔ level = 0 := by
    refine ⟨fun flat => ?_, fun none => by simp [none]⟩
    by_contra deep
    have some : 0 < (level : Int) * width := Int.mul_pos (by omega) (by omega)
    omega
  cases kept <;> simp [row, isEmpty, Text.spaces, indent, and_comm]

end PlacedLine

def Scaled (lines : List Text) (rows : Int → List Text) : Prop :=
  ∃ placed : List PlacedLine, (∀ line ∈ placed, line.Stems lines) ∧
    ∀ width, 1 ≤ width → rows width = placed.map (·.row width)

namespace Scaled

variable {lines : List Text} {rows rows' : Int → List Text}

theorem nil : Scaled lines fun _ => [] := ⟨[], by simp, fun _ _ => rfl⟩

theorem cons (scaled : Scaled lines rows) {line : PlacedLine} (stem : line.Stems lines) :
    Scaled lines fun width => line.row width :: rows width := by
  obtain ⟨placed, all, same⟩ := scaled
  exact ⟨line :: placed, List.forall_mem_cons.mpr ⟨stem, all⟩,
    fun width positive => congrArg (line.row width :: ·) (same width positive)⟩

theorem append (first : Scaled lines rows) (second : Scaled lines rows') :
    Scaled lines fun width => rows width ++ rows' width := by
  obtain ⟨placed, all, same⟩ := first
  obtain ⟨placed', all', same'⟩ := second
  exact ⟨placed ++ placed', List.forall_mem_append.mpr ⟨all, all'⟩,
    fun width positive => by simp only [same width positive, same' width positive, List.map_append]⟩

theorem congr (scaled : Scaled lines rows)
    (equal : ∀ width, 1 ≤ width → rows' width = rows width) : Scaled lines rows' := by
  obtain ⟨placed, all, same⟩ := scaled
  exact ⟨placed, all, fun width positive => (equal width positive).trans (same width positive)⟩

theorem kept {text : Text} (stem : Text.isBlankText text = true ∨ text ∈ lines) :
    Scaled lines fun _ => [text] := nil.cons (PlacedLine.stems_kept stem)

end Scaled

/-! ## Layouts of trees -/

namespace Piece

variable {lines : List Text} {pieces : List Piece} {rows : Int → List Text}

theorem scaled_rows (stems : ∀ piece ∈ pieces, piece.Stems lines) (last : Option PlacedLine) :
    Scaled lines fun width => Piece.rows width (last.map (·.row width)) pieces := by
  induction pieces generalizing last with
  | nil => exact .nil
  | cons piece later ih =>
    obtain ⟨here, there⟩ := List.forall_mem_cons.mp stems
    cases piece with
    | line level text =>
      have stem : PlacedLine.Stems lines { text, level := level.toNat } := nofun
      refine ((ih there (some { text, level := level.toNat })).cons stem).congr
        fun width positive => ?_
      simp only [Piece.rows, ← PlacedLine.row_indented positive, Option.map_some]
    | verbatim text =>
      exact (ih there (some { text, kept := true })).cons (PlacedLine.stems_kept (.inr here))
    | gap =>
      cases last with
      | none => exact ih there none
      | some line =>
        cases empty : line.isEmpty with
        | true =>
          refine (ih there (some line)).congr fun width positive => ?_
          exact if_pos ((PlacedLine.row_eq_nil_iff positive).mpr empty)
        | false =>
          have blank : PlacedLine.Stems lines { text := [], kept := true } :=
            PlacedLine.stems_kept (.inl rfl)
          refine ((ih there (some { text := [], kept := true })).cons blank).congr
            fun width positive => if_neg fun none => ?_
          rw [PlacedLine.row_eq_nil_iff positive, empty] at none
          cases none

theorem scaled_trimRows (scaled : Scaled lines rows) :
    Scaled lines fun width => trimRows (rows width) := by
  obtain ⟨placed, all, same⟩ := scaled
  have blank : ∀ width : Int,
      Text.isBlankText ∘ (PlacedLine.row · width) = Text.isBlankText ∘ PlacedLine.text :=
    fun width => funext fun line => line.isBlankText_row width
  let kept := placed.dropWhile (Text.isBlankText ∘ PlacedLine.text)
  refine ⟨kept.rdropWhile (Text.isBlankText ∘ PlacedLine.text), fun line member => all line ?_,
    fun width positive => ?_⟩
  · exact (List.dropWhile_suffix _).subset ((List.rdropWhile_prefix _ _).subset member)
  · simp only [same width positive, trimRows, List.dropWhile_map, ← List.map_reverse, blank]
    rfl

theorem scaled_limitLines (scaled : Scaled lines rows) (run : Nat) :
    Scaled lines fun width => limitLines run (rows width) := by
  obtain ⟨placed, all, same⟩ := scaled
  suffices Scaled lines fun width => limitLines run (placed.map (·.row width)) from
    this.congr fun width positive => by rw [same width positive]
  clear same
  induction placed generalizing run with
  | nil => exact .nil
  | cons first later ih =>
    obtain ⟨stem, there⟩ := List.forall_mem_cons.mp all
    cases later with
    | nil => exact Scaled.nil.cons stem
    | cons next others =>
      cases empty : first.isEmpty with
      | true =>
        by_cases few : run < 3
        · refine ((ih (run + 1) there).cons stem).congr fun width positive => ?_
          exact (if_pos ((PlacedLine.row_eq_nil_iff positive).mpr empty)).trans (if_pos few)
        · refine (ih run there).congr fun width positive => ?_
          exact (if_pos ((PlacedLine.row_eq_nil_iff positive).mpr empty)).trans (if_neg few)
      | false =>
        refine ((ih 1 there).cons stem).congr fun width positive => if_neg fun none => ?_
        rw [PlacedLine.row_eq_nil_iff positive, empty] at none
        cases none

theorem scaled_assemble {blocks : Bool} (visible : ∀ piece ∈ pieces, piece.Visible blocks)
    (stems : ∀ piece ∈ pieces, piece.Stems lines) :
    Scaled lines fun width => Text.lines (assemble width pieces) := by
  have last : Scaled lines fun _ => [([] : Text)] := .kept (.inl rfl)
  refine ((scaled_limitLines (scaled_trimRows (scaled_rows stems none)) 0).append last).congr
    fun width _ => ?_
  rw [lines_assemble, flatMap_lines_trimRows visible]
  rfl

end Piece

/-! ## Re-indented lines -/

namespace Realign

variable {lines : List Text}

def LineScales (lines : List Text) (depth : Depth) (line : Text) : Prop :=
  ∃ placed after, PlacedLine.Stems lines placed ∧
    after.inBlock = LineKind.blockAfter depth.inBlock line ∧
    ∀ width : Int, 1 ≤ width → Realign.line width.toNat depth line = (placed.row width, after)

variable {depth : Depth} {line : Text}

theorem lineScales_of_kept {text : Text} (stop : Nat)
    (stem : Text.isBlankText text = true ∨ text ∈ lines)
    (same : ∀ width, Realign.line width depth line =
      (text, ⟨LineKind.blockAfter depth.inBlock line, stop⟩)) : LineScales lines depth line :=
  ⟨{ text, kept := true }, ⟨LineKind.blockAfter depth.inBlock line, stop⟩,
    PlacedLine.stems_kept stem, rfl, fun _ _ => same _⟩

theorem lineScales_of_indented (text : Text) (start stop : Nat)
    (same : ∀ width : Nat, Realign.line width depth line =
      (Text.spaces (start * width) ++ text, ⟨LineKind.blockAfter depth.inBlock line, stop⟩)) :
    LineScales lines depth line := by
  refine ⟨{ text, level := start }, ⟨LineKind.blockAfter depth.inBlock line, stop⟩, nofun, rfl,
    fun width positive => ?_⟩
  rw [same, Int.toNat_of_nonneg (by omega)]
  rfl

/-- A line inside of a block comment is kept, a blank one is emptied, and any other is indented. -/
theorem lineScales (stem : depth.inBlock = true → line ∈ lines) : LineScales lines depth line := by
  obtain ⟨inBlock, count⟩ := depth
  cases inBlock with
  | true =>
    refine lineScales_of_kept count (.inr (stem rfl)) fun width => ?_
    simp only [Realign.line, LineKind.ofLine, Bool.true_or, if_true, ite_self]
  | false =>
    by_cases blank : Text.trim line = []
    · have empty : Text.isBlankText [] = true := rfl
      exact lineScales_of_kept count (.inl empty) fun width => if_pos blank
    by_cases remark : LineKind.ofLine false line = .comment
    · refine lineScales_of_indented (Text.trim line) count count fun width => ?_
      simp only [Realign.line, if_neg blank, remark]
      rfl
    · let depths := codeDepths (LineKind.ofLine false line)
        (Text.codeLine (Text.trim line)).code count
      refine lineScales_of_indented (Text.trim line) depths.1 depths.2 fun width => ?_
      simp only [Realign.line, if_neg blank]
      rfl

theorem scaled_lines {given : List Text} {depth : Depth}
    (stem : Text.blockLines depth.inBlock given ⊆ lines) :
    Scaled lines fun width => Realign.lines width.toNat depth given := by
  induction given generalizing depth with
  | nil => exact .nil
  | cons first later ih =>
    obtain ⟨placed, after, stems, state, same⟩ := lineScales (Text.mem_of_blockLines stem)
    have behind := Text.blockLines_tail stem
    rw [← state] at behind
    refine ((ih behind).cons stems).congr fun width positive => ?_
    rw [Realign.lines, same width positive]

end Realign

/-! ## Formatted texts -/

theorem Text.plainSource_of_tabFree {source : Text} (noTab : '\t' ∉ source) (width : Int) :
    plainSource source width = unifyNewlines source := by
  have absent : '\t' ∉ unifyNewlines source := fun member =>
    (mem_unifyNewlines member).elim (by decide) fun inSource => noTab inSource.1
  have same : ∀ line ∈ lines (unifyNewlines source), tabsToSpaces width.toNat 0 line = line :=
    fun line member => tabsToSpaces_of_not_mem
      (fun tab => absent ((infix_of_mem_lines _ _ member).subset tab)) _ _
  rw [plainSource, List.map_congr_left same, List.map_id', ofLines_lines]

namespace Format

variable {plain : Options}

theorem realigned_mem_iff (source : Text) (options : Options) (fault : Fault) :
    .realigned fault ∈ (layout source options).notices ↔
      treeLayout source options = .error fault := by
  have unread := realigned_not_mem_read source options fault
  cases laid : treeLayout source options with
  | ok out => simp [(layout_of_ok laid).2]
  | error found =>
    rw [treeLayout, ← result_read] at laid
    simp only [layout, laid]
    simp [unread, eq_comm]

/-- With no long lines wrapped, the width of a level has no say in whether there is a layout, nor in
the pieces of which it is made. -/
theorem treeLayout_cases (off : plain.wrapLongLines = false) (source : Text) :
    (∃ fault, ∀ width, treeLayout source { plain with indentWidth := width } = .error fault) ∨
      ∃ root pieces, Node.ofText source plain = .ok root ∧
        Layout.layNodes plain root.children = .ok pieces ∧
        ∀ width, treeLayout source { plain with indentWidth := width } =
          .ok (Piece.assemble width pieces) := by
  have read : ∀ width, Node.ofText source { plain with indentWidth := width } =
      Node.ofText source plain := fun _ => rfl
  have lays : ∀ width nodes, Layout.layNodes { plain with indentWidth := width } nodes =
      Layout.layNodes plain nodes := fun _ => Layout.layNodes_of_plain off off rfl
  simp only [treeLayout, Node.toText, read, lays]
  cases parsed : Node.ofText source plain with
  | error fault => exact .inl ⟨fault, fun _ => rfl⟩
  | ok root =>
    simp only [bind, Except.bind]
    cases laid : Layout.layNodes plain root.children with
    | error fault => exact .inl ⟨fault, fun _ => rfl⟩
    | ok pieces => exact .inr ⟨root, pieces, rfl, laid, fun _ => rfl⟩

theorem scaled_layout (off : plain.wrapLongLines = false) (source : Text) :
    ∃ path : Option Fault, (∀ width fault,
      .realigned fault ∈ (layout source { plain with indentWidth := width }).notices ↔
        path = some fault) ∧
      Scaled (Text.blockLines false (Text.lines source)) fun width =>
        Text.lines (layout source { plain with indentWidth := width }).result := by
  simp only [realigned_mem_iff]
  rcases treeLayout_cases off source with ⟨fault, failed⟩ | ⟨root, pieces, parsed, laid, whole⟩
  · refine ⟨some fault, fun width other => by simp [failed], ?_⟩
    have stem : Text.blockLines ({} : Realign.Depth).inBlock (Text.lines source) ⊆
        Text.blockLines false (Text.lines source) := List.Subset.refl _
    refine (Realign.scaled_lines stem).congr fun width positive => ?_
    rw [(layout_of_error (failed width)).1, Text.lines_realign, Int.max_eq_right positive]
  · refine ⟨none, fun width other => by simp [whole], ?_⟩
    have visible := visible_layNodes_ofText parsed laid
    have stems := Layout.stems_layNodes (stems_ofText parsed) laid
    refine (Piece.scaled_assemble visible stems).congr fun width _ => ?_
    rw [(layout_of_ok (whole width)).1]

theorem realigned_not_mem_options (configuration : Configuration) (fault : Fault) :
    Notice.realigned fault ∉ (options configuration).notices := by
  unfold options Configuration.settle
  cases configuration.draft? <;> simp

end Format

/-- The lines that a source without tabs is formatted to, and whether and why they are only
re-indented, are the same for every width of a level, but for the indents; a line that is not
indented is blank or belongs to a block comment of the source. -/
theorem format_scales (source : Text) (plain : Options) (noTab : '\t' ∉ source)
    (off : plain.wrapLongLines = false) :
    ∃ (placed : List PlacedLine) (path : Option Fault),
      (∀ line ∈ placed, line.kept = true → Text.isBlankText line.text = true ∨
        line.text ∈ Text.blockLines false (Text.lines (Text.unifyNewlines source))) ∧
      ∀ (configuration : Configuration) (width : Int),
        (Format.options configuration).result = { plain with indentWidth := width } →
        Text.lines (Format.text source configuration).result = placed.map (·.row width) ∧
        ∀ fault, .realigned fault ∈ (Format.text source configuration).notices ↔
          path = some fault := by
  cases blank : Text.isBlankText source with
  | true =>
    refine ⟨[{ text := [], kept := true }], none, fun line member _ => ?_, fun _ width _ => ?_⟩
    · rw [List.mem_singleton.mp member]
      exact .inl rfl
    · simp [Format.text, blank, Text.lines, PlacedLine.row]
  | false =>
    obtain ⟨path, notices, placed, stems, same⟩ :=
      Format.scaled_layout off (Text.unifyNewlines source)
    refine ⟨placed, path, stems, fun configuration width settled => ?_⟩
    have positive : 1 ≤ width := by
      have found := (Format.options_positive configuration).1
      rwa [settled] at found
    simp only [Format.text, blank, Bool.false_eq_true, if_false, settled,
      Text.plainSource_of_tabFree noTab, List.mem_append,
      Format.realigned_not_mem_options, false_or]
    exact ⟨same width positive, notices width⟩

/-- A group in a group, with a block comment of two lines. -/
theorem format_scales_block_comment :
    let source : Text :=
      "A ::= SET \x7b\n-* a\n  b *-\nx NULL,\n  y SET \x7b\n z NULL \x7d\n\x7d".toList
    let narrow : Configuration := .typed { indentWidth := .int 2 }
    let wide : Configuration := .typed { indentWidth := .int 5 }
    (∃ placed : List PlacedLine,
      Text.lines (Format.text source narrow).result = placed.map (·.row 2) ∧
      Text.lines (Format.text source wide).result = placed.map (·.row 5)) ∧
      ["  -* a".toList, "  b *-".toList, "  x NULL,".toList] <:+:
        Text.lines (Format.text source narrow).result ∧
      ["     -* a".toList, "  b *-".toList, "     x NULL,".toList] <:+:
        Text.lines (Format.text source wide).result := by
  intro source narrow wide
  obtain ⟨placed, path, -, same⟩ := format_scales source {} (by decide) rfl
  exact ⟨⟨placed, (same narrow 2 rfl).1, (same wide 5 rfl).1⟩, by decide +kernel, by decide +kernel⟩

end AsnLayout
