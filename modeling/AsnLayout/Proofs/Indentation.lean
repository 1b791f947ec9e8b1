import AsnLayout.Proofs.CommentLayout
import AsnLayout.Proofs.Lockstep
import AsnLayout.Proofs.Outline

/-!
# Indentation of a source

Blank lines and the indents of a source do not matter: sources that differ in nothing else are
formatted to the same lines, blank ones apart.  One of them is only re-indented exactly if the other
is.
-/

set_option autoImplicit false

namespace AsnLayout

/-! ## Sources up to indentation -/

def Sieve.blanks : Sieve where
  drops := Text.isBlankText
  blank blank := blank
  trim t := Text.isBlankText_trim t
  lines blank member := List.all_eq_true.mpr fun c inLine =>
    List.all_eq_true.mp blank c ((Text.infix_of_mem_lines _ _ member).subset inLine)

/-- Lines without the blank ones and without their indents, `inBlock` telling whether a block
comment is open before them.  A line of a block comment behind its first keeps its indent. -/
def Text.bareLines (inBlock : Bool) : List Text → List Text
  | [] => []
  | line :: rest =>
    if isBlankText line then bareLines inBlock rest
    else (if inBlock then line else trimStart line) ::
      bareLines (LineKind.blockAfter inBlock line) rest

theorem Text.sameLine_of_bare {inBlock : Bool} {line line' : Text}
    (same : (if inBlock then line else trimStart line) =
      if inBlock then line' else trimStart line') :
    SameLine .blanks inBlock line line' := by
  cases inBlock with
  | true =>
    have same : line = line' := same
    exact .of_trimStart (congrArg trimStart same) fun _ => same
  | false => exact .of_trimStart same fun block => by cases block

theorem SameLines.of_bareLines {inBlock : Bool} {lines lines' : List Text} (due : Due)
    (same : Text.bareLines inBlock lines = Text.bareLines inBlock lines') :
    SameLines .blanks inBlock due lines lines' := by
  induction lines generalizing inBlock due lines' with
  | nil =>
    induction lines' with
    | nil => exact .done
    | cons line' rest' ih =>
      rw [Text.bareLines, Text.bareLines] at same
      split at same
      · rename_i blank
        exact .right_blank blank (ih same)
      · cases same
  | cons line rest ih =>
    cases blank : Text.isBlankText line with
    | true =>
      rw [Text.bareLines, if_pos blank] at same
      exact .left_blank blank (ih due same)
    | false =>
      rw [Text.bareLines, if_neg (by simp [blank])] at same
      induction lines' with
      | nil => cases same
      | cons line' rest' ih' =>
        rw [Text.bareLines] at same
        by_cases blank' : Text.isBlankText line' = true
        · rw [if_pos blank'] at same
          exact .right_blank blank' (ih' same)
        · rw [if_neg blank'] at same
          obtain ⟨first, later⟩ := List.cons.inj same
          have alike := Text.sameLine_of_bare first
          rw [← alike.blockAfter] at later
          exact .both blank alike (ih _ later)

theorem sameLines_of_bareLines {lines lines' : List Text}
    (same : Text.bareLines false lines = Text.bareLines false lines') :
    SameLines .blanks false .nothing lines lines' :=
  .of_bareLines .nothing same

theorem SameLines.all_isBlankText {inBlock : Bool} {due : Due} {lines lines' : List Text}
    (same : SameLines .blanks inBlock due lines lines') :
    lines.all Text.isBlankText = lines'.all Text.isBlankText := by
  induction same with
  | done => rfl
  | left idle ahead later ih =>
    have blank : Text.isBlankText _ = true := idle.dropped
    rw [List.all_cons, blank, Bool.true_and, ih]
  | right idle ahead later ih =>
    have blank : Text.isBlankText _ = true := idle.dropped
    rw [List.all_cons, blank, Bool.true_and, ih]
  | both seen same later ih =>
    rw [List.all_cons, List.all_cons, seen, ← same.isBlankText, seen, Bool.false_and,
      Bool.false_and]

theorem Text.isBlankText_eq_all_lines (t : Text) : isBlankText t = (lines t).all isBlankText := by
  induction t with
  | nil => rfl
  | cons c rest ih =>
    rw [lines_cons]
    split
    · rename_i newline
      subst newline
      rw [List.all_cons, ← ih]
      rfl
    · obtain ⟨first, later, cut⟩ := exists_lines rest
      rw [cut] at ih ⊢
      rw [List.modifyHead_cons, List.all_cons]
      simp only [isBlankText, List.all_cons] at ih ⊢
      rw [ih, Bool.and_assoc]

/-! ## Re-indented lines -/

theorem Text.isBlankText_spaces (width : Int) : isBlankText (spaces width) = true := by
  simp only [isBlankText, spaces, List.all_replicate]
  split
  · rfl
  · decide

namespace Realign

variable {sieve : Sieve}

theorem inBlock_line (width : Nat) (depth : Depth) (line : Text) :
    (Realign.line width depth line).2.inBlock = LineKind.blockAfter depth.inBlock line := by
  unfold Realign.line
  simp only
  split
  · rfl
  · split <;> rfl

theorem trim_line (width : Nat) (depth : Depth) (line : Text) :
    Text.trim (Realign.line width depth line).1 = Text.trim line := by
  have indented : ∀ level : Int,
      Text.trim (Text.spaces level ++ Text.trim line) = Text.trim line := by
    intro level
    rw [Text.trim_append_of_blank (Text.isBlankText_spaces level), Text.trim_trim]
  unfold Realign.line
  simp only
  split
  · rename_i empty
    split
    · rfl
    · exact empty.symm
  · split
    · split
      · rfl
      · exact indented _
    · exact indented _

theorem line_of_sameLine {line line' : Text} (width : Nat) {depth : Depth}
    (same : Text.SameLine sieve depth.inBlock line line') :
    sieve.keptLines (Realign.line width depth line).1 =
        sieve.keptLines (Realign.line width depth line').1 ∧
      (Realign.line width depth line).2 = (Realign.line width depth line').2 := by
  constructor
  · rcases same.kept with ⟨dropped, dropped'⟩ | ⟨-, kept⟩
    · rw [← sieve.drops_of_trim (trim_line width depth _)] at dropped dropped'
      rw [Sieve.keptLines_of_drops dropped, Sieve.keptLines_of_drops dropped']
    · unfold Realign.line
      rw [same.trim, same.blockAfter, same.ofLine]
      cases block : depth.inBlock with
      | true => rw [kept block]
      | false => rfl
  · unfold Realign.line
    rw [same.trim, same.blockAfter, same.ofLine]
    simp only
    split
    · rfl
    · split <;> rfl

theorem line_of_idle {line : Text} (width : Nat) {depth : Depth}
    (idle : Text.Idle sieve depth.inBlock line) :
    sieve.keptLines (Realign.line width depth line).1 = [] ∧
      (Realign.line width depth line).2 = depth := by
  constructor
  · refine Sieve.keptLines_of_drops ?_
    rw [sieve.drops_of_trim (trim_line width depth line), idle.dropped]
  · have kind := idle.ofLine
    have block := idle.block
    unfold Realign.line
    simp only [block]
    split
    · rfl
    · rename_i filled
      split at kind
      · rw [kind]
      · rename_i code
        have blank := idle.isBlankText (Bool.eq_false_iff.mpr code)
        exact absurd (Text.trim_of_blank blank) filled

theorem flatMap_keptLines {inBlock : Bool} {due : Due} {lines lines' : List Text}
    (same : SameLines sieve inBlock due lines lines') (width : Nat) (depth : Depth)
    (state : depth.inBlock = inBlock) :
    (Realign.lines width depth lines).flatMap sieve.keptLines =
      (Realign.lines width depth lines').flatMap sieve.keptLines := by
  induction same generalizing depth with
  | done => rfl
  | left idle ahead later ih =>
    subst state
    obtain ⟨none, stays⟩ := line_of_idle width idle
    rw [Realign.lines, List.flatMap_cons, none, stays]
    exact ih depth rfl
  | right idle ahead later ih =>
    subst state
    obtain ⟨none, stays⟩ := line_of_idle width idle
    rw [@Realign.lines.eq_2, List.flatMap_cons, none, stays]
    exact ih depth rfl
  | both seen same later ih =>
    subst state
    obtain ⟨row, behind⟩ := line_of_sameLine width same
    rw [Realign.lines, Realign.lines, List.flatMap_cons, List.flatMap_cons, ← behind, row,
      ih _ (inBlock_line width depth _)]

end Realign

theorem Sieve.keptLines_realign {sieve : Sieve} {source source' : Text} {due : Due}
    (same : SameLines sieve false due (Text.lines source) (Text.lines source')) (width : Int) :
    sieve.keptLines (Text.realign source width) = sieve.keptLines (Text.realign source' width) := by
  have cut : ∀ source : Text, sieve.keptLines (Text.realign source width) =
      (Realign.lines (max 1 width).toNat {} (Text.lines source)).flatMap sieve.keptLines := by
    intro source
    have filled : Realign.lines (max 1 width).toNat {} (Text.lines source) ≠ [] := by
      rw [← List.length_pos_iff, Realign.length_lines, List.length_pos_iff]
      exact Text.lines_ne_nil source
    rw [keptLines, Text.realign, Text.lines_ofLines_eq_flatMap filled, List.filter_flatMap]
    rfl
  rw [cut, cut, Realign.flatMap_keptLines same _ _ rfl]

/-! ## Trees and layouts -/

theorem Node.ofText_alike {sieve : Sieve} {due : Due} {source source' : Text} {options : Options}
    {root : Node} (positive : 1 ≤ options.iterationFactor)
    (same : SameLines sieve false due (Text.lines source) (Text.lines source'))
    (read : Node.ofText source options = .ok root) :
    ∃ root', Node.ofText source' options = .ok root' ∧
      AlikeAll sieve root.children root'.children := by
  obtain ⟨nodes, after, run, rfl⟩ := (Reader.ofText_eq_ok ..).mp read
  have inStep : Reader.InStep sieve (Limits.ofOptions options (Text.lines source').length) due {}
      (Text.lines source) {} (Text.lines source') := by
    refine ⟨⟨rfl, rfl, rfl⟩, same, ?_⟩
    have more := Int.mul_le_mul_of_nonneg_right positive
      (show (0 : Int) ≤ (Text.lines source').length + 1 by omega)
    simp only [Limits.ofOptions]
    omega
  have depth : (Limits.ofOptions options (Text.lines source).length).depth =
      (Limits.ofOptions options (Text.lines source').length).depth := rfl
  obtain ⟨nodes', after', run', cores⟩ := inStep.itemsRun depth rfl rfl 1 run
  exact ⟨_, (Reader.ofText_eq_ok ..).mpr ⟨nodes', after', run', rfl⟩, alikeAll_of_coreAll cores⟩

theorem Node.toText_alike {sieve : Sieve} {root root' : Node} {options : Options} {out : Text}
    (alike : AlikeAll sieve root.children root'.children) (laid : root.toText options = .ok out) :
    ∃ out', root'.toText options = .ok out' ∧ sieve.keptLines out = sieve.keptLines out' := by
  obtain ⟨pieces, lays, rfl⟩ := Layout.text_eq_ok.mp laid
  have outlines : Layout.outline sieve (Layout.layNodes options root.children) =
      Layout.outline sieve (Layout.layNodes options root'.children) :=
    Layout.outline_layNodes alike
  cases lays' : Layout.layNodes options root'.children with
  | error fault =>
    rw [lays, lays'] at outlines
    cases outlines
  | ok pieces' =>
    rw [lays, lays', Layout.outline_ok, Layout.outline_ok, Option.some.injEq] at outlines
    refine ⟨_, Layout.text_eq_ok.mpr ⟨pieces', lays', rfl⟩, ?_⟩
    rw [Piece.keptLines_assemble, Piece.keptLines_assemble, outlines]

namespace Format

def treeLayout (source : Text) (options : Options) : Except Fault Text :=
  Node.ofText source options >>= (·.toText options)

theorem result_read (source : Text) (options : Options) :
    (Node.read source options).result = Node.ofText source options := by
  unfold Node.read
  split
  · rename_i found
    exact found.symm
  · rename_i found
    exact found.symm

theorem realigned_not_mem_read (source : Text) (options : Options) (fault : Fault) :
    Notice.realigned fault ∉ (Node.read source options).notices := by
  unfold Node.read
  split <;> simp

theorem layout_of_ok {source out : Text} {options : Options}
    (laid : treeLayout source options = .ok out) :
    (layout source options).result = out ∧
      ∀ fault, Notice.realigned fault ∉ (layout source options).notices := by
  rw [treeLayout, ← result_read] at laid
  simp only [layout, laid]
  exact ⟨trivial, realigned_not_mem_read source options⟩

theorem layout_of_error {source : Text} {options : Options} {fault : Fault}
    (failed : treeLayout source options = .error fault) :
    (layout source options).result = Text.realign source options.indentWidth ∧
      Notice.realigned fault ∈ (layout source options).notices := by
  rw [treeLayout, ← result_read] at failed
  simp only [layout, failed]
  exact ⟨trivial, List.mem_append_right _ (List.mem_singleton_self _)⟩

theorem treeLayout_alike {sieve : Sieve} {due : Due} {source source' out : Text}
    {options : Options} (positive : 1 ≤ options.iterationFactor)
    (same : SameLines sieve false due (Text.lines source) (Text.lines source'))
    (laid : treeLayout source options = .ok out) :
    ∃ out', treeLayout source' options = .ok out' ∧
      sieve.keptLines out = sieve.keptLines out' := by
  obtain ⟨root, read, lays⟩ := (bind_eq_ok ..).mp laid
  obtain ⟨root', read', alike⟩ := Node.ofText_alike positive same read
  obtain ⟨out', lays', seen⟩ := Node.toText_alike alike lays
  exact ⟨out', (bind_eq_ok ..).mpr ⟨root', read', lays'⟩, seen⟩

theorem layout_alike {sieve : Sieve} {due : Due} {source source' : Text} {options : Options}
    (positive : 1 ≤ options.iterationFactor)
    (same : SameLines sieve false due (Text.lines source) (Text.lines source')) :
    sieve.keptLines (layout source options).result =
        sieve.keptLines (layout source' options).result ∧
      ((∃ fault, Notice.realigned fault ∈ (layout source options).notices) ↔
        ∃ fault, Notice.realigned fault ∈ (layout source' options).notices) := by
  cases laid : treeLayout source options with
  | ok out =>
    obtain ⟨out', laid', seen⟩ := treeLayout_alike positive same laid
    obtain ⟨result, none⟩ := layout_of_ok laid
    obtain ⟨result', none'⟩ := layout_of_ok laid'
    rw [result, result']
    refine ⟨seen, ?_⟩
    simp only [none, none', exists_false]
  | error fault =>
    cases laid' : treeLayout source' options with
    | ok out' =>
      obtain ⟨out, again, -⟩ := treeLayout_alike positive same.symm laid'
      rw [laid] at again
      cases again
    | error fault' =>
      obtain ⟨result, found⟩ := layout_of_error laid
      obtain ⟨result', found'⟩ := layout_of_error laid'
      rw [result, result']
      exact ⟨Sieve.keptLines_realign same _, fun _ => ⟨fault', found'⟩, fun _ => ⟨fault, found⟩⟩

end Format

/-- Sources without tabs and carriage returns that differ in blank lines and indents only are
formatted to the same lines, blank ones apart, and either both are only re-indented or none is. -/
theorem seenLines_format_of_bareLines (source source' : Text) (configuration : Configuration)
    (noReturn : '\r' ∉ source) (noTab : '\t' ∉ source) (noReturn' : '\r' ∉ source')
    (noTab' : '\t' ∉ source')
    (same : Text.bareLines false (Text.lines source) = Text.bareLines false (Text.lines source')) :
    Text.seenLines (Format.text source configuration).result =
        Text.seenLines (Format.text source' configuration).result ∧
      ((∃ fault, Notice.realigned fault ∈ (Format.text source configuration).notices) ↔
        ∃ fault, Notice.realigned fault ∈ (Format.text source' configuration).notices) := by
  have lines := sameLines_of_bareLines same
  have blank : Text.isBlankText source = Text.isBlankText source' := by
    rw [Text.isBlankText_eq_all_lines, Text.isBlankText_eq_all_lines, lines.all_isBlankText]
  unfold Format.text
  simp only [blank, Text.plainSource_of_not_mem noReturn noTab,
    Text.plainSource_of_not_mem noReturn' noTab']
  split
  · exact ⟨rfl, Iff.rfl⟩
  · obtain ⟨seen, both⟩ :=
      Format.layout_alike (Format.options_positive configuration).2 lines
    refine ⟨seen, ?_⟩
    simp only [List.mem_append, exists_or, both]

/-- A nested group with a block comment in it, and the same lines moved apart. -/
theorem seenLines_format_of_bareLines_block_comment :
    let source : Text :=
      "A ::= SET \x7b\n-* a\n  b *-\nx NULL,\n  y SET \x7b\n z NULL \x7d\n\x7d".toList
    let source' : Text :=
      "\n    A ::= SET \x7b\n  -* a\n\n  b *-\n \n   x NULL,\ny SET \x7b\n\nz NULL \x7d\n \x7d\n".toList
    source ≠ source' ∧
      Text.bareLines false (Text.lines source) = Text.bareLines false (Text.lines source') ∧
      Text.seenLines (Format.text source .absent).result =
        Text.seenLines (Format.text source' .absent).result := by
  intro source source'
  have same : Text.bareLines false (Text.lines source) =
      Text.bareLines false (Text.lines source') := by
    decide +kernel
  exact ⟨by decide, same, (seenLines_format_of_bareLines source source' .absent (by decide)
    (by decide) (by decide) (by decide) same).1⟩

end AsnLayout
