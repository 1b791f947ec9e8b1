import AsnLayout.Proofs.Indentation
import AsnLayout.Proofs.Literals
import AsnLayout.Proofs.SchemaRows

/-!
# Reading a layout

A layout is a schema again: it has a tree, unless a text that comes to stand on a row of its own is
taken for the frame of a module, or for another definition.
-/

set_option autoImplicit false

namespace AsnLayout

namespace Text

theorem exists_sourceLines_of_legible {inBlock : Bool} {lines : List Text}
    (single : ∀ line ∈ lines, '\n' ∉ line) (legible : LegibleLines inBlock lines) :
    ∃ held state, SourceLines inBlock lines held state := by
  obtain ⟨held, state, source, -⟩ := @exists_sourceLines_map id (fun _ _ => rfl) (fun _ _ => rfl)
    inBlock lines single (fun line member isLegible noRemark =>
      isLegible.isSource_self noRemark (single line member)) legible
  rw [List.map_id] at source
  exact ⟨held, state, source⟩

theorem bareLines_filter (inBlock : Bool) (lines : List Text) :
    bareLines inBlock (lines.filter (!isBlankText ·)) = bareLines inBlock lines := by
  induction lines generalizing inBlock with
  | nil => rfl
  | cons line rest ih =>
    by_cases blank : isBlankText line = true
    · rw [List.filter_cons_of_neg (by simp [blank]), ih, bareLines, if_pos blank]
    · rw [List.filter_cons_of_pos (by simp [blank]), bareLines, ih, ih, bareLines]

end Text

namespace Piece

/-- A layout has a tree if its rows are read to their end. -/
theorem exists_ofText_assemble {options : Options} {pieces : List Piece}
    (single : ∀ line ∈ pieces.map (row options.indentWidth), '\n' ∉ line)
    (positive : 1 ≤ options.iterationFactor)
    (admitted : ∀ limits : Limits, limits.depth = options.maxDepth →
      Reader.Admits limits false (pieces.map (row options.indentWidth))) :
    ∃ root, Node.ofText (assemble options.indentWidth pieces) options = .ok root := by
  -- An empty line in front, so that there is a row.
  let rows := [] :: pieces.map (row options.indentWidth)
  have single' : ∀ line ∈ rows, '\n' ∉ line := List.forall_mem_cons.mpr ⟨by simp, single⟩
  have cut : Text.lines (Text.ofLines rows) = rows :=
    Text.lines_ofLines rows single' (List.cons_ne_nil _ _)
  have filled : 1 * (rows.length + 1 : Int) ≤ options.iterationFactor * (rows.length + 1) :=
    Int.mul_le_mul_of_nonneg_right positive (by omega)
  have room : ((0 : Nat) + rows.length : Int) ≤ (Limits.ofOptions options rows.length).lines := by
    simp only [Limits.ofOptions]
    omega
  obtain ⟨nodes, after, run⟩ := Layout.admits_gap (admitted (Limits.ofOptions options rows.length)
    rfl) {} 1 rfl room
  have read := (Reader.ofText_eq_ok (Text.ofLines rows) options _).mpr
    ⟨nodes, after, by rwa [cut], rfl⟩
  have seen : rows.filter (!Text.isBlankText ·) =
      (Text.lines (assemble options.indentWidth pieces)).filter (!Text.isBlankText ·) := by
    have whole := seenLines_assemble options.indentWidth pieces
    rw [← List.flatMap_map, Text.flatMap_seenLines_of_single single] at whole
    exact (List.filter_cons_of_neg (by simp [Text.isBlankText])).trans whole.symm
  have same : SameLines .blanks false .nothing (Text.lines (Text.ofLines rows))
      (Text.lines (assemble options.indentWidth pieces)) := by
    refine sameLines_of_bareLines ?_
    rw [cut, ← Text.bareLines_filter, seen, Text.bareLines_filter]
  obtain ⟨root, found, -⟩ := Node.ofText_alike positive same read
  exact ⟨root, found⟩

end Piece

theorem exists_series_ofText {text : Text} {options : Options} {root : Node}
    (legible : Text.LegibleLines false (Text.lines text))
    (read : Node.ofText text options = .ok root) : ∃ held state,
      Series Node.IsComment Node.ItemBears false root.children held state ∧
        Node.AreItems root.children := by
  obtain ⟨nodes, after, run, rfl⟩ := (Reader.ofText_eq_ok ..).mp read
  obtain ⟨held, state, lines⟩ := Text.exists_sourceLines_of_legible
    (Text.newline_not_mem_of_mem_lines text) legible
  exact ⟨held, state, Reader.series_itemsRun run rfl lines,
    (Reader.areItems_itemsRun run rfl lines).1⟩

/-- The layout of a schema with legible lines has a tree again, if the items of the schema are
clear. -/
theorem ofText_toText_of_isClear (source : Text) (options : Options) (root : Node) (out : Text)
    (legible : Text.LegibleLines false (Text.lines source))
    (positive : 1 ≤ options.iterationFactor) (deep : 1 ≤ options.maxDepth)
    (read : Node.ofText source options = .ok root)
    (clear : ∀ node ∈ root.children, node.isClear options = true)
    (laid : root.toText options = .ok out) :
    ∃ root', Node.ofText out options = .ok root' := by
  obtain ⟨held, state, series, items⟩ := exists_series_ofText legible read
  obtain ⟨pieces, lays, rfl⟩ := Layout.text_eq_ok.mp laid
  refine Piece.exists_ofText_assemble
    (Text.Rows.single (Layout.reads_layNodes series lays)) positive fun limits depth => ?_
  exact (Layout.admits_layNodes deep depth series items clear lays).1

theorem exists_ok_of_any {α : Type} {attempt : Except Fault α} {test : α → Bool}
    (passes : attempt.toOption.any test = true) :
    ∃ result, attempt = .ok result ∧ test result = true := by
  cases attempt with
  | error fault => cases passes
  | ok result => exact ⟨result, rfl, passes⟩

/-- A module with a broken line, groups in groups, a group that keeps its lines and literals with
braces, among comments. -/
theorem ofText_toText_of_isClear_module :
    let source : Text := ("-- a\nM DEFINITIONS ::= BEGIN\nA ::=\nSEQUENCE \x7ba CHOICE\x7b\n" ++
      "x,--b\ny(\"\x7b,\")\x7d OPTIONAL \x7d\nB ::= FOO \x7b\nc (\n-* d\n *-\n) -- e\n\x7d\n" ++
      "C ::= SET \x7b c INTEGER, d SET \x7b e NULL \x7d\x7d\n" ++
      "D ::= INTEGER \x7b f(1) \x7d\nEND").toList
    ∃ root out root', Node.ofText source {} = .ok root ∧ root.toText {} = .ok out ∧
      Node.ofText out {} = .ok root' := by
  intro source
  have success : (Node.ofText source {}).toOption.any (fun root =>
      root.children.all (·.isClear {}) && (root.toText {}).toOption.any fun _ => true) = true := by
    decide +kernel
  obtain ⟨root, read, passes⟩ := exists_ok_of_any success
  rw [Bool.and_eq_true, List.all_eq_true] at passes
  obtain ⟨clear, laidOut⟩ := passes
  obtain ⟨out, laid, -⟩ := exists_ok_of_any laidOut
  obtain ⟨root', again⟩ := ofText_toText_of_isClear source {} root out (by decide +kernel)
    (by decide) (by decide) read clear laid
  exact ⟨root, out, root', read, laid, again⟩

/-- A literal with an assignment sign has a layout, which has no tree. -/
theorem ofText_toText_sign_in_literal :
    let source : Text := "A ::= SEQUENCE \x7b a IA5String DEFAULT \"::=\" \x7d".toList
    ∃ root out fault, Node.ofText source {} = .ok root ∧ root.toText {} = .ok out ∧
      Node.ofText out {} = .error fault := by
  intro source
  have success : (Node.ofText source {} >>= (·.toText {})).toOption =
      some "A ::= SEQUENCE \x7b\n  a IA5String DEFAULT \"::=\"\n\x7d\n".toList := by
    decide +kernel
  cases found : Node.ofText source {} >>= (·.toText {}) with
  | error fault =>
    rw [found] at success
    cases success
  | ok out =>
    rw [found, Except.toOption, Option.some.injEq] at success
    obtain ⟨root, read, laid⟩ := (bind_eq_ok ..).mp found
    have failure : (Node.ofText out {}).toOption.isSome = false := by
      rw [success]
      decide +kernel
    cases again : Node.ofText out {} with
    | ok root' =>
      rw [again] at failure
      cases failure
    | error fault => exact ⟨root, out, fault, read, laid, again⟩

end AsnLayout
