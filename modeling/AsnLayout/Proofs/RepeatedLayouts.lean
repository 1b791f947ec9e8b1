import AsnLayout.Proofs.LayoutAlphabet
import AsnLayout.Proofs.LastingItems
import AsnLayout.Proofs.Rereading
import AsnLayout.Proofs.VisibleLayout

/-!
# Layouts that are laid out again

The rows that are left of a layout are read, item by item, as items of which the same rows are left.
So the layout of a schema of clear and steady items is its own layout, and formatting it changes
nothing.  This is not so for every source: a line that joins a definition with its type may be read
as the beginning of a module.
-/

set_option autoImplicit false

namespace AsnLayout

/-! ## Braces on later rows -/

namespace Reader

theorem bracesNext_filter (rows : List Text) :
    bracesNext (rows.filter (!Text.isBlankText ·)) = bracesNext rows := by
  induction rows with
  | nil => rfl
  | cons row later ih =>
    by_cases blank : Text.isBlankText row = true
    · rw [List.filter_cons_of_neg (by simp [blank]), ih, bracesNext, if_pos blank]
    · rw [List.filter_cons_of_pos (by simp [blank]), bracesNext, bracesNext, if_neg blank, if_neg blank]

theorem bracesNext_append {front back : List Text} (first : bracesNext front = false)
    (second : bracesNext back = false) : bracesNext (front ++ back) = false := by
  induction front with
  | nil => exact second
  | cons row later ih =>
    rw [List.cons_append, bracesNext]
    rw [bracesNext] at first
    split
    · rename_i blank
      rw [if_pos blank] at first
      exact ih first
    · rename_i seen
      rwa [if_neg seen] at first

end Reader

namespace Piece

open Layout

theorem bracesNext_left (width : Int) (run : Nat) (pieces : List Piece) :
    Reader.bracesNext ((left run pieces).map (row width)) =
      Reader.bracesNext (pieces.map (row width)) := by
  have seen : ∀ pieces : List Piece, (pieces.map (row width)).filter (!Text.isBlankText ·) =
      (pieces.filter (!isIdle ·)).map (row width) := by
    intro pieces
    rw [List.filter_map]
    congr 2
    funext piece
    simp [isBlankText_row]
  rw [← Reader.bracesNext_filter, seen, filter_left, ← seen, Reader.bracesNext_filter]

variable {options : Options} {limits : Limits} {width : Int} {nodes : List Node}
  {pieces : List Piece} {held : Text} {before after : Bool} {level : Nat}

/-! ## Schemas -/

theorem Lasts.append {first rest : List Piece} {ends between : Bool} {middle : Nat}
    (lasts : Lasts options limits width ends before level first between middle)
    (later : ∀ run, ∃ again inBlock level',
      Renews options limits width true between middle (left run rest) again inBlock level' ∧
        left run again = left run rest)
    (onward : ends = true → Reader.bracesNext (rest.map (row width)) = false) (run : Nat) :
    ∃ again inBlock level',
      Renews options limits width true before level (left run (first ++ rest)) again inBlock level' ∧
        left run again = left run (first ++ rest) := by
  rw [left_append]
  by_cases nothing : left (runBehind run first) rest = []
  · rw [if_pos nothing]
    obtain ⟨again, renews, same⟩ := lasts.last run
    exact ⟨again, between, middle, renews.mono fun _ => rfl, same⟩
  · rw [if_neg nothing]
    obtain ⟨again, renews, same, behind⟩ := lasts.whole run
    obtain ⟨again', inBlock, level', renews', same'⟩ := later (runBehind run first)
    refine ⟨again ++ again', inBlock, level', renews.append renews' fun others unbraced isEnd => ?_, ?_⟩
    · refine Reader.bracesNext_append ?_ (unbraced rfl)
      rw [bracesNext_left]
      exact onward isEnd
    · rw [left_append, behind, same', if_neg nothing, same]

/-- What is left of the pieces of clear and steady items is read as items of which the same is left. -/
theorem renews_left (positive : 1 ≤ options.maxDepth) (depth : limits.depth = options.maxDepth)
    (series : Series Node.IsComment Node.ItemBears before nodes held after)
    (items : Node.AreItems nodes) (levels : Node.Levelled level nodes)
    (clear : ∀ node ∈ nodes, node.isClear options = true)
    (steady : ∀ node ∈ nodes, node.isSteady options = true)
    (laid : layNodes options nodes = .ok pieces) (run : Nat) :
    ∃ again inBlock level',
      Renews options limits width true before level (left run pieces) again inBlock level' ∧
        left run again = left run pieces := by
  induction series generalizing pieces level run with
  | done =>
    cases laid
    exact ⟨[], _, level, renews_nil, rfl⟩
  | @comment before between after node later held isComment others ih =>
    simp only [layNodes, bind_eq_ok] at laid
    obtain ⟨first, here, rest, there, done⟩ := laid
    cases done
    obtain ⟨-, clear⟩ := List.forall_mem_cons.mp clear
    obtain ⟨-, steady⟩ := List.forall_mem_cons.mp steady
    obtain ⟨place, levels⟩ := levels
    rw [Node.levelAt, isComment.kind] at place
    rw [Node.levelBehind, isComment.kind] at levels
    rw [layNode, isComment.kind, place] at here
    cases here
    cases items with
    | cons isItem items =>
      exact (@lasts_comment options limits width level false node before between isComment).append
        (fun run => ih items levels clear steady there run) (by simp) run
  | @code after node later held held' bears others ih =>
    simp only [layNodes, bind_eq_ok] at laid
    obtain ⟨first, here, rest, there, done⟩ := laid
    cases done
    obtain ⟨isClear, clear⟩ := List.forall_mem_cons.mp clear
    obtain ⟨isSteady, steady⟩ := List.forall_mem_cons.mp steady
    obtain ⟨place, levels⟩ := levels
    cases items with
    | cons isItem items =>
      have lasts := @lasts_code options limits width level node first later held positive depth bears
        isItem isClear isSteady place here
      refine lasts.append (fun run => ih items levels clear steady there run) (fun isEnd => ?_) run
      exact (@admits_layNodes limits options width later rest held' false after positive depth others
        items clear there).2 rfl (by simpa using isEnd)

/-- The row behind a layout is empty, and what is read there is not left. -/
theorem renews_end (inBlock : Bool) (level : Nat) : ∃ piece : Piece, piece.isIdle = true ∧
    piece.row width = [] ∧
      Renews options limits width true inBlock level [piece] [piece] inBlock level := by
  cases inBlock with
  | false => exact ⟨gap, rfl, rfl, renews_gap.of_ends⟩
  | true =>
    have isComment : (Node.ofComment [] true level 0).IsComment true true :=
      ⟨rfl, rfl, rfl, List.not_mem_nil, rfl, nofun⟩
    exact ⟨verbatim [], rfl, rfl, (renews_comment isComment).of_ends⟩

/-! ## First rows -/

theorem head_settle_layNodes (series : Series Node.IsComment Node.ItemBears false nodes held after)
    (items : Node.AreItems nodes) (laid : layNodes options nodes = .ok pieces) :
    ∀ first ∈ (settle 2 pieces).head?, ∃ level text, first = line level text := by
  induction nodes generalizing pieces held after with
  | nil =>
    cases laid
    simp [settle]
  | cons node later ih =>
    simp only [layNodes, bind_eq_ok] at laid
    obtain ⟨early, here, rest, there, done⟩ := laid
    cases done
    have line : ∀ level text more, ∀ first ∈ (settle 2 (line level text :: more)).head?,
        ∃ level text, first = Piece.line level text := by
      intro level text more first isFirst
      cases isFirst
      exact ⟨level, text, rfl⟩
    cases items with
    | cons isItem items =>
      cases series with
      | comment isComment others =>
        rw [layNode, isComment.kind, commentPiece, isComment.blockLine] at here
        cases here
        exact line _ _ _
      | code bears others =>
        by_cases defines : node.kind = .typeDefinition
        · obtain ⟨back, more, rfl⟩ :=
            exists_first_layNode defines (isItem.defined defines).1.name here
          exact line _ _ _
        · have code : node.kind ≠ .comment := by
            cases bears with
            | line single => exact single.2
            | plain same | inline same | group same => exact absurd same defines
          rcases layNode_line_cases defines code here with rfl | rfl | rfl | ⟨-, rfl⟩
          · exact line _ _ _
          · exact line _ _ _
          · exact line _ _ _
          · have onward := ih others items there
            exact onward

theorem seen_head_layNodes {blocks : Bool} (visible : ∀ piece ∈ pieces, piece.Visible blocks)
    (series : Series Node.IsComment Node.ItemBears false nodes held after)
    (items : Node.AreItems nodes) (laid : layNodes options nodes = .ok pieces) :
    ∀ first ∈ (settle 2 pieces).head?, first.isIdle = false := by
  intro first isFirst
  obtain ⟨level, text, rfl⟩ := head_settle_layNodes series items laid first isFirst
  exact (visible _ ((settle_sublist 2 pieces).subset (List.mem_of_mem_head? isFirst))).seen

end Piece

/-! ## Layouts of layouts -/

section

variable {text out : Text} {options : Options} {root : Node}
  (legible : Text.LegibleLines false (Text.lines text)) (read : Node.ofText text options = .ok root)

include legible read

theorem toText_of_isBlankText (laid : root.toText options = .ok out)
    (blank : Text.isBlankText out = true) : out = [] := by
  obtain ⟨held, state, series, items⟩ := exists_series_ofText legible read
  obtain ⟨pieces, lays, rfl⟩ := Layout.text_eq_ok.mp laid
  have visible := visible_layNodes_ofText read lays
  exact Piece.assemble_of_isBlankText visible (Piece.seen_head_layNodes visible series items lays) blank

/-- The layout of a schema with legible lines is its own layout, if the items of the schema are clear
and steady. -/
theorem toText_toText_of_isSteady (positive : 1 ≤ options.iterationFactor)
    (deep : 1 ≤ options.maxDepth) (clear : ∀ node ∈ root.children, node.isClear options = true)
    (steady : ∀ node ∈ root.children, node.isSteady options = true)
    (laid : root.toText options = .ok out) :
    ∃ root', Node.ofText out options = .ok root' ∧ root'.toText options = .ok out := by
  obtain ⟨held, state, series, items⟩ := exists_series_ofText legible read
  have levels : Node.Levelled 0 root.children := by
    obtain ⟨nodes, after, run, rfl⟩ := (Reader.ofText_eq_ok ..).mp read
    exact (Reader.levelled_itemsRun run rfl).1
  obtain ⟨pieces, lays, rfl⟩ := Layout.text_eq_ok.mp laid
  have visible := visible_layNodes_ofText read lays
  have starts := Piece.seen_head_layNodes visible series items lays
  have rows := @Piece.lines_assemble_left options.indentWidth pieces true visible starts
  obtain ⟨limits, isLimits⟩ : ∃ limits, Limits.ofOptions options
    (Text.lines (Piece.assemble options.indentWidth pieces)).length = limits := ⟨_, rfl⟩
  obtain ⟨again, inBlock, level, renews, same⟩ :=
    @Piece.renews_left options limits options.indentWidth root.children pieces held _ _ _ deep
      (isLimits ▸ rfl) series items levels clear steady lays 2
  obtain ⟨last, idle, empty, ending⟩ :=
    @Piece.renews_end options limits options.indentWidth inBlock level
  -- The rows that are left, and the empty one behind them, are the lines of the layout.
  have whole := renews.append ending fun rest unbraced _ => by
    rw [List.map_singleton, List.singleton_append, empty]
    exact (Reader.bracesNext_cons [] rest).trans (unbraced rfl)
  have room : ((0 : Nat) + (Piece.left 2 pieces ++ [last]).length : Int) ≤ limits.lines := by
    have size : (Piece.left 2 pieces ++ [last]).length =
        (Text.lines (Piece.assemble options.indentWidth pieces)).length := by
      rw [rows]
      simp
    rw [← isLimits, size]
    have filled := Int.mul_le_mul_of_nonneg_right positive (show (0 : Int) ≤
      (Text.lines (Piece.assemble options.indentWidth pieces)).length + 1 by omega)
    simp only [Limits.ofOptions]
    omega
  obtain ⟨nodes, reader, laid', -, onward⟩ := whole {} 1 0 [] ⟨rfl, rfl, rfl, rfl⟩ room fun _ => rfl
  have run := onward [] reader (.done _ _ _)
  rw [List.append_nil, List.append_nil, List.map_append, List.map_singleton, empty, ← rows,
    ← isLimits] at run
  have read' := (Reader.ofText_eq_ok _ options _).mpr ⟨nodes, reader, run, rfl⟩
  refine ⟨_, read', Layout.text_eq_ok.mpr ⟨again ++ [last], laid', ?_⟩⟩
  have nothing : ∀ run, Piece.left run [last] = [] := fun run =>
    Piece.left_eq_nil_iff.mpr (List.forall_mem_singleton.mpr idle)
  refine (Piece.assemble_eq_of_left visible (visible_layNodes_ofText read' laid') starts ?_).symm
  rw [Piece.left_append, if_pos (nothing _), same]

end

/-! ## Formatting twice -/

/-- Formatting the layout of a schema with legible lines once more changes nothing, if the items of
the schema are clear and steady. -/
theorem format_format_of_isSteady (source : Text) (configuration : Configuration) (root : Node)
    (out : Text)
    (legible : Text.LegibleLines false (Text.lines (Text.plainSource source
      (Format.options configuration).result.indentWidth)))
    (read : Node.ofText (Text.plainSource source (Format.options configuration).result.indentWidth)
      (Format.options configuration).result = .ok root)
    (clear : ∀ node ∈ root.children, node.isClear (Format.options configuration).result = true)
    (steady : ∀ node ∈ root.children, node.isSteady (Format.options configuration).result = true)
    (laid : root.toText (Format.options configuration).result = .ok out) :
    (Format.text (Format.text source configuration).result configuration).result =
      (Format.text source configuration).result := by
  by_cases blank : Text.isBlankText source = true
  · have nothing : (Format.text source configuration).result = [] := by
      simp only [Format.text, blank, if_true]
    rw [nothing]
    rfl
  · have once := Format.result_of_tree (Bool.eq_false_iff.mpr blank) read laid
    rw [once]
    by_cases empty : Text.isBlankText out = true
    · rw [toText_of_isBlankText legible read laid empty]
      rfl
    · obtain ⟨root', again, same⟩ := toText_toText_of_isSteady legible read
        (Format.options_positive configuration).2 (Format.one_le_maxDepth configuration) clear steady
        laid
      have plain := plainSource_format source configuration
        (Format.options configuration).result.indentWidth
      rw [once] at plain
      exact Format.result_of_tree (Bool.eq_false_iff.mpr empty) (plain.symm ▸ again) same

/-- A module with groups in groups, a literal with a brace, comments, a type on a line of its own and
a list of numbers that fits on its line. -/
theorem format_format_of_isSteady_module :
    let source : Text := ("M DEFINITIONS ::= BEGIN\nIMPORTS X FROM Y;\nA ::=\nSEQUENCE \x7b" ++
      "a CHOICE\x7b\nx,--b\ny\x7d OPTIONAL\n,c INTEGER(0..7) DEFAULT \"\x7b\" \x7d\n\n\n" ++
      "-* d\n  e *-\nB ::= OCTET\n STRING -- f\nC ::= ENUMERATED \x7b r,g(1) \x7d\n" ++
      "D ::= INTEGER \x7b h(2) \x7d\nEND").toList
    let options := (Format.options .absent).result
    ∃ root out, Node.ofText (Text.plainSource source options.indentWidth) options = .ok root ∧
      root.toText options = .ok out ∧
      (Format.text (Format.text source .absent).result .absent).result =
        (Format.text source .absent).result := by
  intro source options
  have success : (Node.ofText (Text.plainSource source options.indentWidth) options).toOption.any
      (fun root => root.children.all (·.isClear options) && root.children.all (·.isSteady options) &&
        (root.toText options).toOption.any fun _ => true) = true := by
    decide +kernel
  obtain ⟨root, read, passes⟩ := exists_ok_of_any success
  rw [Bool.and_eq_true, Bool.and_eq_true, List.all_eq_true, List.all_eq_true] at passes
  obtain ⟨⟨clear, steady⟩, laidOut⟩ := passes
  obtain ⟨out, laid, -⟩ := exists_ok_of_any laidOut
  exact ⟨root, out, read, laid, format_format_of_isSteady source .absent root out
    (by decide +kernel) read clear steady laid⟩

/-- A module whose header stands on several lines has a layout, and another one the second time. -/
theorem format_format_broken_header :
    let source : Text := "M\nDEFINITIONS ::=\nBEGIN\nA ::= INTEGER\nEND\n".toList
    (∃ text, (Node.ofText (Text.plainSource source 2) {} >>= (·.toText {})) = .ok text) ∧
      (Format.text (Format.text source .absent).result .absent).result ≠
        (Format.text source .absent).result := by
  intro source
  have success : (Node.ofText (Text.plainSource source 2) {} >>= (·.toText {})).toOption =
      some "M\nDEFINITIONS ::= BEGIN\nA ::= INTEGER\n\nEND\n".toList := by
    decide +kernel
  have once : (Format.text source .absent).result =
      "M\nDEFINITIONS ::= BEGIN\nA ::= INTEGER\n\nEND\n".toList := by
    decide +kernel
  constructor
  · cases found : Node.ofText (Text.plainSource source 2) {} >>= (·.toText {}) with
    | error fault =>
      rw [found] at success
      cases success
    | ok text => exact ⟨text, rfl⟩
  · rw [once]
    decide +kernel

end AsnLayout
