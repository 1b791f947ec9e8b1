import AsnLayout.Proofs.Settled
import AsnLayout.Proofs.ShownRows

/-!
# Rows of a group that keeps its lines

Rows that are read again build a layout: whatever has been laid out of the body before, the pieces
that the rows come from stand behind it.  A row that is read into a group that keeps its lines is
kept at the level it has in the layout.
-/

set_option autoImplicit false

namespace AsnLayout

/-! ## Rows that build a layout -/

namespace Piece

/-- The rows of pieces, as far as they are left, add these pieces to what a body shows. -/
def Builds (limits : Limits) (width : Int) (before : Bool) (start : List Piece → Body → Prop)
    (pieces : List Piece) (after : Bool) (finish : List Piece → Body → Prop) : Prop :=
  ∀ (run : Nat) (shown : List Piece),
    Leads limits width before (start shown) (settle run pieces) after
      (finish (shown ++ settle run pieces))

variable {limits : Limits} {width : Int} {before between after : Bool}
  {start middle finish : List Piece → Body → Prop} {front back pieces : List Piece}

theorem builds_nil : Builds limits width before start [] before start := by
  intro run shown
  rw [settle, List.append_nil]
  exact Reader.leads_nil fun _ => id

theorem Builds.append (first : Builds limits width before start front between middle)
    (second : Builds limits width between middle back after finish) :
    Builds limits width before start (front ++ back) after finish := by
  intro run shown
  rw [settle_append, ← List.append_assoc]
  exact (first run shown).append (second (runBehind run front) (shown ++ settle run front))

theorem Builds.of_start (builds : Builds limits width before middle pieces after finish)
    (same : ∀ shown body, start shown body → middle shown body) :
    Builds limits width before start pieces after finish :=
  fun run shown => (builds run shown).of_start (same shown)

theorem Builds.of_finish (builds : Builds limits width before start pieces after middle)
    (same : ∀ shown body, middle shown body → finish shown body) :
    Builds limits width before start pieces after finish :=
  fun run shown => (builds run shown).of_finish (same _)

theorem builds_line {text code held : Text} {comment : Option Text} (hides : Text.Hides code held)
    (noted : IsNoted comment) (single : '\n' ∉ text)
    (same : Text.trim text = Text.trim (Layout.remarked code comment)) (calm : Text.Calm code)
    (trimmed : Text.trim code = code) (seen : Text.isBlankText code = false) (level : Int)
    (read : ∀ shown body number, start shown body → ∃ next,
      body.readLine limits.depth ⟨code, comment⟩ number = .ok (.more next) ∧
        finish (shown ++ [.line level text]) next) :
    Builds limits width false start [.line level text] false finish := by
  intro run shown
  refine leads_line hides noted single same (trimmed.symm ▸ calm) seen ?_ level
  rw [trimmed]
  exact read shown

theorem commentPiece_ofComment {node : Node} (isComment : node.IsComment before after)
    (width level other level' : Int) (number : Nat) :
    Layout.commentPiece (Node.ofComment ((Layout.commentPiece node level).row width) before level'
      number) other = Layout.commentPiece node other := by
  cases before with
  | true =>
    simp only [Layout.commentPiece, isComment.blockLine, if_true, row]
    rfl
  | false =>
    have trimmed : Text.trimStart (indented width level node.content) = node.content := by
      rw [indented, Text.trimStart, Text.trimStartBy, List.dropWhile_append_of_pos]
      · exact isComment.start rfl
      · intro c member
        rw [List.eq_of_mem_replicate member]
        rfl
    simp only [Layout.commentPiece, isComment.blockLine, Bool.false_eq_true, if_false, row]
    rw [Node.ofComment, if_neg (by simp), trimmed]
    rfl

theorem builds_comment {node : Node} (isComment : node.IsComment before after) (level : Int)
    (kept : ∀ shown body number, start shown body →
      start (shown ++ [Layout.commentPiece node level])
        (body.readComment ((Layout.commentPiece node level).row width) before number)) :
    Builds limits width before start [Layout.commentPiece node level] after start := by
  intro run shown
  have leads : Leads limits width before (start shown) [Layout.commentPiece node level] after
      (start (shown ++ [Layout.commentPiece node level])) :=
    Reader.leads_remark (isRemark_commentPiece isComment level) (kept shown)
  rw [settle]
  split
  · rename_i empty
    split
    · exact leads
    · -- A row that is not left stands inside of a block comment, which it does not close.
      rw [settle, List.append_nil]
      have inside : before = true ∧ node.content = [] := by
        cases before with
        | true =>
          simp only [Layout.commentPiece, isComment.blockLine, if_true, isEmptyRow,
            decide_eq_true_eq] at empty
          exact ⟨rfl, empty⟩
        | false =>
          simp [Layout.commentPiece, isComment.blockLine, isEmptyRow] at empty
      obtain ⟨rfl, none⟩ := inside
      have behind := isComment.behind
      rw [none] at behind
      subst behind
      exact Reader.leads_nil fun _ => id
  · exact leads

end Piece

/-! ## Groups that keep their lines -/

namespace Body

open Layout

variable {limit : Int} {comment : Option Text} {number : Nat} {body : Body}
  {below : List OpenGroup} {frame : Node} {level : Int} {inner left : List Char}
  {pieces : List Piece} {t : Text}

/-- A body whose innermost group keeps its lines and shows the given pieces at a level.  The lines
wait for the given brackets. -/
structure Retains (below : List OpenGroup) (frame : Node) (level : Int) (inner : List Char)
    (pieces : List Piece) (body : Body) : Prop where
  below : body.below = below
  unstructured : body.top.structured = false
  brackets : body.top.brackets = inner.length
  text : body.top.text = []
  frame : { body.top.node with children := [] } = frame
  kept : keptLines body.top.node level = pieces

theorem keptLines_concat (node child : Node) (level : Int) :
    keptLines { node with children := node.children ++ [child] } level = keptLines node level ++
      [if child.kind = .comment then commentPiece child (level + max 0 (child.level - (node.level + 1)))
       else .line (level + max 0 (child.level - (node.level + 1))) child.content] := by
  simp [keptLines]

theorem Retains.readCode (retains : body.Retains below frame level inner pieces)
    (neat : Text.neat t = t) (filled : t ≠ [])
    (nested : Text.nest inner (Text.brackets t) = some left) :
    ∃ next, body.readLine limit ⟨t, comment⟩ number = .ok (.more next) ∧
      next.Retains below frame level left (pieces ++
        [.line (level + (inner.length - Text.closersAtStart t : Nat)) (beside t comment)]) := by
  obtain ⟨rfl, unstructured, brackets, text, frames, kept⟩ := retains
  obtain ⟨top, below, anchor⟩ := body
  simp only at unstructured brackets text frames kept
  let begun : Body := ⟨{ top with text := [], lineBrackets := inner.length }, below, .nothing⟩
  have start : startLine ⟨top, below, anchor⟩ = begun := by
    simp [startLine, unstructured, text, brackets, begun]
  have unstructured' : begun.top.structured = false := unstructured
  have within : inner.length ≤ begun.top.brackets := brackets.ge
  obtain ⟨next, runs, count⟩ := @exists_runs limit comment number {} begun t inner left within
    nested fun structured => absurd (unstructured'.symm.trans structured) (by simp)
  have count : next.top.brackets = left.length := by
    have same : begun.top.brackets = inner.length := brackets
    omega
  have whole := runs.typed fun structured => absurd (unstructured'.symm.trans structured) (by simp)
  rw [count] at whole
  subst whole
  have runs : Runs limit comment number {} (startLine ⟨top, below, anchor⟩) t
      (begun.typed t left.length) := by
    rw [start]
    exact runs
  refine ⟨_, runs.readLine, ?_⟩
  have ended : endLine (begun.typed t left.length) comment number =
      ⟨{ top with
          node := { top.node with children := top.node.children ++
            [{ kind := .other, content := beside t comment,
               level := top.node.level + 1 + (inner.length - Text.closersAtStart t : Nat),
               line := number }] }
          text := [], brackets := left.length, lineBrackets := inner.length }, below, .nothing⟩ := by
    have same : OpenGroup.structured { top with
        text := t, brackets := left.length, lineBrackets := inner.length } = false := unstructured
    simp [endLine, typed, begun, same, OpenGroup.keepLine, OpenGroup.append, OpenGroup.lineNode,
      OpenGroup.level, neat, filled]
  rw [ended]
  refine ⟨rfl, unstructured, rfl, rfl, frames, ?_⟩
  have level' : top.node.level + 1 + ((inner.length - Text.closersAtStart t : Nat) : Int) -
      (top.node.level + 1) = (inner.length - Text.closersAtStart t : Nat) := by omega
  rw [keptLines_concat, kept]
  simp only [reduceCtorEq, if_false, level', Int.max_eq_right (Int.natCast_nonneg _)]

theorem Retains.readComment (retains : body.Retains below frame level inner pieces) (line : Text)
    (inBlock : Bool) (number : Nat) :
    ∃ other, (body.readComment line inBlock number).Retains below frame level inner (pieces ++
      [commentPiece (Node.ofComment line inBlock other number) (level + inner.length)]) := by
  obtain ⟨rfl, unstructured, brackets, text, frames, kept⟩ := retains
  obtain ⟨top, below, anchor⟩ := body
  simp only at unstructured brackets text frames kept
  have read : Body.readComment ⟨top, below, anchor⟩ line inBlock number =
      ⟨top.append [Node.ofComment line inBlock (top.node.level + 1 + inner.length) number], below,
        anchor⟩ := by
    simp [Body.readComment, unstructured, OpenGroup.level, brackets]
  refine ⟨top.node.level + 1 + inner.length, ?_⟩
  rw [read]
  refine ⟨rfl, unstructured, brackets, text, frames, ?_⟩
  have level' : top.node.level + 1 + (inner.length : Int) - (top.node.level + 1) =
      inner.length := by omega
  have kept' := keptLines_concat top.node
    (Node.ofComment line inBlock (top.node.level + 1 + inner.length) number) level
  rw [kept, if_pos (show (Node.ofComment line inBlock _ number).kind = .comment from rfl)] at kept'
  simp only [Node.ofComment, level', Int.max_eq_right (Int.natCast_nonneg _)] at kept' ⊢
  exact kept'

theorem Retains.close (retains : body.Retains below frame level [] pieces) (number : Nat) :
    ∃ children, (body.startLine.top.close number).node = { frame with children } ∧
      keptLines { frame with children } level = pieces ∧ body.top.brackets = 0 := by
  obtain ⟨rfl, unstructured, brackets, text, rfl, kept⟩ := retains
  refine ⟨body.top.node.children, ?_, kept, brackets⟩
  obtain ⟨top, below, anchor⟩ := body
  simp only at unstructured brackets text kept
  have none : Text.neat [] = [] := by decide
  have same : OpenGroup.structured { top with text := [], lineBrackets := top.brackets } = false :=
    unstructured
  have whole : top.node = { top.node with children := top.node.children } := by
    cases top.node
    rfl
  simpa [startLine, OpenGroup.close, OpenGroup.keepLine, text, unstructured, same, none] using whole

end Body

/-! ## Lines that were kept -/

/-- Brackets that nest are counted as they are waited for. -/
theorem Text.openAfter_of_nest {inner left : List Char} {t : Text}
    (nested : nest inner t = some left) : openAfter inner.length t = left.length := by
  induction t generalizing inner with
  | nil =>
    cases nested
    rfl
  | cons c rest ih =>
    rw [nest_cons] at nested
    obtain ⟨between, step, nested⟩ := Option.bind_eq_some_iff.mp nested
    rw [openAfter, ← ih nested]
    congr 1
    obtain ⟨closer, opens, -, all⟩ | ⟨noOpener, closes, all⟩ | ⟨noOpener, noCloser, all⟩ :=
      nestChar_cases c
    · rw [all] at step
      cases step
      simp [opens]
    · obtain rfl := (all inner between).mp step
      simp [noOpener, closes]
    · rw [all] at step
      cases step
      simp [noOpener, noCloser]

namespace Layout

open Piece (Builds)

variable {limits : Limits} {width : Int} {below : List OpenGroup} {frame : Node}

theorem builds_keptRemark {node : Node} {before after : Bool} {inner : List Char} {base level : Int}
    (place : level = base + inner.length)
    (isComment : node.IsComment before after) :
    Builds limits width before (Body.Retains below frame base inner) [commentPiece node level] after
      (Body.Retains below frame base inner) := by
  refine Piece.builds_comment isComment level fun shown body number retains => ?_
  obtain ⟨other, kept⟩ := retains.readComment _ before number
  rwa [Piece.commentPiece_ofComment isComment, ← place] at kept

theorem builds_keptCode {node : Node} {held : Text} {inner between : List Char} {level start : Int}
    (bearing : node.Bears held) (noField : node.isField = false) (calm : Text.Calm node.lineCode)
    (nested : Text.nest inner (Text.brackets node.lineCode) = some between)
    (place : node.level = start + (inner.length - Text.closersAtStart node.lineCode : Nat)) :
    Builds limits width false (Body.Retains below frame level inner)
      [.line (level + max 0 (node.level - start)) node.content] false
      (Body.Retains below frame level between) := by
  cases bearing with
  | member isField => simp [isField] at noField
  | group spans => simp [Node.spansLines, noField] at spans
  | @line _ code held comment kind content hides noted settled filled =>
    have trimmed : Text.trim code = code := by rw [← settled, Text.neat_eq, Text.trim_trim]
    have isCode : node.lineCode = code := by
      rw [Node.lineCode, if_neg (by simp [kind]), content, trim_beside,
        Text.code_remarked hides noted, trimmed]
    rw [isCode] at calm nested place
    have same : level + max 0 (node.level - start) =
        level + (inner.length - Text.closersAtStart code : Nat) := by
      rw [place]
      omega
    rw [same, content]
    have seen : Text.isBlankText code = false :=
      trimmed ▸ Text.isBlankText_trim_of_ne_nil (by rwa [trimmed])
    exact Piece.builds_line hides noted (newline_not_mem_beside hides noted)
      (trim_beside code comment) calm trimmed seen _
      fun shown body number retains => retains.readCode settled filled nested

/-- Lines that were kept at the levels that their brackets ask for are kept again. -/
theorem builds_lines {front nodes : List Node} {before after : Bool} {held : Text}
    {inner left : List Char} {level start : Int}
    (series : Node.InSeries before nodes held after)
    (lines : ∀ child ∈ nodes, child.isField = false)
    (calm : ∀ child ∈ nodes, Text.Calm child.lineCode)
    (nested : Text.nest inner (nodes.flatMap fun child => Text.brackets child.lineCode) = some left)
    (count : Node.openBehind front = inner.length)
    (levels : ∀ early child late, nodes = early ++ child :: late → child.level = start +
      (Node.openBehind (front ++ early) - Text.closersAtStart child.lineCode : Nat)) :
    Builds limits width before (Body.Retains below frame level inner) (nodes.map fun child =>
      if child.kind = .comment then commentPiece child (level + max 0 (child.level - start))
      else .line (level + max 0 (child.level - start)) child.content) after
      (Body.Retains below frame level left) := by
  induction series generalizing front inner with
  | done =>
    cases nested
    exact Piece.builds_nil
  | @comment before between after node nodes held isComment later ih =>
    obtain ⟨-, lines⟩ := List.forall_mem_cons.mp lines
    obtain ⟨-, calm⟩ := List.forall_mem_cons.mp calm
    have code := Node.lineCode_of_comment isComment.kind
    have here := levels [] node nodes rfl
    rw [List.append_nil, count, code] at here
    have same : level + max 0 (node.level - start) = level + inner.length := by
      rw [here, Text.closersAtStart]
      omega
    rw [List.flatMap_cons, code] at nested
    rw [List.map_cons, if_pos isComment.kind, same]
    refine (builds_keptRemark rfl isComment).append
      (@ih (front ++ [node]) inner lines calm nested ?_ fun early child late cut => ?_)
    · rw [Node.openBehind_concat, code]
      exact count
    · rw [List.append_assoc]
      exact levels (node :: early) child late (by rw [cut, List.cons_append])
  | @code after node nodes held _ bearing later ih =>
    obtain ⟨noField, lines⟩ := List.forall_mem_cons.mp lines
    obtain ⟨calmHere, calm⟩ := List.forall_mem_cons.mp calm
    rw [List.flatMap_cons, Text.nest_append] at nested
    obtain ⟨between, here, there⟩ := Option.bind_eq_some_iff.mp nested
    have place := levels [] node nodes rfl
    rw [List.append_nil, count] at place
    rw [List.map_cons, if_neg bearing.kind_ne]
    refine (builds_keptCode bearing noField calmHere here place).append
      (@ih (front ++ [node]) between lines calm there ?_
      fun early child late cut => ?_)
    · rw [Node.openBehind_concat, count]
      exact Text.openAfter_of_nest here
    · rw [List.append_assoc]
      exact levels (node :: early) child late (by rw [cut, List.cons_append])

theorem builds_keptLines {node : Node} {held : Text}
    (series : Node.InSeries false node.children held false)
    (lines : ∀ child ∈ node.children, child.isField = false) (fit : Node.LinesFit node.children)
    (stepped : node.Stepped) (level : Int) :
    Builds limits width false (Body.Retains below frame level []) (keptLines node level) false
      (Body.Retains below frame level []) :=
  @builds_lines limits width below frame [] node.children false false held [] [] level
    (node.level + 1) series lines fit.calm fit.nested rfl stepped

end Layout

end AsnLayout
