import AsnLayout.Proofs.Realignment
import AsnLayout.Proofs.SinglePass

/-!
# Depths of re-indented lines

A re-indented text has the lines of the text with other blanks around them.  Where no module is
opened or closed, and no brace is closed that is not open, the indent of a line tells how many
braces are open behind the closing braces that the line starts with.
-/

set_option autoImplicit false

namespace AsnLayout

/-! ## Open braces -/

namespace Mark

def openBraces (marks : List Mark) : Int :=
  marks.countP (·.is '{') - marks.countP (·.is '}')

@[simp]
theorem openBraces_nil : openBraces [] = 0 := rfl

@[simp]
theorem openBraces_cons (mark : Mark) (rest : List Mark) :
    openBraces (mark :: rest) = mark.braceStep + openBraces rest := by
  rw [openBraces, openBraces, List.countP_cons, List.countP_cons, braceStep]
  by_cases opens : mark.is '{'
  · have closes : mark.is '}' = false := by simp_all [is]
    simp only [opens, closes, if_true, Bool.false_eq_true, if_false]
    omega
  · by_cases closes : mark.is '}'
    · simp only [opens, closes, if_true, Bool.false_eq_true, if_false]
      omega
    · simp only [opens, closes, Bool.false_eq_true, if_false]
      omega

@[simp]
theorem openBraces_append (front back : List Mark) :
    openBraces (front ++ back) = openBraces front + openBraces back := by
  rw [openBraces, openBraces, openBraces, List.countP_append, List.countP_append]
  omega

end Mark

namespace Text

open Mark (openBraces)

theorem braceBalance_eq_openBraces (t : Text) : braceBalance t = openBraces (marks t) := by
  rw [braceBalance]
  induction marks t with
  | nil => rfl
  | cons mark rest ih => rw [List.foldr_cons, ih, Mark.openBraces_cons]

/-- The closing braces that a text starts with, and the spaces and tabs between them. -/
def leadingClosers (t : Text) : Text := t.takeWhile fun c => c = '}' || c = ' ' || c = '\t'

/-- No literal starts among the closing braces that a text starts with, so all of them count. -/
theorem openBraces_leadingClosers (t : Text) :
    openBraces (marks (leadingClosers t)) = -(closersAtStart t : Int) := by
  unfold marks leadingClosers
  induction t with
  | nil => rfl
  | cons c rest ih =>
    rw [closersAtStart, List.takeWhile_cons]
    by_cases closer : c = '}'
    · subst closer
      rw [if_pos (by decide), if_pos rfl, Quoting.marks, Mark.openBraces_cons,
        show Quoting.next {} '}' = {} from rfl, ih,
        show Mark.braceStep ⟨'}', Quoting.exposes {} '}'⟩ = -1 from rfl]
      omega
    · rw [if_neg closer]
      by_cases blank : c = ' ' ∨ c = '\t'
      · have none : Quoting.next {} c = {} ∧ Mark.braceStep ⟨c, Quoting.exposes {} c⟩ = 0 := by
          rcases blank with rfl | rfl <;> exact ⟨rfl, rfl⟩
        rw [if_pos (by simpa [closer] using blank), if_pos (by simpa using blank), Quoting.marks,
          Mark.openBraces_cons, none.1, none.2, ih, Int.zero_add]
      · rw [if_neg (by simpa [closer] using blank), if_neg (by simpa using blank)]
        rfl

end Text

/-! ## Code of lines -/

/-- Whether a line belongs to the frame of a module: its header, its beginning or its end. -/
def LineKind.framesModule : LineKind → Bool
  | .moduleHeader | .blockBegin | .blockEnd => true
  | .typeDefinition | .field | .comment | .other => false

namespace Realign

open Mark (openBraces)

/-- The code of a line; a comment has none. -/
def lineCode (inBlock : Bool) (line : Text) : Text :=
  if Reader.isRemark inBlock line then [] else (Text.codeLine (Text.trim line)).code

def codeMarks (inBlock : Bool) : List Text → List Mark
  | [] => []
  | line :: rest =>
    Text.marks (lineCode inBlock line) ++ codeMarks (LineKind.blockAfter inBlock line) rest

theorem codeMarks_append (inBlock : Bool) (front back : List Text) :
    codeMarks inBlock (front ++ back) =
      codeMarks inBlock front ++ codeMarks (LineKind.blockAfterAll inBlock front) back := by
  induction front generalizing inBlock with
  | nil => rfl
  | cons line rest ih =>
    rw [List.cons_append, codeMarks, codeMarks, ih, List.append_assoc]
    rfl

theorem lineCode_of_blank {line : Text} (blank : Text.trim line = []) (inBlock : Bool) :
    lineCode inBlock line = [] := by
  rw [lineCode, blank]
  split <;> rfl

/-- How many braces are open behind the closing braces that the last line starts with, the given
lines standing before it. -/
def openAtStart (before : List Text) (line : Text) : Int :=
  openBraces (codeMarks false before ++
    Text.marks (Text.leadingClosers (lineCode (LineKind.blockAfterAll false before) line)))

/-! ## Depths -/

theorem codeDepths_of_open {kind : LineKind} (noFrame : kind.framesModule = false) {code : Text}
    {depth : Nat}
    (opened : ∀ front, front <+: Text.marks code → 0 ≤ (depth : Int) + openBraces front) :
    ((codeDepths kind code depth).1 : Int) =
        depth + openBraces (Text.marks (Text.leadingClosers code)) ∧
      ((codeDepths kind code depth).2 : Int) = depth + openBraces (Text.marks code) := by
  have noEnd : kind ≠ .blockEnd := by
    rintro rfl
    cases noFrame
  have noBegin : (decide (kind = .blockBegin) || decide (kind = .moduleHeader)) = false := by
    cases kind <;> first | rfl | cases noFrame
  -- The closing braces at the start are a prefix of the code, so they close what is open.
  have start : 0 ≤ (depth : Int) + openBraces (Text.marks (Text.leadingClosers code)) := by
    obtain ⟨rest, whole⟩ : Text.leadingClosers code <+: code := List.takeWhile_prefix _
    refine opened _ ⟨Quoting.marks (Quoting.after {} (Text.leadingClosers code)) rest, ?_⟩
    conv_rhs => rw [← whole]
    exact (Quoting.marks_append ..).symm
  have stop := opened _ (List.prefix_refl _)
  rw [Text.openBraces_leadingClosers] at start ⊢
  rw [← Text.braceBalance_eq_openBraces] at stop ⊢
  simp only [codeDepths, if_neg noEnd, noBegin, Bool.false_and, Bool.false_eq_true, if_false]
  omega

variable {width : Nat} {depth : Depth} {line : Text}

/-- A line that belongs to no frame stands where the braces before it and the closing braces at its
start leave off, and counts all braces of its code. -/
theorem line_of_open
    (noFrame : (LineKind.ofLine depth.inBlock line).framesModule = false)
    (opened : ∀ front, front <+: Text.marks (lineCode depth.inBlock line) →
      0 ≤ (depth.count : Int) + openBraces front) :
    ((Realign.line width depth line).2.count : Int) =
        depth.count + openBraces (Text.marks (lineCode depth.inBlock line)) ∧
      (depth.inBlock = false → Text.isBlankText line = false →
        (Realign.line width depth line).1 =
          Text.spaces ((depth.count +
              openBraces (Text.marks (Text.leadingClosers (lineCode depth.inBlock line)))) *
            width) ++ Text.trim line) := by
  by_cases empty : Text.trim line = []
  · rw [lineCode_of_blank empty, Realign.line, if_pos empty]
    refine ⟨(Int.add_zero _).symm, fun _ filled => ?_⟩
    rw [← Text.isBlankText_trim, empty] at filled
    cases filled
  by_cases remark : Reader.isRemark depth.inBlock line = true
  · have comment := (LineKind.ofLine_eq_comment ..).mpr remark
    rw [lineCode, if_pos remark, Realign.line, if_neg empty, comment]
    refine ⟨(Int.add_zero _).symm, fun outside _ => ?_⟩
    simp only [outside, Bool.false_eq_true, if_false]
    rw [show Text.marks (Text.leadingClosers []) = [] from rfl, Mark.openBraces_nil, Int.add_zero]
  · have code : lineCode depth.inBlock line = (Text.codeLine (Text.trim line)).code := if_neg remark
    have noComment : LineKind.ofLine depth.inBlock line ≠ .comment :=
      fun comment => remark ((LineKind.ofLine_eq_comment ..).mp comment)
    rw [code] at opened ⊢
    obtain ⟨start, stop⟩ := codeDepths_of_open noFrame opened
    rw [Realign.line, if_neg empty]
    split
    · rename_i comment
      exact absurd comment noComment
    · refine ⟨stop, fun _ _ => ?_⟩
      rw [← start]

def Frameless (inBlock : Bool) (lines : List Text) : Prop :=
  ∀ before line after, lines = before ++ line :: after →
    (LineKind.ofLine (LineKind.blockAfterAll inBlock before) line).framesModule = false

/-- Whether no brace is closed in the code of lines that is not open, `depth` of them being open
before it. -/
def Opened (inBlock : Bool) (depth : Nat) (lines : List Text) : Prop :=
  ∀ front, front <+: codeMarks inBlock lines → 0 ≤ (depth : Int) + openBraces front

theorem count_depthAfter {lines : List Text} (noFrame : Frameless depth.inBlock lines)
    (opened : Opened depth.inBlock depth.count lines) :
    ((depthAfter width depth lines).count : Int) =
      depth.count + openBraces (codeMarks depth.inBlock lines) := by
  induction lines generalizing depth with
  | nil => exact (Int.add_zero _).symm
  | cons line rest ih =>
    have here := (@line_of_open width depth line (noFrame [] line rest rfl) fun front starts =>
      opened front (starts.trans (List.prefix_append ..))).1
    have inBlock := inBlock_line width depth line
    have later := @ih (Realign.line width depth line).2
      (fun before next after cut => by
        rw [inBlock]
        exact noFrame (line :: before) next after (congrArg (line :: ·) cut))
      (fun front starts => by
        rw [inBlock] at starts
        rw [here, Int.add_assoc, ← Mark.openBraces_append]
        exact opened _ ((List.prefix_append_right_inj _).mpr starts))
    rw [here, inBlock, Int.add_assoc, ← Mark.openBraces_append] at later
    exact later

/-- A line outside of block comments is indented by the braces that are open behind the closing
braces it starts with. -/
theorem line_depthAfter {before after : List Text}
    (noFrame : Frameless false (before ++ line :: after))
    (opened : Opened false 0 (before ++ line :: after))
    (outside : LineKind.blockAfterAll false before = false)
    (filled : Text.isBlankText line = false) :
    (Realign.line width (depthAfter width {} before) line).1 =
      Text.spaces (openAtStart before line * width) ++ Text.trim line := by
  have block := inBlock_depthAfter width {} before
  have count :
      ((depthAfter width {} before).count : Int) = openBraces (codeMarks false before) := by
    refine (@count_depthAfter width {} before (fun front next back cut => ?_)
      fun front starts => opened front (starts.trans ?_)).trans (Int.zero_add _)
    · exact noFrame front next (back ++ line :: after)
        (by rw [cut, List.append_assoc, List.cons_append])
    · rw [codeMarks_append]
      exact List.prefix_append ..
  refine ((line_of_open ?_ fun front starts => ?_).2 (block.trans outside) filled).trans ?_
  · rw [block]
    exact noFrame before line after rfl
  · rw [block] at starts
    rw [count, ← Mark.openBraces_append]
    refine (opened _ ?_).trans_eq (Int.zero_add _)
    rw [codeMarks_append, codeMarks]
    exact (List.prefix_append_right_inj _).mpr (starts.trans (List.prefix_append ..))
  · rw [count, block, openAtStart, Mark.openBraces_append]

end Realign

/-! ## Re-indented texts -/

theorem Text.exists_realigned {t : Text} {width : Int} {index : Nat} {line row : Text}
    (found : (lines t)[index]? = some line)
    (found' : (lines (realign t width))[index]? = some row) :
    lines t = (lines t).take index ++ line :: (lines t).drop (index + 1) ∧
      row = (Realign.line (max 1 width).toNat
        (Realign.depthAfter (max 1 width).toNat {} ((lines t).take index)) line).1 := by
  obtain ⟨here, same⟩ := List.getElem?_eq_some_iff.mp found
  have cut : lines t = (lines t).take index ++ line :: (lines t).drop (index + 1) := by
    rw [← same, List.getElem_cons_drop, List.take_append_drop]
  refine ⟨cut, ?_⟩
  rw [lines_realign, cut, Realign.lines_append, Realign.lines,
    List.getElem?_append_right (by simp)] at found'
  simpa [Nat.min_eq_left (Nat.le_of_lt here)] using found'.symm

open LineKind Realign in
/-- Re-indenting changes nothing but the blanks around lines, and a text that is re-indented already
stays as it is.  Lines inside of block comments are kept as they are, and blank lines outside of
them become empty.  Where no line frames a module and no brace is closed that is not open, a line is
indented by the braces that are open behind the closing braces it starts with. -/
theorem realign_keeps_lines (t : Text) (width : Int) :
    let given := Text.lines t
    let rows := Text.lines (Text.realign t width)
    let inBlock (index : Nat) := blockAfterAll false (given.take index)
    rows.length = given.length ∧
    (∀ index line row, given[index]? = some line → rows[index]? = some row →
      Text.trim row = Text.trim line ∧
      (inBlock index = true → row = line) ∧
      (inBlock index = false → Text.isBlankText line = true → row = [])) ∧
    Text.realign (Text.realign t width) width = Text.realign t width ∧
    ((∀ index line, given[index]? = some line →
        (ofLine (inBlock index) line).framesModule = false) →
      (∀ front, front <+: codeMarks false given → 0 ≤ Mark.openBraces front) →
      ∀ index line row, given[index]? = some line → rows[index]? = some row →
        inBlock index = false → Text.isBlankText line = false →
          row = Text.spaces (openAtStart (given.take index) line * max 1 width) ++
            Text.trim line) := by
  intro given rows inBlock
  refine ⟨?_, fun index line row found found' => ?_, Text.realign_realign t width,
    fun noFrame opened index line row found found' outside filled => ?_⟩
  · rw [show rows = _ from Text.lines_realign t width, Realign.length_lines]
  · obtain ⟨-, rfl⟩ := Text.exists_realigned found found'
    have block := inBlock_depthAfter (max 1 width).toNat {} (given.take index)
    refine ⟨trim_line .., fun inside => line_of_inBlock (block.trans inside) line,
      fun outside blank => ?_⟩
    rw [Realign.line, if_pos (Text.trim_of_blank blank), block.trans outside]
    rfl
  · obtain ⟨cut, rfl⟩ := Text.exists_realigned found found'
    have step : (((max 1 width).toNat : Nat) : Int) = max 1 width :=
      Int.toNat_of_nonneg (by omega)
    rw [← step]
    refine @line_depthAfter _ line (given.take index) (given.drop (index + 1)) ?_ ?_ outside filled
    · rw [← cut]
      intro before next after split
      have here := noFrame before.length next (by simp [given, split])
      rwa [show inBlock before.length = blockAfterAll false before by
        simp [inBlock, given, split]] at here
    · rw [← cut]
      exact fun front starts => (opened front starts).trans_eq (Int.zero_add _).symm

/-- Closing braces at the start of a line, braces in a literal and in comments, and a block
comment. -/
theorem realign_keeps_lines_closers :
    let source : Text := ("A ::= SET \x7b a \x7b\n\"\x7d\" -- \x7d\n-* x\n   y *-\n" ++
      "\x7d , b \x7b\n \n\x7d \x7d -- \x7b").toList
    let given := Text.lines source
    (∀ index line, given[index]? = some line →
      (LineKind.ofLine (LineKind.blockAfterAll false (given.take index)) line).framesModule =
        false) ∧
    (∀ front, front <+: Realign.codeMarks false given → 0 ≤ Mark.openBraces front) ∧
    (Text.lines (Text.realign source 4))[4]? = some "    \x7d , b \x7b".toList := by
  intro source given
  have noFrame : ∀ index line, given[index]? = some line →
      (LineKind.ofLine (LineKind.blockAfterAll false (given.take index)) line).framesModule =
        false := by
    have all : ∀ index : Fin given.length,
        (LineKind.ofLine (LineKind.blockAfterAll false (given.take index))
          given[index]).framesModule = false := by decide +kernel
    intro index line found
    obtain ⟨here, rfl⟩ := List.getElem?_eq_some_iff.mp found
    exact all ⟨index, here⟩
  have opened : ∀ front, front <+: Realign.codeMarks false given → 0 ≤ Mark.openBraces front := by
    have all : ∀ count < (Realign.codeMarks false given).length + 1,
        0 ≤ Mark.openBraces ((Realign.codeMarks false given).take count) := by decide +kernel
    intro front starts
    rw [List.prefix_iff_eq_take.mp starts]
    exact all _ (Nat.lt_succ_of_le starts.length_le)
  refine ⟨noFrame, opened, ?_⟩
  have long : (Text.lines (Text.realign source 4)).length = given.length :=
    (realign_keeps_lines source 4).1
  obtain ⟨row, found⟩ : ∃ row, (Text.lines (Text.realign source 4))[4]? = some row :=
    ⟨_, List.getElem?_eq_getElem (by rw [long]; decide +kernel)⟩
  rw [found, (realign_keeps_lines source 4).2.2.2 noFrame opened 4 "\x7d , b \x7b".toList row
    (by decide +kernel) found (by decide +kernel) (by decide +kernel)]
  decide +kernel

end AsnLayout
