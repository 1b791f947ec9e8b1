import AsnLayout.Proofs.Blocks
import AsnLayout.Proofs.Core

/-!
# Reading in step

Two readers whose lines differ only in lines that are passed over and in the blanks around the
others read alike trees.  A line that is passed over moves one reader alone; any other line moves
both.  A comment may be passed over wherever no reader looks ahead over it for an opening brace,
which one does right behind a type that has none.  The second reader only needs room to count the
lines that are left to it.
-/

set_option autoImplicit false

namespace AsnLayout

/-! ## Blanks around a text -/

namespace Text

theorem exists_blank_trim (t : Text) :
    ∃ front back, isBlankText front = true ∧ isBlankText back = true ∧
      t = front ++ (trim t ++ back) := by
  obtain ⟨front, blank, cut⟩ := exists_blank_trimStart t
  obtain ⟨back, blank', cut'⟩ := exists_blank_trimEnd (trimStart t)
  exact ⟨front, back, blank, blank', cut.trans (congrArg (front ++ ·) cut')⟩

theorem isBlankText_append (front back : Text) :
    isBlankText (front ++ back) = (isBlankText front && isBlankText back) :=
  List.all_append

theorem isBlankText_trim (t : Text) : isBlankText (trim t) = isBlankText t := by
  obtain ⟨front, back, blank, blank', cut⟩ := exists_blank_trim t
  have whole := congrArg isBlankText cut
  rw [isBlankText_append, isBlankText_append, blank, blank', Bool.true_and, Bool.and_true] at whole
  exact whole.symm

theorem trim_append_blank {back : Text} (blank : isBlankText back = true) (t : Text) :
    trim (t ++ back) = trim t := by
  have ends : trimEnd (t ++ back) = trimEnd t := by
    rw [trimEnd, trimEndBy, List.reverse_append, List.dropWhile_append_of_pos]
    · rfl
    · intro c member
      exact List.all_eq_true.mp blank c (List.mem_reverse.mp member)
  rw [← trim_trimEnd, ends, trim_trimEnd]

theorem words_append_blank {c : Char} (blank : isBlank c = true) (front back : Text) :
    words (front ++ c :: back) = words front ++ words back := by
  rw [words, List.splitOnP_append_cons front back blank, List.filter_append]
  rfl

theorem words_of_isBlankText {t : Text} (blank : isBlankText t = true) : words t = [] := by
  induction t with
  | nil => rfl
  | cons c rest ih =>
    obtain ⟨first, later⟩ := Bool.and_eq_true_iff.mp blank
    exact (words_append_blank first [] rest).trans (ih later)

theorem words_trim (t : Text) : words (trim t) = words t := by
  have behind : ∀ t back : Text, isBlankText back = true → words (t ++ back) = words t := by
    intro t back blank
    cases back with
    | nil => rw [List.append_nil]
    | cons c rest =>
      obtain ⟨first, later⟩ := Bool.and_eq_true_iff.mp blank
      rw [words_append_blank first, words_of_isBlankText later, List.append_nil]
  have before : ∀ front t : Text, isBlankText front = true → words (front ++ t) = words t := by
    intro front t blank
    induction front with
    | nil => rfl
    | cons c rest ih =>
      obtain ⟨first, later⟩ := Bool.and_eq_true_iff.mp blank
      exact (words_append_blank first [] (rest ++ t)).trans (ih later)
  obtain ⟨front, back, blank, blank', cut⟩ := exists_blank_trim t
  have whole := congrArg words cut
  rw [before _ _ blank, behind _ _ blank'] at whole
  exact whole.symm

theorem contains_iff {mark : Text} (filled : mark ≠ []) (t : Text) :
    contains t mark = true ↔ mark <:+: t := by
  unfold contains
  induction t with
  | nil =>
    rw [cutAt?, if_neg (by simpa using filled)]
    simp [filled]
  | cons c rest ih =>
    rw [cutAt?, List.infix_cons_iff]
    split
    · rename_i starts
      simp [List.isPrefixOf_iff_prefix.mp starts]
    · rename_i other
      have noPrefix : ¬mark <+: c :: rest :=
        fun found => other (List.isPrefixOf_iff_prefix.mpr found)
      rw [Option.isSome_map, ih]
      simp [noPrefix]

section

variable {mark front back : Text} (solid : ∀ c ∈ mark, isBlank c = false)
include solid

theorem eq_nil_of_solid (blank : isBlankText back = true) {part : Text} (inMark : part ⊆ mark)
    (inBlank : part ⊆ back) : part = [] := by
  refine List.eq_nil_iff_forall_not_mem.mpr fun c member => ?_
  have isBlank := List.all_eq_true.mp blank c (inBlank member)
  rw [solid c (inMark member)] at isBlank
  cases isBlank

theorem infix_append_blank (blank : isBlankText back = true) :
    mark <:+: front ++ back ↔ mark <:+: front := by
  refine ⟨fun found => ?_, fun found => found.trans (List.prefix_append ..).isInfix⟩
  rcases List.infix_append_iff.mp found with before | behind | ⟨start, rest, rfl, ends, starts⟩
  · exact before
  · rw [eq_nil_of_solid solid blank (fun _ member => member) behind.subset]
    exact List.nil_infix
  · have none := eq_nil_of_solid solid blank (fun _ => List.mem_append_right start) starts.subset
    rw [none, List.append_nil]
    exact ends.isInfix

theorem infix_blank_append (blank : isBlankText front = true) :
    mark <:+: front ++ back ↔ mark <:+: back := by
  refine ⟨fun found => ?_, fun found => found.trans (List.suffix_append ..).isInfix⟩
  rcases List.infix_append_iff.mp found with before | behind | ⟨start, rest, rfl, ends, starts⟩
  · rw [eq_nil_of_solid solid blank (fun _ member => member) before.subset]
    exact List.nil_infix
  · exact behind
  · have none := eq_nil_of_solid solid blank (fun _ => List.mem_append_left rest) ends.subset
    rw [none]
    exact starts.isInfix

theorem infix_trim_iff (t : Text) : mark <:+: trim t ↔ mark <:+: t := by
  obtain ⟨front, back, blank, blank', cut⟩ := exists_blank_trim t
  conv => rhs; rw [cut]
  rw [infix_blank_append solid blank, infix_append_blank solid blank']

end

theorem mem_assignmentSign {c : Char} : c ∈ assignmentSign ↔ c = ':' ∨ c = '=' := by
  simp [assignmentSign]

theorem isBlank_of_mem_sign {c : Char} (mark : c ∈ assignmentSign) : isBlank c = false := by
  obtain rfl | rfl := mem_assignmentSign.mp mark <;> decide

theorem contains_trim (t : Text) :
    contains (trim t) assignmentSign = contains t assignmentSign := by
  have filled : assignmentSign ≠ [] := by decide
  rw [Bool.eq_iff_iff, contains_iff filled, contains_iff filled,
    infix_trim_iff fun _ => isBlank_of_mem_sign]

theorem code_isInfix (line : Text) : (codeLine line).code <:+: line := by
  unfold codeLine
  split
  · exact List.infix_refl _
  · rename_i index found
    obtain ⟨blank, -, whole⟩ := exists_blank_trimEnd (line.take index)
    have front : trimEnd (line.take index) <+: line.take index := ⟨blank, whole.symm⟩
    exact (front.trans (List.take_prefix _ _)).isInfix

end Text

theorem LineKind.contains_of_typeDefinition {inBlock : Bool} {line : Text}
    (defines : ofLine inBlock line = .typeDefinition) :
    Text.contains line Text.assignmentSign = true := by
  have filled : Text.assignmentSign ≠ [] := by decide
  have inCode := (Text.contains_iff filled _).mp
    (Tally.contains_of_typeDefinition inBlock line defines)
  exact (Text.contains_iff filled _).mpr
    ((inCode.trans (Text.code_isInfix _)).trans line.trim_isInfix)

/-! ## Lines up to the blanks around them -/

/-- Two lines that differ in the blanks around them at most.  What is kept of them as comments is
the same, unless both are passed over. -/
structure Text.SameLine (sieve : Sieve) (inBlock : Bool) (line line' : Text) : Prop where
  trim : Text.trim line = Text.trim line'
  /-- Both are passed over, or they differ in their indents at most, and in nothing if they stand in
  a block comment. -/
  kept : (sieve.drops line = true ∧ sieve.drops line' = true) ∨
    (Text.trimStart line = Text.trimStart line' ∧ (inBlock = true → line = line'))

namespace Text

variable {sieve : Sieve} {line line' : Text}

namespace SameLine

variable {inBlock : Bool}

theorem of_trimStart (same : Text.trimStart line = Text.trimStart line')
    (kept : inBlock = true → line = line') : SameLine sieve inBlock line line' :=
  ⟨congrArg Text.trimEnd same, .inr ⟨same, kept⟩⟩

theorem isBlankText (same : SameLine sieve inBlock line line') :
    Text.isBlankText line = Text.isBlankText line' := by
  rw [← isBlankText_trim, same.trim, isBlankText_trim]

theorem contains (same : SameLine sieve inBlock line line') :
    Text.contains line assignmentSign = Text.contains line' assignmentSign := by
  rw [← contains_trim, same.trim, contains_trim]

theorem firstWord (same : SameLine sieve inBlock line line') :
    Text.firstWord line = Text.firstWord line' := by
  rw [Text.firstWord, ← words_trim, same.trim, words_trim, Text.firstWord]

theorem isRemark (same : SameLine sieve inBlock line line') :
    Reader.isRemark inBlock line = Reader.isRemark inBlock line' := by
  simp only [Reader.isRemark, isLineComment, startsBlock, same.trim]

theorem ofLine (same : SameLine sieve inBlock line line') :
    LineKind.ofLine inBlock line = LineKind.ofLine inBlock line' := by
  unfold LineKind.ofLine isLineComment startsBlock
  rw [same.trim]

theorem blockAfter (same : SameLine sieve inBlock line line') :
    LineKind.blockAfter inBlock line = LineKind.blockAfter inBlock line' := by
  simp only [LineKind.blockAfter, endsBlock, leavesBlockOpen, startsBlock, same.trim]

theorem coreAll_ofComment (same : SameLine sieve inBlock line line') (level : Int)
    (number number' : Nat) :
    Node.coreAll sieve [Node.ofComment line inBlock level number] =
      Node.coreAll sieve [Node.ofComment line' inBlock level number'] := by
  rcases same.kept with ⟨dropped, dropped'⟩ | ⟨trimmed, kept⟩
  · rw [Node.coreAll_faint (Node.isFaint_ofComment dropped ..),
      Node.coreAll_faint (Node.isFaint_ofComment dropped' ..)]
  · have content : Node.ofComment line inBlock level number =
        Node.ofComment line' inBlock level number := by
      cases inBlock with
      | true => rw [kept rfl]
      | false => simp [Node.ofComment, trimmed]
    rw [content]
    exact (Node.alike_ofComment ..).coreAll_single

theorem symm (same : SameLine sieve inBlock line line') : SameLine sieve inBlock line' line := by
  refine ⟨same.trim.symm, ?_⟩
  rcases same.kept with ⟨dropped, dropped'⟩ | ⟨trimmed, kept⟩
  · exact .inl ⟨dropped', dropped⟩
  · exact .inr ⟨trimmed.symm, fun block => (kept block).symm⟩

end SameLine

/-! ## Lines that are passed over -/

theorem isRemark_of_isBlankText (blank : isBlankText line = true) (inBlock : Bool) :
    Reader.isRemark inBlock line = inBlock := by
  simp [Reader.isRemark, isLineComment, startsBlock, trim_of_blank blank, startsWith]

theorem blockAfter_of_isBlankText (blank : isBlankText line = true) (inBlock : Bool) :
    LineKind.blockAfter inBlock line = inBlock := by
  cases inBlock with
  | true => simp [LineKind.blockAfter, endsBlock, endsWith, trim_of_blank blank, List.isSuffixOf]
  | false =>
    exact LineKind.blockAfter_of_not_isRemark (isRemark_of_isBlankText blank false)

/-- A line that is passed over: it is blank or a comment, and opens and closes no block comment. -/
structure Idle (sieve : Sieve) (inBlock : Bool) (line : Text) : Prop where
  dropped : sieve.drops line = true
  silent : Reader.isRemark inBlock line = true ∨ isBlankText line = true
  /-- A block comment is open behind it exactly if one is open before it. -/
  block : LineKind.blockAfter inBlock line = inBlock

theorem idle_of_isBlankText (blank : isBlankText line = true) (inBlock : Bool) :
    Idle sieve inBlock line :=
  ⟨sieve.blank blank, .inr blank, blockAfter_of_isBlankText blank inBlock⟩

theorem Idle.isBlankText {inBlock : Bool} (idle : Idle sieve inBlock line)
    (code : Reader.isRemark inBlock line = false) : Text.isBlankText line = true := by
  rcases idle.silent with remark | blank
  · rw [code] at remark
    cases remark
  · exact blank

theorem Idle.ofLine {inBlock : Bool} (idle : Idle sieve inBlock line) :
    LineKind.ofLine inBlock line =
      if Reader.isRemark inBlock line then .comment else .other := by
  split
  · rename_i remark
    exact (LineKind.ofLine_eq_comment ..).mpr remark
  · rename_i code
    have blank := idle.isBlankText (Bool.eq_false_iff.mpr code)
    rw [isRemark_of_isBlankText blank, Bool.not_eq_true] at code
    subst code
    simp only [LineKind.ofLine, isLineComment, startsBlock, trim_of_blank blank]
    decide

end Text

/-! ## What is due -/

/-- What may still belong to a definition behind the lines that have been read. -/
inductive Due where
  | nothing
  | type
  | brace
  deriving DecidableEq, Repr

namespace Due

def ofCode (code : Text) : Due := if Reader.hasBrace code then nothing else brace

/-- What is due behind the first line of a definition with the given code of its type. -/
def ofType (code : Text) : Due := if code = [] then type else ofCode code

/-- What is due behind a comment: a brace behind it is not looked for. -/
def afterRemark : Due → Due
  | type => type
  | _ => nothing

def afterCode (due : Due) (code : Text) : Due := if due = type then ofCode code else nothing

def after (due : Due) (inBlock : Bool) (line : Text) : Due :=
  if Text.isBlankText line then due
  else
    match LineKind.ofLine inBlock line with
    | .comment => due.afterRemark
    | .typeDefinition => ofType (Reader.firstType line).code
    | _ => due.afterCode (Text.codeLine (Text.trim line)).code

theorem afterCode_afterRemark (due : Due) (code : Text) :
    due.afterRemark.afterCode code = due.afterCode code := by
  cases due <;> rfl

theorem afterCode_after_remark {inBlock : Bool} {line : Text}
    (remark : Reader.isRemark inBlock line = true) (due : Due) (code : Text) :
    (due.after inBlock line).afterCode code = due.afterCode code := by
  unfold after
  split
  · rfl
  · rw [(LineKind.ofLine_eq_comment ..).mpr remark]
    exact afterCode_afterRemark due code

theorem afterCode_after_idle {sieve : Sieve} {inBlock : Bool} {line : Text}
    (idle : Text.Idle sieve inBlock line) (due : Due) (code : Text) :
    (due.after inBlock line).afterCode code = due.afterCode code := by
  rcases idle.silent with remark | blank
  · exact afterCode_after_remark remark due code
  · rw [after, if_pos blank]

end Due

/-! ## Lines in step -/

/-- Lines that differ only in lines that are passed over and in the blanks around the others.
`inBlock` tells whether a block comment is open before them, and `due` what may belong to the
definition before them.  Where a brace is due, a comment is passed over only if no brace follows. -/
inductive SameLines (sieve : Sieve) : Bool → Due → List Text → List Text → Prop where
  | done {inBlock : Bool} {due : Due} : SameLines sieve inBlock due [] []
  | left {inBlock : Bool} {due : Due} {line : Text} {rest lines : List Text}
      (idle : Text.Idle sieve inBlock line)
      (ahead : due = .brace → Text.isBlankText line = true ∨
        Reader.bracesNext (line :: rest) = Reader.bracesNext lines)
      (later : SameLines sieve inBlock (due.after inBlock line) rest lines) :
      SameLines sieve inBlock due (line :: rest) lines
  | right {inBlock : Bool} {due : Due} {line : Text} {lines rest : List Text}
      (idle : Text.Idle sieve inBlock line)
      (ahead : due = .brace → Text.isBlankText line = true ∨
        Reader.bracesNext lines = Reader.bracesNext (line :: rest))
      (later : SameLines sieve inBlock (due.after inBlock line) lines rest) :
      SameLines sieve inBlock due lines (line :: rest)
  | both {inBlock : Bool} {due : Due} {line line' : Text} {rest rest' : List Text}
      (seen : Text.isBlankText line = false) (same : Text.SameLine sieve inBlock line line')
      (later : SameLines sieve (LineKind.blockAfter inBlock line) (due.after inBlock line) rest
        rest') :
      SameLines sieve inBlock due (line :: rest) (line' :: rest')

namespace SameLines

variable {sieve : Sieve} {inBlock : Bool} {due : Due} {line : Text} {lines lines' : List Text}

theorem left_blank (blank : Text.isBlankText line = true)
    (later : SameLines sieve inBlock due lines lines') :
    SameLines sieve inBlock due (line :: lines) lines' := by
  refine .left (Text.idle_of_isBlankText blank inBlock) (fun _ => .inl blank) ?_
  rwa [Due.after, if_pos blank]

theorem right_blank (blank : Text.isBlankText line = true)
    (later : SameLines sieve inBlock due lines lines') :
    SameLines sieve inBlock due lines (line :: lines') := by
  refine .right (Text.idle_of_isBlankText blank inBlock) (fun _ => .inl blank) ?_
  rwa [Due.after, if_pos blank]

theorem symm (same : SameLines sieve inBlock due lines lines') :
    SameLines sieve inBlock due lines' lines := by
  induction same with
  | done => exact .done
  | left idle ahead later ih =>
    exact .right idle (fun isBrace => (ahead isBrace).imp_right Eq.symm) ih
  | right idle ahead later ih =>
    exact .left idle (fun isBrace => (ahead isBrace).imp_right Eq.symm) ih
  | @both inBlock due line line' rest rest' seen same later ih =>
    have type : (Reader.firstType line).code = (Reader.firstType line').code := by
      simp only [Reader.firstType, Reader.definitionSides, same.trim]
    have after : due.after inBlock line = due.after inBlock line' := by
      simp only [Due.after, same.isBlankText, same.ofLine, same.trim, type]
    rw [same.blockAfter, after] at ih
    exact .both (same.isBlankText ▸ seen) same.symm ih

theorem bracesNext (same : SameLines sieve inBlock .brace lines lines') :
    Reader.bracesNext lines = Reader.bracesNext lines' := by
  generalize isBrace : Due.brace = due at same
  induction same with
  | done => rfl
  | left idle ahead later ih =>
    rcases ahead isBrace.symm with blank | same
    · rw [Reader.bracesNext, if_pos blank]
      exact ih (by rw [Due.after, if_pos blank, isBrace])
    · exact same
  | right idle ahead later ih =>
    rcases ahead isBrace.symm with blank | same
    · rw [@Reader.bracesNext.eq_2, if_pos blank]
      exact ih (by rw [Due.after, if_pos blank, isBrace])
    · exact same
  | both seen same later ih =>
    rw [Reader.bracesNext, Reader.bracesNext, ← same.isBlankText, if_neg (by simp [seen]),
      if_neg (by simp [seen]), same.trim]

end SameLines

/-! ## Readers in step -/

/-- Two readers that stand at the same depth and have put aside the same comments, apart from those
that are passed over. -/
structure Reader.Alike (sieve : Sieve) (first second : Reader) : Prop where
  level : first.level = second.level
  inBlock : first.inBlock = second.inBlock
  setAside : Node.coreAll sieve first.setAside = Node.coreAll sieve second.setAside

/-- Two readers before lines in step, the second with room for all of its lines. -/
structure Reader.InStep (sieve : Sieve) (limits : Limits) (due : Due) (first : Reader)
    (lines : List Text) (second : Reader) (lines' : List Text) : Prop where
  alike : first.Alike sieve second
  lines : SameLines sieve first.inBlock due lines lines'
  /-- The second reader may read all lines that are left. -/
  room : (second.linesRead + lines'.length : Int) ≤ limits.lines

namespace Reader

open Reading

variable {sieve : Sieve} {limits limits' : Limits} {due : Due} {first second after : Reader}

theorem Alike.symm (alike : first.Alike sieve second) : second.Alike sieve first :=
  ⟨alike.level.symm, alike.inBlock.symm, alike.setAside.symm⟩

theorem Alike.counted (alike : first.Alike sieve second) :
    first.counted.Alike sieve second.counted :=
  ⟨alike.level, alike.inBlock, alike.setAside⟩

theorem Alike.pass (alike : first.Alike sieve second) {line line' : Text}
    (same : Text.SameLine sieve first.inBlock line line') :
    (first.pass line).Alike sieve (second.pass line') := by
  refine ⟨alike.level, ?_, alike.setAside⟩
  rw [Reader.pass, Reader.pass, same.blockAfter, alike.inBlock]

theorem Alike.putAside (alike : first.Alike sieve second) {line line' : Text}
    (same : Text.SameLine sieve first.inBlock line line') (number number' : Nat) :
    (first.putAside line number).Alike sieve (second.putAside line' number') := by
  refine ⟨alike.level, alike.inBlock, ?_⟩
  rw [Reader.putAside, Reader.putAside, Node.coreAll_append, Node.coreAll_append, alike.setAside,
    ← alike.inBlock, ← alike.level, same.coreAll_ofComment _ number number']

theorem InStep.mayRead {lines rest' : List Text} {line' : Text}
    (inStep : InStep sieve limits due first lines second (line' :: rest')) :
    MayRead limits second := by
  have room := inStep.room
  rw [List.length_cons] at room
  push_cast at room
  unfold MayRead
  omega

theorem InStep.counted_room {lines rest' : List Text} {line' : Text}
    (inStep : InStep sieve limits due first lines second (line' :: rest')) :
    (second.counted.linesRead + rest'.length : Int) ≤ limits.lines := by
  have room := inStep.room
  rw [List.length_cons] at room
  simp only [counted]
  push_cast at room ⊢
  omega

/-! ## The next line of code -/

def overIdle (reader : Reader) (line : Text) (number : Nat) : Reader :=
  if isRemark reader.inBlock line then (reader.counted.putAside line number).pass line
  else reader.counted

theorem codeRun_idle {line : Text} {rest : List Text} {number count : Nat} {code : CodeLine}
    (idle : Text.Idle sieve first.inBlock line) :
    CodeRun limits first number (line :: rest) code count after ↔
      MayRead limits first ∧ ∃ later, count = later + 1 ∧
        CodeRun limits (first.overIdle line number) (number + 1) rest code later after := by
  unfold overIdle
  constructor
  · intro run
    cases run with
    | comment room isComment later =>
      rw [if_pos isComment]
      exact ⟨room, _, rfl, later⟩
    | blank room noComment isBlank later =>
      rw [if_neg (by simp [noComment])]
      exact ⟨room, _, rfl, later⟩
    | code room noComment noBlank noSign =>
      have blank := idle.isBlankText noComment
      simp [noBlank] at blank
  · rintro ⟨room, later, rfl, run⟩
    split at run
    · rename_i remark
      exact .comment room remark run
    · rename_i code
      have code := Bool.eq_false_iff.mpr code
      exact .blank room code (idle.isBlankText code) run

theorem overIdle_inBlock {line : Text} (idle : Text.Idle sieve first.inBlock line)
    (number : Nat) : (first.overIdle line number).inBlock = first.inBlock := by
  unfold overIdle
  split
  · exact idle.block
  · rfl

theorem Alike.overIdle (alike : first.Alike sieve second) {line : Text}
    (idle : Text.Idle sieve first.inBlock line) (number : Nat) :
    (first.overIdle line number).Alike sieve second := by
  refine ⟨?_, (overIdle_inBlock idle number).trans alike.inBlock, ?_⟩
  · rw [← alike.level]
    unfold Reader.overIdle
    split <;> rfl
  · rw [← alike.setAside]
    unfold Reader.overIdle
    split
    · change Node.coreAll sieve (first.setAside ++ [_]) = _
      rw [Node.coreAll_append, Node.coreAll_faint (Node.isFaint_ofComment idle.dropped _ _ _),
        List.append_nil]
    · rfl

theorem InStep.codeRun {lines lines' : List Text} {number count : Nat} {code : CodeLine}
    (inStep : InStep sieve limits' due first lines second lines') (number' : Nat)
    (run : CodeRun limits first number lines code count after) :
    ∃ count' after', CodeRun limits' second number' lines' code count' after' ∧
      InStep sieve limits' (due.afterCode code.code) after (lines.drop count) after'
        (lines'.drop count') := by
  obtain ⟨alike, same, room⟩ := inStep
  generalize state : first.inBlock = inBlock at same
  -- On how the lines match; a line that is passed over is a step of one reader alone.
  induction same generalizing first second number number' count with
  | done => cases run
  | @left inBlock due line rest lines idle ahead later ih =>
    subst state
    obtain ⟨-, count, rfl, further⟩ := (codeRun_idle idle).mp run
    have stays := ih number' further (alike.overIdle idle number) room
      (overIdle_inBlock idle number)
    rwa [Due.afterCode_after_idle idle] at stays
  | @right inBlock due line lines rest idle ahead later ih =>
    have inStep : InStep sieve limits' due first lines second (line :: rest) :=
      ⟨alike, .right (state ▸ idle) ahead (state ▸ later), room⟩
    have idle' : Text.Idle sieve second.inBlock line := by rwa [← alike.inBlock, state]
    have counts : (second.overIdle line number').linesRead = second.counted.linesRead := by
      unfold Reader.overIdle
      split <;> rfl
    obtain ⟨count', after', run', stays⟩ := ih (number' + 1) run
      (alike.symm.overIdle idle' number').symm (counts ▸ inStep.counted_room) state
    rw [Due.afterCode_after_idle idle] at stays
    exact ⟨count' + 1, after',
      (codeRun_idle idle').mpr ⟨inStep.mayRead, count', rfl, run'⟩, stays⟩
  | @both inBlock due line line' rest rest' seen same later ih =>
    have inStep : InStep sieve limits' due first (line :: rest) second (line' :: rest') :=
      ⟨alike, .both seen (state ▸ same) (state ▸ later), room⟩
    subst state
    have state' := alike.inBlock
    cases run with
    | comment room isComment further =>
      have moved : Alike sieve ((first.counted.putAside line number).pass line)
          ((second.counted.putAside line' number').pass line') :=
        (alike.counted.putAside same number number').pass same
      obtain ⟨count', after', run', stays⟩ :=
        ih (number' + 1) further moved inStep.counted_room rfl
      rw [Due.afterCode_after_remark isComment] at stays
      refine ⟨count' + 1, after', .comment inStep.mayRead ?_ run', stays⟩
      rw [← state', ← same.isRemark, isComment]
    | blank room noComment isBlank further => simp [seen] at isBlank
    | code room noComment noBlank noSign =>
      refine ⟨1, second.counted, ?_, alike.counted, ?_, inStep.counted_room⟩
      · rw [same.trim]
        refine .code inStep.mayRead ?_ (same.isBlankText ▸ seen) (same.contains ▸ noSign)
        rw [← state', ← same.isRemark, noComment]
      · have coded : due.after first.inBlock line =
            due.afterCode (Text.codeLine (Text.trim line)).code := by
          have noRemark : LineKind.ofLine first.inBlock line ≠ .comment := by
            rw [ne_eq, LineKind.ofLine_eq_comment, noComment]
            decide
          have noDefinition : LineKind.ofLine first.inBlock line ≠ .typeDefinition := by
            intro defines
            rw [LineKind.contains_of_typeDefinition defines] at noSign
            cases noSign
          rw [Due.after, if_neg (by simp [seen])]
          split
          · contradiction
          · contradiction
          · rfl
        rw [LineKind.blockAfter_of_not_isRemark noComment, coded] at later
        exact later

/-! ## Types -/

structure TypeText.Alike (type type' : TypeText) : Prop where
  code : type.code = type'.code
  comment : type.comment = type'.comment

theorem TypeText.Alike.extend {type type' : TypeText} (alike : type.Alike type') (line : CodeLine)
    (count count' : Nat) : (type.extend line count).Alike (type'.extend line count') := by
  refine ⟨?_, ?_⟩
  · rw [TypeText.extend, TypeText.extend, alike.code]
  · rw [TypeText.extend, TypeText.extend, alike.comment]

theorem InStep.extend {type type' : TypeText} {rest rest' : List Text} {number count : Nat}
    {line : CodeLine} (alike : type.Alike type')
    (inStep : InStep sieve limits' due first (rest.drop type.count) second
      (rest'.drop type'.count))
    (number' : Nat)
    (run : CodeRun limits first number (rest.drop type.count) line count after) :
    ∃ count' after', CodeRun limits' second number' (rest'.drop type'.count) line count' after' ∧
      (type.extend line count).Alike (type'.extend line count') ∧
      InStep sieve limits' (due.afterCode line.code) after
        (rest.drop (type.extend line count).count) after'
        (rest'.drop (type'.extend line count').count) := by
  obtain ⟨count', after', run', stays⟩ := inStep.codeRun number' run
  rw [List.drop_drop, List.drop_drop] at stays
  exact ⟨count', after', run', alike.extend line count count', stays⟩

theorem InStep.readType {definition : Nat} {type type' result : TypeText} {rest rest' : List Text}
    (alike : type.Alike type')
    (inStep : InStep sieve limits' (.ofType type.code) first (rest.drop type.count) second
      (rest'.drop type'.count))
    (definition' : Nat)
    (read : Yields (readType limits definition type rest) first result after) :
    ∃ result' after' due',
      Yields (Reader.readType limits' definition' type' rest') second result' after' ∧
      result.Alike result' ∧
      InStep sieve limits' due' after (rest.drop result.count) after'
        (rest'.drop result'.count) := by
  obtain ⟨early, between, begun, ended⟩ := (yields_readType ..).mp read
  obtain ⟨early', between', begun', same, stays⟩ : ∃ early' between',
      (if type'.code = [] then
        ∃ line count, CodeRun limits' second (definition' + 1 + type'.count)
          (rest'.drop type'.count) line count between' ∧ type'.extend line count = early'
      else early' = type' ∧ between' = second) ∧ early.Alike early' ∧
      InStep sieve limits' (.ofCode early.code) between (rest.drop early.count) between'
        (rest'.drop early'.count) := by
    rw [← alike.code]
    split at begun
    · rename_i empty
      obtain ⟨line, count, run, rfl⟩ := begun
      obtain ⟨count', between', run', same, stays⟩ :=
        inStep.extend alike (definition' + 1 + type'.count) run
      have due : (Due.ofType type.code).afterCode line.code =
          .ofCode (type.extend line count).code := by
        rw [Due.ofType, if_pos empty, TypeText.extend, if_pos empty]
        rfl
      rw [due] at stays
      exact ⟨_, between', by rw [if_pos empty]; exact ⟨line, count', run', rfl⟩, same, stays⟩
    · rename_i filled
      obtain ⟨rfl, rfl⟩ := begun
      rw [Due.ofType, if_neg filled] at inStep
      exact ⟨type', second, by rw [if_neg filled]; exact ⟨rfl, rfl⟩, alike, inStep⟩
  -- Only a type without a brace makes a reader look ahead, and there the lines agree.
  have braces : (!hasBrace early.code && bracesNext (rest.drop early.count)) =
      (!hasBrace early'.code && bracesNext (rest'.drop early'.count)) := by
    rw [← same.code]
    cases found : hasBrace early.code with
    | true => rfl
    | false =>
      have lines := stays.lines
      rw [Due.ofCode, found, if_neg (by decide)] at lines
      rw [lines.bracesNext]
  rw [braces] at ended
  split at ended
  · rename_i further
    obtain ⟨line, count, run, rfl⟩ := ended
    obtain ⟨count', after', run', sameAll, staysAll⟩ :=
      stays.extend same (definition' + 1 + early'.count) run
    refine ⟨early'.extend line count', after', _, ?_, sameAll, staysAll⟩
    refine (yields_readType ..).mpr ⟨early', between', begun', ?_⟩
    rw [if_pos further]
    exact ⟨line, count', run', rfl⟩
  · rename_i whole
    obtain ⟨rfl, rfl⟩ := ended
    refine ⟨early', between', _, ?_, same, stays⟩
    refine (yields_readType ..).mpr ⟨early', between', begun', ?_⟩
    rw [if_neg whole]
    exact ⟨rfl, rfl⟩

/-! ## Bodies -/

def overIdleBody (reader : Reader) (body : Body) (line : Text) (number : Nat) : Body :=
  if isRemark reader.inBlock line then body.readComment line reader.inBlock number else body

theorem bodyRun_idle {line : Text} {rest : List Text} {body : Body} {number count : Nat}
    {node : Node} (idle : Text.Idle sieve first.inBlock line) :
    BodyRun limits first body number (line :: rest) node count after ↔
      MayRead limits first ∧ ∃ later, count = later + 1 ∧
        BodyRun limits (first.counted.pass line) (first.overIdleBody body line number) (number + 1)
          rest node later after := by
  have kind := idle.ofLine
  unfold overIdleBody
  constructor
  · intro run
    cases run with
    | comment room isComment later =>
      rw [if_pos ((LineKind.ofLine_eq_comment ..).mp isComment)]
      exact ⟨room, _, rfl, later⟩
    | blank room stands isBlank later =>
      have code : ¬isRemark first.inBlock line = true := by
        intro remark
        rw [kind, if_pos remark] at stands
        cases stands
      rw [if_neg code]
      exact ⟨room, _, rfl, later⟩
    | code room stands noBlank read later =>
      have code : ¬isRemark first.inBlock line = true := by
        intro remark
        rw [kind, if_pos remark] at stands
        cases stands
      have blank := idle.isBlankText (Bool.eq_false_iff.mpr code)
      simp [noBlank] at blank
    | close room stands noBlank read =>
      have code : ¬isRemark first.inBlock line = true := by
        intro remark
        rw [kind, if_pos remark] at stands
        cases stands
      have blank := idle.isBlankText (Bool.eq_false_iff.mpr code)
      simp [noBlank] at blank
  · rintro ⟨room, later, rfl, run⟩
    split at run
    · rename_i remark
      exact .comment room (kind.trans (if_pos remark)) run
    · rename_i code
      refine .blank room ?_ (idle.isBlankText (Bool.eq_false_iff.mpr code)) run
      rw [kind, if_neg code]
      rfl

theorem Alike.passIdle (alike : first.Alike sieve second) {line : Text}
    (idle : Text.Idle sieve first.inBlock line) : (first.counted.pass line).Alike sieve second :=
  ⟨alike.level, idle.block.trans alike.inBlock, alike.setAside⟩

theorem alike_overIdleBody {body body' : Body} (alike : body.Alike sieve body') {line : Text}
    (idle : Text.Idle sieve first.inBlock line) (number : Nat) :
    (first.overIdleBody body line number).Alike sieve body' := by
  unfold overIdleBody
  split
  · exact alike.skipComment idle.dropped first.inBlock number
  · exact alike

/-- Two readers in step read alike bodies to alike definitions. -/
theorem InStep.bodyRun (depth : limits.depth = limits'.depth) {lines lines' : List Text}
    {body body' : Body} {number count : Nat} {node : Node}
    (inStep : InStep sieve limits' due first lines second lines')
    (bodies : body.Alike sieve body') (number' : Nat)
    (run : BodyRun limits first body number lines node count after) :
    ∃ node' count' after' due', BodyRun limits' second body' number' lines' node' count' after' ∧
      node.Alike sieve node' ∧
      InStep sieve limits' due' after (lines.drop count) after' (lines'.drop count') := by
  obtain ⟨alike, same, room⟩ := inStep
  generalize state : first.inBlock = inBlock at same
  -- A comment that is passed over is a child of one body only, which its core leaves out.
  induction same generalizing first second body body' number number' count with
  | done => cases run
  | left idle ahead later ih =>
    subst state
    obtain ⟨-, count, rfl, further⟩ := (bodyRun_idle idle).mp run
    exact ih (alike_overIdleBody bodies idle number) number' further (alike.passIdle idle) room
      idle.block
  | @right inBlock due line lines rest idle ahead later ih =>
    have inStep : InStep sieve limits' due first lines second (line :: rest) :=
      ⟨alike, .right (state ▸ idle) ahead (state ▸ later), room⟩
    have idle' : Text.Idle sieve second.inBlock line := by rwa [← alike.inBlock, state]
    obtain ⟨node', count', after', due', run', same, stays⟩ :=
      ih (alike_overIdleBody bodies.symm idle' number').symm (number' + 1) run
        (alike.symm.passIdle idle').symm inStep.counted_room state
    exact ⟨node', count' + 1, after', due',
      (bodyRun_idle idle').mpr ⟨inStep.mayRead, count', rfl, run'⟩, same, stays⟩
  | @both inBlock due line line' rest rest' seen same later ih =>
    have inStep : InStep sieve limits' due first (line :: rest) second (line' :: rest') :=
      ⟨alike, .both seen (state ▸ same) (state ▸ later), room⟩
    subst state
    have seen' : Text.isBlankText line' = false := same.isBlankText ▸ seen
    have kind' : LineKind.ofLine second.inBlock line' = LineKind.ofLine first.inBlock line := by
      rw [← alike.inBlock, same.ofLine]
    have moved : Alike sieve (first.counted.pass line) (second.counted.pass line') :=
      alike.counted.pass same
    cases run with
    | comment room isComment further =>
      have bodies' : (body.readComment line first.inBlock number).Alike sieve
          (body'.readComment line' second.inBlock number') := by
        rw [← alike.inBlock]
        exact bodies.readComment fun level => same.coreAll_ofComment level number number'
      obtain ⟨node', count', after', due', run', nodes, stays⟩ :=
        ih bodies' (number' + 1) further moved inStep.counted_room rfl
      exact ⟨node', count' + 1, after', due',
        .comment inStep.mayRead (kind'.trans isComment) run', nodes, stays⟩
    | blank room stands isBlank further => simp [seen] at isBlank
    | code room stands noBlank read further =>
      obtain ⟨progress', read', bodies'⟩ := bodies.readLine number' read
      cases bodies' with
      | more bodies' =>
        obtain ⟨node', count', after', due', run', nodes, stays⟩ :=
          ih bodies' (number' + 1) further moved inStep.counted_room rfl
        refine ⟨node', count' + 1, after', due', ?_, nodes, stays⟩
        rw [depth, same.trim] at read'
        exact .code inStep.mayRead (kind' ▸ stands) seen' read' run'
    | close room stands noBlank read =>
      obtain ⟨progress', read', bodies'⟩ := bodies.readLine number' read
      cases bodies' with
      | @closed _ node' nodes =>
        refine ⟨node', 1, _, _, ?_, nodes, moved, later, inStep.counted_room⟩
        rw [depth, same.trim] at read'
        exact .close inStep.mayRead (kind' ▸ stands) seen' read'

/-! ## Definitions -/

section

variable {node node' : Node} {type type' : TypeText} (nodes : node.Alike sieve node')
  (types : type.Alike type')
include nodes types

theorem alike_plainNode : (plainNode node type).Alike sieve (plainNode node' type') := by
  have same := congrArg (fun node => plainNode node type) nodes.frame
  refine ⟨same.trans ?_, nodes.children⟩
  simp only [plainNode, types.code, types.comment, Node.frame]

theorem alike_openedNode (header : Text) :
    (openedNode node type header).Alike sieve (openedNode node' type' header) := by
  have same := congrArg (fun node => openedNode node type header) nodes.frame
  refine ⟨same.trans ?_, nodes.children⟩
  simp only [openedNode, types.comment, Node.frame]

theorem alike_inlineNode (header inside trailer : Text) :
    (inlineNode node type header inside trailer).Alike sieve
      (inlineNode node' type' header inside trailer) := by
  have same := congrArg (fun node => inlineNode node type header inside trailer) nodes.frame
  refine ⟨same.trans ?_, nodes.children⟩
  simp only [inlineNode, types.comment, Node.frame]

end

theorem InStep.groupRun (depth : limits.depth = limits'.depth) {rest rest' : List Text}
    {node node' result : Node} {type type' : TypeText} {number count : Nat}
    (inStep : InStep sieve limits' due first (rest.drop type.count) second
      (rest'.drop type'.count))
    (nodes : node.Alike sieve node') (types : type.Alike type') (number' : Nat)
    (run : GroupRun limits number rest node type first result count after) :
    ∃ result' count' after' due',
      GroupRun limits' number' rest' node' type' second result' count' after' ∧
      result.Alike sieve result' ∧
      InStep sieve limits' due' after (rest.drop count) after' (rest'.drop count') := by
  unfold GroupRun at run ⊢
  rw [← types.code]
  split at run
  · obtain ⟨rfl, rfl, rfl⟩ := run
    exact ⟨_, _, _, _, ⟨rfl, rfl, rfl⟩, alike_plainNode nodes types, inStep⟩
  · rename_i header code shape
    obtain ⟨progress, started, later⟩ := run
    have opened := alike_openedNode nodes types header
    obtain ⟨progress', started', same⟩ := Body.start_alike opened started
    rw [depth] at started'
    cases same with
    | closed same =>
      obtain ⟨rfl, rfl, rfl⟩ := later
      exact ⟨_, _, _, _, ⟨_, started', rfl, rfl, rfl⟩, same, inStep⟩
    | more same =>
      obtain ⟨more, bodyRun, rfl⟩ := later
      obtain ⟨result', more', after', due', bodyRun', results, stays⟩ :=
        inStep.bodyRun depth same (number' + 1 + type'.count) bodyRun
      rw [List.drop_drop, List.drop_drop] at stays
      exact ⟨result', _, after', due', ⟨_, started', more', bodyRun', rfl⟩, results, stays⟩
  · rename_i header inside trailer shape
    obtain ⟨rfl, rfl, rfl⟩ := run
    exact ⟨_, _, _, _, ⟨rfl, rfl, rfl⟩, alike_inlineNode nodes types header inside trailer, inStep⟩
  · exact run.elim

theorem InStep.readDefinition (depth : limits.depth = limits'.depth) {line line' : Text}
    {rest rest' : List Text} {node : Node} {number count : Nat} {inBlock : Bool}
    (same : Text.SameLine sieve inBlock line line')
    (inStep : InStep sieve limits' (.ofType (firstType line).code) first rest second rest')
    (number' : Nat)
    (read : Yields (readDefinition limits number line rest) first (node, count) after) :
    ∃ node' count' after' due',
      Yields (Reader.readDefinition limits' number' line' rest') second (node', count') after' ∧
      node.Alike sieve node' ∧
      InStep sieve limits' due' after (rest.drop count) after' (rest'.drop count') := by
  have name : definitionName line = definitionName line' := by
    unfold definitionName definitionSides
    rw [same.trim]
  have start : (firstType line).Alike (firstType line') := by
    unfold firstType definitionSides
    rw [same.trim]
    exact ⟨rfl, rfl⟩
  obtain ⟨named, type, between, readType, run⟩ := (yields_readDefinition ..).mp read
  obtain ⟨type', between', later, readType', types, stays⟩ :=
    InStep.readType start inStep number' readType
  have nodes : (definitionNode between number line type).Alike sieve
      (definitionNode between' number' line' type') := by
    refine ⟨?_, rfl⟩
    simp only [definitionNode, Node.frame, name, types.code, types.comment, stays.alike.level]
  obtain ⟨node', count', after', due', run', same, behind⟩ :=
    stays.groupRun depth nodes types number' run
  refine ⟨node', count', after', due', ?_, same, behind⟩
  exact (yields_readDefinition ..).mpr ⟨name ▸ named, type', between', readType', run'⟩

/-! ## Items -/

theorem lineItem_passes (reader : Reader) (number : Nat) (line : Text) :
    (reader.lineItem number line).2.inBlock = LineKind.blockAfter reader.inBlock line ∧
      (reader.lineItem number line).2.linesRead = reader.linesRead := by
  refine ⟨(Tally.lineItem_kept blind reader number line).2.2.2, ?_⟩
  unfold Reader.lineItem
  cases LineKind.ofLine reader.inBlock line with
  | moduleHeader =>
    simp only
    split <;> rfl
  | _ => rfl

theorem Alike.lineItem (alike : first.Alike sieve second) {line line' : Text}
    (same : Text.SameLine sieve first.inBlock line line') (number number' : Nat) :
    Node.coreAll sieve [(first.lineItem number line).1] =
        Node.coreAll sieve [(second.lineItem number' line').1] ∧
      (first.lineItem number line).2.Alike sieve (second.lineItem number' line').2 := by
  have passed := alike.pass same
  have node : ∀ (kind : NodeKind) (early late : Reader), early.level = late.level →
      (early.itemNode kind line number).Alike sieve (late.itemNode kind line' number') := by
    intro kind early late level
    refine ⟨?_, rfl⟩
    simp only [itemNode, Node.frame, same.trim, level]
  have other := (node .other first second alike.level).coreAll_single
  unfold Reader.lineItem
  rw [← alike.inBlock, ← same.ofLine]
  cases LineKind.ofLine first.inBlock line with
  | comment =>
    refine ⟨?_, passed⟩
    rw [← alike.level]
    exact same.coreAll_ofComment first.level number number'
  | moduleHeader =>
    have named := (node .moduleHeader first second alike.level).withName (Text.firstWord line)
    simp only [same.trim, same.firstWord] at named ⊢
    split
    · exact ⟨named.coreAll_single, congrArg (· + 1) alike.level, passed.inBlock, passed.setAside⟩
    · exact ⟨named.coreAll_single, passed⟩
  | blockBegin =>
    exact ⟨(node .blockBegin first second alike.level).coreAll_single,
      congrArg (· + 1) alike.level, passed.inBlock, passed.setAside⟩
  | blockEnd =>
    have level := congrArg (· - 1) alike.level
    exact ⟨(node .blockEnd _ _ level).coreAll_single, level, passed.inBlock, passed.setAside⟩
  | typeDefinition => exact ⟨other, passed⟩
  | field => exact ⟨other, passed⟩
  | other => exact ⟨other, passed⟩

theorem InStep.readItem (depth : limits.depth = limits'.depth) {line line' : Text}
    {rest rest' : List Text} {node : Node} {number count : Nat}
    (inStep : InStep sieve limits' due first (line :: rest) second (line' :: rest'))
    (seen : Text.isBlankText line = false)
    (same : Text.SameLine sieve first.inBlock line line')
    (later : SameLines sieve (LineKind.blockAfter first.inBlock line)
      (due.after first.inBlock line) rest rest')
    (number' : Nat)
    (read : Yields (readItem limits number line rest) first (node, count) after) :
    ∃ node' count' after' due',
      Yields (Reader.readItem limits' number' line' rest') second (node', count') after' ∧
      Node.coreAll sieve [node] = Node.coreAll sieve [node'] ∧
      InStep sieve limits' due' after (rest.drop count) after' (rest'.drop count') := by
  obtain ⟨-, read⟩ := (yields_readItem ..).mp read
  have kind : LineKind.ofLine first.inBlock line = LineKind.ofLine second.inBlock line' := by
    rw [← inStep.alike.inBlock, same.ofLine]
  split at read
  · rename_i defines
    have type : due.after first.inBlock line = .ofType (firstType line).code := by
      simp only [Due.after, defines, seen, Bool.false_eq_true, if_false]
    have behind : InStep sieve limits' (.ofType (firstType line).code)
        (first.counted.pass line) rest (second.counted.pass line') rest' :=
      ⟨inStep.alike.counted.pass same, type ▸ later, inStep.counted_room⟩
    obtain ⟨node', count', after', due', read', nodes, stays⟩ :=
      behind.readDefinition depth same number' read
    refine ⟨node', count', after', due', (yields_readItem ..).mpr ⟨inStep.mayRead, ?_⟩,
      nodes.coreAll_single, stays⟩
    rwa [if_pos (kind ▸ defines)]
  · rename_i single
    obtain ⟨item, rfl⟩ := read
    obtain ⟨nodes, readers⟩ := inStep.alike.counted.lineItem same number number'
    rw [item] at nodes readers
    refine ⟨_, 0, _, due.after first.inBlock line,
      (yields_readItem ..).mpr ⟨inStep.mayRead, ?_⟩, nodes, readers, ?_, ?_⟩
    · rw [if_neg (kind ▸ single)]
      exact ⟨rfl, rfl⟩
    · have passed := (first.counted.lineItem_passes number line).1
      rw [item] at passed
      rw [passed]
      exact later
    · rw [(second.counted.lineItem_passes number' line').2]
      exact inStep.counted_room

theorem pass_of_idle {line : Text} {reader : Reader}
    (idle : Text.Idle sieve reader.inBlock line) : reader.pass line = reader := by
  rw [Reader.pass, idle.block]

theorem lineItem_idle {line : Text} (reader : Reader)
    (idle : Text.Idle sieve reader.inBlock line) (number : Nat) :
    (reader.lineItem number line).1.isFaint sieve = true ∧
      (reader.lineItem number line).2 = reader := by
  have kind := idle.ofLine
  split at kind
  · simp only [Reader.lineItem, kind]
    exact ⟨Node.isFaint_ofComment idle.dropped .., pass_of_idle idle⟩
  · rename_i code
    have content : Text.neatLine (Text.trim line) = [] := by
      rw [Text.trim_of_blank (idle.isBlankText (Bool.eq_false_iff.mpr code))]
      decide
    have dropped : sieve.drops [] = true := sieve.blank rfl
    simp only [Reader.lineItem, kind]
    refine ⟨?_, pass_of_idle idle⟩
    simp [Node.isFaint, itemNode, content, dropped]

theorem itemsRun_idle {line : Text} {rest : List Text} {number : Nat} {nodes : List Node}
    (idle : Text.Idle sieve first.inBlock line) :
    ItemsRun limits first number 0 (line :: rest) nodes after ↔
      MayRead limits first ∧ ∃ later,
        nodes = first.setAside ++ (first.counted.lineItem number line).1 :: later ∧
        ItemsRun limits { first.counted with setAside := [] } (number + 1) 0 rest later after := by
  have single : ¬LineKind.ofLine first.inBlock line = .typeDefinition := by
    rw [idle.ofLine]
    split <;> decide
  have behind := (lineItem_idle first.counted idle number).2
  constructor
  · intro run
    cases run with
    | item read later =>
      obtain ⟨room, item⟩ := (yields_readItem ..).mp read
      rw [if_neg single] at item
      obtain ⟨item, rfl⟩ := item
      rw [item] at behind
      cases behind
      rw [item]
      exact ⟨room, _, rfl, later⟩
  · rintro ⟨room, later, rfl, run⟩
    have read : Yields (Reader.readItem limits number line rest) first
        ((first.counted.lineItem number line).1, 0) first.counted := by
      refine (yields_readItem ..).mpr ⟨room, ?_⟩
      rw [if_neg single]
      exact ⟨Prod.ext rfl behind, rfl⟩
    have whole := ItemsRun.item read run
    exact whole

/-- Two readers in step read alike items. -/
theorem InStep.itemsRun (depth : limits.depth = limits'.depth) {lines lines' : List Text}
    {nodes : List Node} {number : Nat}
    (inStep : InStep sieve limits' due first lines second lines')
    (settled : first.setAside = []) (settled' : second.setAside = []) (number' : Nat)
    (run : ItemsRun limits first number 0 lines nodes after) :
    ∃ nodes' after', ItemsRun limits' second number' 0 lines' nodes' after' ∧
      Node.coreAll sieve nodes = Node.coreAll sieve nodes' := by
  -- An item may take several lines at once, so the induction is on the lines that are left.
  induction size : lines.length + lines'.length using Nat.strong_induction_on
    generalizing due first second lines lines' nodes number number' with
  | _ size ih =>
    subst size
    obtain ⟨alike, same, room⟩ := inStep
    generalize state : first.inBlock = inBlock at same
    cases same with
    | done =>
      cases run
      exact ⟨[], second, .done _ _ _, rfl⟩
    | @left _ _ line rest _ idle ahead later =>
      subst state
      obtain ⟨-, nodes, rfl, further⟩ := (itemsRun_idle idle).mp run
      have behind : InStep sieve limits' (due.after first.inBlock line)
          { first.counted with setAside := [] } rest second lines' :=
        ⟨⟨alike.level, alike.inBlock, by rw [settled']⟩, later, room⟩
      obtain ⟨nodes', after', run', cores⟩ :=
        ih _ (by simp) behind rfl settled' number' further rfl
      refine ⟨nodes', after', run', ?_⟩
      rw [settled, List.nil_append, Node.coreAll_cons,
        if_pos (lineItem_idle first.counted idle number).1, cores]
    | @right _ _ line _ rest idle ahead later =>
      have inStep : InStep sieve limits' due first lines second (line :: rest) :=
        ⟨alike, .right (state ▸ idle) ahead (state ▸ later), room⟩
      have idle' : Text.Idle sieve second.inBlock line := by rwa [← alike.inBlock, state]
      have behind : InStep sieve limits' (due.after inBlock line) first lines
          { second.counted with setAside := [] } rest :=
        ⟨⟨alike.level, alike.inBlock, by rw [settled]⟩, state ▸ later, inStep.counted_room⟩
      obtain ⟨nodes', after', run', cores⟩ :=
        ih _ (by simp) behind settled rfl (number' + 1) run rfl
      refine ⟨_, after', (itemsRun_idle idle').mpr ⟨inStep.mayRead, nodes', rfl, run'⟩, ?_⟩
      rw [settled', List.nil_append, Node.coreAll_cons,
        if_pos (lineItem_idle second.counted idle' number').1, cores]
    | @both _ _ line line' rest rest' seen same later =>
      have inStep : InStep sieve limits' due first (line :: rest) second (line' :: rest') :=
        ⟨alike, .both seen (state ▸ same) (state ▸ later), room⟩
      subst state
      cases run with
      | @item _ between _ _ count _ _ node nodes read further =>
        obtain ⟨node', count', between', due', read', same, stays⟩ :=
          inStep.readItem depth seen same later number' read
        have behind : InStep sieve limits' due' { between with setAside := [] } (rest.drop count)
            { between' with setAside := [] } (rest'.drop count') :=
          ⟨⟨stays.alike.level, stays.alike.inBlock, rfl⟩, stays.lines, stays.room⟩
        obtain ⟨nodes', after', run', cores⟩ := ih _ (by simp; omega) behind rfl rfl
          (number' + 1 + count') (itemsRun_skip.mp further) rfl
        refine ⟨_, after', .item read' (itemsRun_skip.mpr run'), ?_⟩
        rw [← List.singleton_append, ← @List.singleton_append _ node', Node.coreAll_append,
          Node.coreAll_append, Node.coreAll_append, Node.coreAll_append, stays.alike.setAside, same,
          cores]

end Reader

end AsnLayout
