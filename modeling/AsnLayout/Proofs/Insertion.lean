import AsnLayout.Proofs.Realignment

/-!
# Inserted comments

A line comment may be inserted between any two lines of a schema, and the lines of code that the
schema is formatted to stay the same.  The one place where this fails is between a type and the
brace of its group: the brace is not looked for behind a comment.
-/

set_option autoImplicit false

namespace AsnLayout

/-! ## Lines of code -/

/-- The lines that are neither blank nor comments, `inBlock` telling whether a block comment is open
before them. -/
def Text.codeLines (inBlock : Bool) : List Text → List Text
  | [] => []
  | line :: rest =>
    let later := codeLines (LineKind.blockAfter inBlock line) rest
    if isBlankText line || LineKind.ofLine inBlock line = .comment then later else line :: later

theorem Text.codeLines_of_idle {sieve : Sieve} {inBlock : Bool} {line : Text}
    (idle : Idle sieve inBlock line) (rest : List Text) :
    codeLines inBlock (line :: rest) = codeLines inBlock rest := by
  have silent : (isBlankText line || LineKind.ofLine inBlock line = .comment) = true := by
    rw [Bool.or_eq_true, decide_eq_true_eq, LineKind.ofLine_eq_comment]
    exact idle.silent.symm
  rw [codeLines, if_pos silent, idle.block]

theorem Text.codeLines_filter {sieve : Sieve}
    (idle : ∀ {line : Text}, sieve.drops line = true → ∀ inBlock, Idle sieve inBlock line)
    (inBlock : Bool) (lines : List Text) :
    codeLines inBlock (lines.filter (!sieve.drops ·)) = codeLines inBlock lines := by
  induction lines generalizing inBlock with
  | nil => rfl
  | cons line rest ih =>
    cases dropped : sieve.drops line with
    | true =>
      rw [List.filter_cons_of_neg (by simp [dropped]), ih, codeLines_of_idle (idle dropped inBlock)]
    | false => rw [List.filter_cons_of_pos (by simp [dropped]), codeLines, codeLines, ih]

theorem Text.codeLines_of_isBlankText {t : Text} (blank : isBlankText t = true) (inBlock : Bool) :
    codeLines inBlock (lines t) = [] := by
  have kept := @codeLines_filter .blanks idle_of_isBlankText inBlock (lines t)
  rw [← kept]
  exact congrArg (codeLines inBlock) (seenLines_of_isBlankText blank)

/-! ## A line comment as a line that is passed over -/

namespace Text

def lineComment (x : Text) : Text := '-' :: '-' :: ' ' :: x

theorem trim_of_mem_lines {front middle back line : Text} (blank : isBlankText front = true)
    (blank' : isBlankText back = true) (single : '\n' ∉ middle)
    (member : line ∈ lines (front ++ (middle ++ back))) :
    isBlankText line = true ∨ trim line = trim middle := by
  induction front generalizing line with
  | nil =>
    rw [List.nil_append, lines_append_of_not_mem single] at member
    obtain ⟨first, later, cut⟩ := exists_lines back
    have blanks := isBlankText_eq_all_lines back
    rw [cut, blank'] at blanks
    obtain ⟨blankFirst, blankLater⟩ := Bool.and_eq_true_iff.mp (List.all_cons ▸ blanks.symm)
    rw [cut, List.modifyHead_cons] at member
    rcases List.mem_cons.mp member with rfl | behind
    · exact .inr (trim_append_blank blankFirst middle)
    · exact .inl (List.all_eq_true.mp blankLater line behind)
  | cons c front ih =>
    obtain ⟨isBlank, blankFront⟩ := Bool.and_eq_true_iff.mp blank
    rw [List.cons_append, lines_cons] at member
    split at member
    · rcases List.mem_cons.mp member with rfl | behind
      · exact .inl rfl
      · exact ih blankFront behind
    · obtain ⟨first, later, cut⟩ := exists_lines (front ++ (middle ++ back))
      rw [cut, List.modifyHead_cons] at member
      rcases List.mem_cons.mp member with rfl | behind
      · refine (ih blankFront (cut ▸ List.mem_cons_self)).imp ?_ ?_
        · exact fun blankFirst => Bool.and_eq_true_iff.mpr ⟨isBlank, blankFirst⟩
        · intro same
          have single : isBlankText [c] = true := by simpa [isBlankText] using isBlank
          exact (trim_append_of_blank single first).trans same
      · exact ih blankFront (cut ▸ List.mem_cons_of_mem _ behind)

end Text

/-- Passes over blank lines and over a line comment. -/
def Sieve.ofRemark (remark : Text) (single : '\n' ∉ remark) : Sieve where
  drops t := Text.isBlankText t || Text.trim t = Text.trim remark
  blank blank := by rw [blank, Bool.true_or]
  trim t := by rw [Text.isBlankText_trim, Text.trim_trim]
  lines := by
    intro t line dropped member
    simp only [Bool.or_eq_true, decide_eq_true_eq] at dropped ⊢
    obtain ⟨front, back, blank, blank', cut⟩ := Text.exists_blank_trim t
    rcases dropped with isBlank | same
    · exact .inl (Sieve.blanks.lines isBlank member)
    · rw [cut] at member
      have single' : '\n' ∉ Text.trim t := by
        rw [same]
        exact fun newline => single (remark.trim_isInfix.subset newline)
      rw [← same, ← Text.trim_trim t]
      exact Text.trim_of_mem_lines blank blank' single' member

namespace Text

variable {x : Text}

theorem trim_lineComment (x : Text) :
    trim (lineComment x) = '-' :: '-' :: trimEnd (' ' :: x) := by
  have mark : isBlank '-' = false := by decide
  rw [trim, lineComment, trimStart_of_not_blank mark]
  exact trimEnd_append_mark mark ['-'] (' ' :: x)

theorem endsBlock_lineComment (inside : ¬['*', '-'] <:+: x) :
    endsBlock (lineComment x) = false := by
  rw [Bool.eq_false_iff]
  intro ends
  have found : ['*', '-'] <:+: lineComment x :=
    (List.isSuffixOf_iff_suffix.mp ends).isInfix.trans (trim_isInfix _)
  simp only [lineComment, pair_infix_cons] at found
  simp [inside] at found

/-- Neither a blank line nor the line comment opens or closes a block comment. -/
theorem idle_ofRemark (single : '\n' ∉ lineComment x) (inside : ¬['*', '-'] <:+: x) {line : Text}
    (dropped : (Sieve.ofRemark (lineComment x) single).drops line = true) (inBlock : Bool) :
    Idle (.ofRemark (lineComment x) single) inBlock line := by
  cases blank : isBlankText line with
  | true => exact idle_of_isBlankText blank inBlock
  | false =>
    have same : trim line = trim (lineComment x) := by
      simpa [Sieve.ofRemark, blank] using dropped
    have starts : isLineComment line = true := by
      rw [isLineComment, same, trim_lineComment]
      rfl
    have noBlock : startsBlock line = false := by
      rw [startsBlock, same, trim_lineComment]
      rfl
    have ends : endsBlock line = false := by
      rw [endsBlock, same]
      exact endsBlock_lineComment inside
    refine ⟨dropped, .inl ?_, ?_⟩
    · simp [Reader.isRemark, starts]
    · cases inBlock <;> simp [LineKind.blockAfter, leavesBlockOpen, noBlock, ends]

end Text

/-! ## Sources with an inserted comment -/

def Due.behind (inBlock : Bool) (due : Due) : List Text → Due
  | [] => due
  | line :: rest => (due.after inBlock line).behind (LineKind.blockAfter inBlock line) rest

/-- A brace is due behind the first lines, and the next ones start with it. -/
def Due.Parts (before after : List Text) : Prop :=
  Due.behind false .nothing before = .brace ∧ Reader.bracesNext after = true

instance (before after : List Text) : Decidable (Due.Parts before after) :=
  inferInstanceAs (Decidable (_ ∧ _))

namespace SameLines

variable {sieve : Sieve}

theorem refl (sieve : Sieve) (inBlock : Bool) (due : Due) (lines : List Text) :
    SameLines sieve inBlock due lines lines := by
  induction lines generalizing inBlock due with
  | nil => exact .done
  | cons line rest ih =>
    cases blank : Text.isBlankText line with
    | true => exact .left_blank blank (.right_blank blank (ih ..))
    | false => exact .both blank (.of_trimStart rfl fun _ => rfl) (ih ..)

/-- A comment that is passed over may be inserted where it does not part a type from its brace. -/
theorem insert {remark : Text} (idle : ∀ inBlock, Text.Idle sieve inBlock remark)
    (noBrace : Text.startsWith (Text.trim remark) ['{'] = false) {inBlock : Bool} {due : Due}
    {before after : List Text}
    (whole : due.behind inBlock before = .brace → Reader.bracesNext after = false) :
    SameLines sieve inBlock due (before ++ after) (before ++ remark :: after) := by
  induction before generalizing inBlock due with
  | nil =>
    refine .right (idle inBlock) (fun isBrace => .inr ?_) (refl ..)
    rw [List.nil_append, whole isBrace, Reader.bracesNext, noBrace, whole isBrace, ite_self]
  | cons line rest ih =>
    have later := ih whole
    cases blank : Text.isBlankText line with
    | true =>
      rw [Text.blockAfter_of_isBlankText blank, Due.after, if_pos blank] at later
      exact .left_blank blank (.right_blank blank later)
    | false => exact .both blank (.of_trimStart rfl fun _ => rfl) later

end SameLines

/-! ## Formatting -/

theorem Format.codeLines_text (source : Text) (configuration : Configuration) :
    Text.codeLines false (Text.lines (Format.text source configuration).result) =
      Text.codeLines false (Text.lines (Format.layout
        (Text.plainSource source (Format.options configuration).result.indentWidth)
        (Format.options configuration).result).result) := by
  unfold Format.text
  split
  · rename_i blank
    obtain ⟨out, laid, none⟩ := Format.treeLayout_of_isBlankText
      (Format.options_positive configuration).2 (Text.isBlankText_plainSource blank _)
    rw [(Format.layout_of_ok laid).1, Text.codeLines_of_isBlankText none]
    rfl
  · rfl

/-- A line comment that does not end a block comment may be inserted between any two lines without
a change to the lines of code in the result, unless it parts a type from its brace. -/
theorem codeLines_format_insert (source source' x : Text) (configuration : Configuration)
    (before after : List Text)
    (lines : Text.lines (Text.unifyNewlines source) = before ++ after)
    (lines' : Text.lines (Text.unifyNewlines source') = before ++ Text.lineComment x :: after)
    (noTab : '\t' ∉ x) (inside : ¬['*', '-'] <:+: x)
    (whole : ¬Due.Parts
      (before.map (Text.tabsToSpaces (Format.options configuration).result.indentWidth.toNat 0))
      (after.map (Text.tabsToSpaces (Format.options configuration).result.indentWidth.toNat 0))) :
    Text.codeLines false (Text.lines (Format.text source' configuration).result) =
      Text.codeLines false (Text.lines (Format.text source configuration).result) := by
  set options := (Format.options configuration).result
  have single : '\n' ∉ Text.lineComment x :=
    Text.newline_not_mem_of_mem_lines (Text.unifyNewlines source') _ (by rw [lines']; simp)
  have plain : Text.tabsToSpaces options.indentWidth.toNat 0 (Text.lineComment x) =
      Text.lineComment x :=
    Text.tabsToSpaces_of_not_mem (by simpa [Text.lineComment] using noTab) _ _
  have idle := @Text.idle_ofRemark x single inside
  have same : SameLines (.ofRemark (Text.lineComment x) single) false .nothing
      (Text.lines (Text.plainSource source options.indentWidth))
      (Text.lines (Text.plainSource source' options.indentWidth)) := by
    rw [Text.lines_plainSource, Text.lines_plainSource, lines, lines', List.map_append,
      List.map_append, List.map_cons, plain]
    refine .insert (fun inBlock => idle (by simp [Sieve.ofRemark]) inBlock) ?_ ?_
    · rw [Text.trim_lineComment]
      rfl
    · intro isBrace
      exact Bool.eq_false_iff.mpr fun starts => whole ⟨isBrace, starts⟩
  have kept := (Format.layout_alike (Format.options_positive configuration).2 same).1
  rw [Format.codeLines_text, Format.codeLines_text, ← Text.codeLines_filter idle,
    ← Text.codeLines_filter idle false (Text.lines (Format.layout _ _).result)]
  exact congrArg (Text.codeLines false) kept.symm

/-- A comment inside a block comment that stands inside a member, before a line with a tab. -/
theorem codeLines_format_insert_in_block :
    let before : List Text := ["A ::= SET \x7b".toList, "a SET".toList, "-* b".toList]
    let after : List Text := ["c *-".toList, "\t\x7b b NULL \x7d \x7d".toList]
    let source := Text.ofLines (before ++ after)
    let source' := Text.ofLines (before ++ Text.lineComment "d \x7b".toList :: after)
    ¬Due.Parts (before.map (Text.tabsToSpaces 2 0)) (after.map (Text.tabsToSpaces 2 0)) ∧
      Text.codeLines false (Text.lines (Format.text source' .absent).result) =
        Text.codeLines false (Text.lines (Format.text source .absent).result) := by
  intro before after source source'
  have whole : ¬Due.Parts (before.map (Text.tabsToSpaces 2 0))
      (after.map (Text.tabsToSpaces 2 0)) := by
    decide +kernel
  exact ⟨whole, codeLines_format_insert source source' "d \x7b".toList .absent before after
    (by decide +kernel) (by decide +kernel) (by decide) (by decide) whole⟩

/-- A comment between a type and its brace takes the group from its definition. -/
theorem codeLines_format_insert_before_brace :
    Text.codeLines false (Text.lines (Format.text "A ::= SEQUENCE\n\x7b a INTEGER \x7d".toList
        .absent).result) =
        ["A ::= SEQUENCE \x7b".toList, "  a INTEGER".toList, "\x7d".toList] ∧
      Text.codeLines false (Text.lines (Format.text
        "A ::= SEQUENCE\n-- x\n\x7b a INTEGER \x7d".toList .absent).result) =
        ["A ::= SEQUENCE".toList, "\x7b a INTEGER \x7d".toList] := by
  constructor <;> decide +kernel

end AsnLayout
