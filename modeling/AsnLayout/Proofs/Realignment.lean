import AsnLayout.Proofs.Indentation

/-!
# Re-indented texts

A text that has no layout is re-indented, and re-indenting it once more changes nothing.  Whether a
text has a layout shows only in what stands between the blanks around its lines, so a re-indented
text has none either and is a fixed point of formatting.
-/

set_option autoImplicit false

namespace AsnLayout

/-! ## Characters of a text written line by line -/

namespace Text

theorem mem_ofLines {c : Char} {lines : List Text} (member : c ∈ ofLines lines) :
    c = '\n' ∨ ∃ line ∈ lines, c ∈ line := by
  induction lines with
  | nil => cases member
  | cons first later ih =>
    cases later with
    | nil =>
      refine .inr ⟨first, List.mem_singleton_self _, ?_⟩
      simpa [ofLines, List.intercalate] using member
    | cons second others =>
      rw [ofLines_cons_cons, List.mem_append, List.mem_cons] at member
      rcases member with inFirst | newline | behind
      · exact .inr ⟨first, List.mem_cons_self, inFirst⟩
      · exact .inl newline
      · refine (ih behind).imp_right ?_
        rintro ⟨line, found, inLine⟩
        exact ⟨line, List.mem_cons_of_mem _ found, inLine⟩

theorem mem_tabsToSpaces {c : Char} {width column : Nat} {t : Text}
    (member : c ∈ tabsToSpaces width column t) : c = ' ' ∨ (c ∈ t ∧ c ≠ '\t') := by
  induction t generalizing column with
  | nil => cases member
  | cons d rest ih =>
    rw [tabsToSpaces] at member
    split at member
    · rcases List.mem_append.mp member with inGap | behind
      · exact .inl (List.eq_of_mem_replicate inGap)
      · exact (ih behind).imp_right (And.imp_left (List.mem_cons_of_mem _))
    · rename_i noTab
      rcases List.mem_cons.mp member with rfl | behind
      · exact .inr ⟨List.mem_cons_self, noTab⟩
      · exact (ih behind).imp_right (And.imp_left (List.mem_cons_of_mem _))

theorem mem_unifyNewlines {c : Char} {t : Text} (member : c ∈ unifyNewlines t) :
    c = '\n' ∨ (c ∈ t ∧ c ≠ '\r') := by
  fun_induction unifyNewlines t with
  | case1 => cases member
  | case2 rest ih =>
    rcases List.mem_cons.mp member with newline | behind
    · exact .inl newline
    · refine (ih behind).imp_right (And.imp_left fun inRest => ?_)
      exact List.mem_cons_of_mem _ (List.mem_cons_of_mem _ inRest)
  | case3 d rest split ih =>
    rcases List.mem_cons.mp member with first | behind
    · by_cases other : d = '\r'
      · rw [if_pos other] at first
        exact .inl first
      · rw [if_neg other] at first
        subst first
        exact .inr ⟨List.mem_cons_self, other⟩
    · exact (ih behind).imp_right (And.imp_left (List.mem_cons_of_mem _))

theorem mem_plainSource {c : Char} {source : Text} {width : Int}
    (member : c ∈ plainSource source width) :
    c = ' ' ∨ c = '\n' ∨ (c ∈ source ∧ c ≠ '\r' ∧ c ≠ '\t') := by
  rcases mem_ofLines member with newline | ⟨line, found, inLine⟩
  · exact .inr (.inl newline)
  · obtain ⟨given, isLine, rfl⟩ := List.mem_map.mp found
    rcases mem_tabsToSpaces inLine with space | ⟨inGiven, noTab⟩
    · exact .inl space
    · have inLines := (infix_of_mem_lines _ _ isLine).subset inGiven
      refine .inr ((mem_unifyNewlines inLines).imp_right ?_)
      exact fun ⟨inSource, noReturn⟩ => ⟨inSource, noReturn, noTab⟩

theorem isBlankText_plainSource {source : Text} (blank : isBlankText source = true) (width : Int) :
    isBlankText (plainSource source width) = true := by
  refine List.all_eq_true.mpr fun c member => ?_
  rcases mem_plainSource member with rfl | rfl | ⟨inSource, -⟩
  · decide
  · decide
  · exact List.all_eq_true.mp blank c inSource

end Text

/-! ## Re-indenting twice -/

namespace Realign

/-- Of a line only what stands between the blanks around it matters, unless a block comment is
open. -/
theorem line_congr {width : Nat} {depth : Depth} {line line' : Text}
    (same : Text.trim line = Text.trim line') (kept : depth.inBlock = true → line = line') :
    Realign.line width depth line = Realign.line width depth line' := by
  cases block : depth.inBlock with
  | true => rw [kept block]
  | false =>
    simp only [Realign.line, LineKind.blockAfter, LineKind.ofLine, Text.isLineComment,
      Text.startsBlock, Text.endsBlock, Text.leavesBlockOpen, same, block, Bool.false_eq_true,
      if_false]

theorem line_of_inBlock {width : Nat} {depth : Depth} (block : depth.inBlock = true) (line : Text) :
    (Realign.line width depth line).1 = line := by
  simp only [Realign.line, LineKind.ofLine, block, Bool.true_or, if_true]
  split <;> rfl

theorem line_line (width : Nat) (depth : Depth) (line : Text) :
    Realign.line width depth (Realign.line width depth line).1 = Realign.line width depth line :=
  line_congr (trim_line width depth line) fun block => line_of_inBlock block line

theorem lines_lines (width : Nat) (depth : Depth) (given : List Text) :
    Realign.lines width depth (Realign.lines width depth given) =
      Realign.lines width depth given := by
  induction given generalizing depth with
  | nil => rfl
  | cons first later ih =>
    simp only [Realign.lines]
    rw [line_line, ih]

theorem mem_line {c : Char} {width : Nat} {depth : Depth} {line : Text}
    (member : c ∈ (Realign.line width depth line).1) : c = ' ' ∨ c ∈ line := by
  have indented : ∀ level : Int, c ∈ Text.spaces level ++ Text.trim line → c = ' ' ∨ c ∈ line := by
    intro level found
    rcases List.mem_append.mp found with inIndent | inLine
    · exact .inl (List.eq_of_mem_replicate inIndent)
    · exact .inr (line.trim_isInfix.subset inLine)
  unfold Realign.line at member
  simp only at member
  split at member
  · split at member
    · exact .inr member
    · cases member
  · split at member
    · split at member
      · exact .inr member
      · exact indented _ member
    · exact indented _ member

theorem exists_of_mem_lines {width : Nat} {depth : Depth} {given : List Text} {row : Text}
    (member : row ∈ Realign.lines width depth given) :
    ∃ depth', ∃ line ∈ given, row = (Realign.line width depth' line).1 := by
  induction given generalizing depth with
  | nil => cases member
  | cons first later ih =>
    rcases List.mem_cons.mp member with rfl | behind
    · exact ⟨depth, first, List.mem_cons_self, rfl⟩
    · obtain ⟨depth', line, found, rfl⟩ := ih behind
      exact ⟨depth', line, List.mem_cons_of_mem _ found, rfl⟩

end Realign

namespace Text

theorem lines_realign (t : Text) (width : Int) :
    lines (realign t width) = Realign.lines (max 1 width).toNat {} (lines t) := by
  apply lines_ofLines
  · intro row member newline
    obtain ⟨depth, line, found, rfl⟩ := Realign.exists_of_mem_lines member
    rcases Realign.mem_line newline with space | inLine
    · cases space
    · exact newline_not_mem_of_mem_lines t line found inLine
  · rw [← List.length_pos_iff, Realign.length_lines, List.length_pos_iff]
    exact lines_ne_nil t

theorem realign_realign (t : Text) (width : Int) :
    realign (realign t width) width = realign t width := by
  rw [realign, lines_realign, Realign.lines_lines, realign]

theorem mem_realign {c : Char} {t : Text} {width : Int} (member : c ∈ realign t width) :
    c = ' ' ∨ c = '\n' ∨ c ∈ t := by
  rcases mem_ofLines member with newline | ⟨row, found, inRow⟩
  · exact .inr (.inl newline)
  · obtain ⟨depth, line, isLine, rfl⟩ := Realign.exists_of_mem_lines found
    rcases Realign.mem_line inRow with space | inLine
    · exact .inl space
    · exact .inr (.inr ((infix_of_mem_lines t line isLine).subset inLine))

end Text

/-! ## Layouts of re-indented texts -/

/-- Passes over everything, so that all trees with the same code are alike. -/
def Sieve.everything : Sieve where
  drops _ := true
  blank _ := rfl
  trim _ := rfl
  lines _ _ := rfl

/-- Two texts in which the same stands between the blanks around each line. -/
theorem sameLines_realign (width : Nat) (depth : Realign.Depth) (due : Due) (given : List Text) :
    SameLines .everything depth.inBlock due given (Realign.lines width depth given) := by
  induction given generalizing depth due with
  | nil => exact .done
  | cons first later ih =>
    have same := Realign.trim_line width depth first
    have next := ih (Realign.line width depth first).2
    rw [Realign.inBlock_line] at next
    cases blank : Text.isBlankText first with
    | true =>
      have blank' : Text.isBlankText (Realign.line width depth first).1 = true := by
        rw [← Text.isBlankText_trim, same, Text.isBlankText_trim, blank]
      rw [Text.blockAfter_of_isBlankText blank] at next
      exact .left_blank blank (.right_blank blank' (next due))
    | false => exact .both blank ⟨same.symm, .inl ⟨rfl, rfl⟩⟩ (next _)

namespace Format

theorem exists_treeLayout_nil {options : Options} (positive : 1 ≤ options.iterationFactor) :
    ∃ out, treeLayout [] options = .ok out ∧ Text.isBlankText out = true := by
  have idle : Text.Idle .blanks ({} : Reader).inBlock [] := Text.idle_of_isBlankText rfl _
  have room : Reader.MayRead (Limits.ofOptions options (Text.lines []).length) {} := by
    simp only [Reader.MayRead, Limits.ofOptions]
    have lines : ((Text.lines []).length : Int) = 1 := rfl
    rw [lines]
    omega
  have read : Node.ofText [] options = .ok _ :=
    (Reader.ofText_eq_ok ..).mpr ⟨_, _,
      (Reader.itemsRun_idle idle).mpr ⟨room, _, rfl, .done _ _ _⟩, rfl⟩
  exact ⟨_, (bind_eq_ok ..).mpr ⟨_, read, rfl⟩, by rfl⟩

theorem treeLayout_of_isBlankText {t : Text} {options : Options}
    (positive : 1 ≤ options.iterationFactor) (blank : Text.isBlankText t = true) :
    ∃ out, treeLayout t options = .ok out ∧ Text.isBlankText out = true := by
  have blanks : ∀ lines : List Text, lines.all Text.isBlankText = true →
      SameLines .blanks false .nothing [[]] lines := by
    intro lines blank
    refine .left_blank rfl ?_
    induction lines with
    | nil => exact .done
    | cons first later ih =>
      obtain ⟨isBlank, others⟩ := Bool.and_eq_true_iff.mp (List.all_cons ▸ blank)
      exact .right_blank isBlank (ih others)
  obtain ⟨none, empty, blankNone⟩ := exists_treeLayout_nil positive
  rw [Text.isBlankText_eq_all_lines] at blank
  obtain ⟨out, laid, seen⟩ := treeLayout_alike positive (blanks _ blank) empty
  refine ⟨out, laid, ?_⟩
  have unseen : Text.seenLines out = [] := seen.symm.trans (Text.seenLines_of_isBlankText blankNone)
  rw [Text.isBlankText_eq_all_lines]
  simpa [Text.seenLines] using unseen

theorem isBlankText_of_treeLayout {t : Text} {options : Options} {fault : Fault}
    (positive : 1 ≤ options.iterationFactor) (failed : treeLayout t options = .error fault) :
    Text.isBlankText t = false := by
  cases blank : Text.isBlankText t with
  | false => rfl
  | true =>
    obtain ⟨out, laid, -⟩ := treeLayout_of_isBlankText positive blank
    rw [failed] at laid
    cases laid

theorem treeLayout_realign {t : Text} {options : Options} {fault : Fault} (width : Int)
    (positive : 1 ≤ options.iterationFactor) (failed : treeLayout t options = .error fault) :
    ∃ fault', treeLayout (Text.realign t width) options = .error fault' := by
  cases laid : treeLayout (Text.realign t width) options with
  | error fault' => exact ⟨fault', rfl⟩
  | ok out =>
    have same := sameLines_realign (max 1 width).toNat {} .nothing (Text.lines t)
    rw [← Text.lines_realign] at same
    obtain ⟨out', laid', -⟩ := treeLayout_alike positive same.symm laid
    rw [failed] at laid'
    cases laid'

end Format

/-- Where a source has no layout, what it is formatted to has none either and is a fixed point of
formatting. -/
theorem format_format_of_realigned (source : Text) (configuration : Configuration) (fault : Fault)
    (failed : Format.treeLayout
      (Text.plainSource source (Format.options configuration).result.indentWidth)
      (Format.options configuration).result = .error fault) :
    let once := (Format.text source configuration).result
    (∃ fault', Format.treeLayout
      (Text.plainSource once (Format.options configuration).result.indentWidth)
      (Format.options configuration).result = .error fault') ∧
    (Format.text once configuration).result = once := by
  intro once
  set options := (Format.options configuration).result
  have positive := (Format.options_positive configuration).2
  have filled := Format.isBlankText_of_treeLayout positive failed
  have seen : Text.isBlankText source = false := by
    by_contra blank
    rw [Text.isBlankText_plainSource (by simpa using blank)] at filled
    cases filled
  have result : once =
      Text.realign (Text.plainSource source options.indentWidth) options.indentWidth := by
    simp only [once, Format.text, seen]
    exact (Format.layout_of_error failed).1
  have plain : Text.plainSource once options.indentWidth = once := by
    have chars : ∀ c ∈ once, c ≠ '\r' ∧ c ≠ '\t' := by
      intro c member
      rcases Text.mem_realign (result ▸ member) with rfl | rfl | inPlain
      · decide
      · decide
      · rcases Text.mem_plainSource inPlain with rfl | rfl | ⟨-, others⟩
        · decide
        · decide
        · exact others
    exact Text.plainSource_of_not_mem (fun found => (chars _ found).1 rfl)
      (fun found => (chars _ found).2 rfl) _
  obtain ⟨fault', again⟩ := Format.treeLayout_realign options.indentWidth positive failed
  rw [← result] at again
  have seen' := Format.isBlankText_of_treeLayout positive again
  have failed' : Format.treeLayout (Text.plainSource once options.indentWidth) options =
      .error fault' := by
    rw [plain, again]
  refine ⟨⟨fault', failed'⟩, ?_⟩
  calc (Format.text once configuration).result
      = Text.realign (Text.plainSource once options.indentWidth) options.indentWidth := by
        simp only [Format.text, seen']
        exact (Format.layout_of_error failed').1
    _ = Text.realign once options.indentWidth := by rw [plain]
    _ = once := by rw [result, Text.realign_realign]

/-- A group that is not closed, behind a block comment and among tabs and carriage returns. -/
theorem format_format_of_realigned_open_group :
    let source : Text :=
      "-* x\n\ty *-\r\n\tA ::= SET \x7b a NULL,\n\n\tb SET \x7b\r c NULL \x7d".toList
    let once := (Format.text source .absent).result
    Format.treeLayout (Text.plainSource source 2) {} =
        .error ⟨.unmatchedBrace ['A'], some 3⟩ ∧
      once ≠ source ∧ (Format.text once .absent).result = once := by
  intro source
  have failed : Format.treeLayout (Text.plainSource source 2) {} =
      .error ⟨.unmatchedBrace ['A'], some 3⟩ := by
    decide +kernel
  exact ⟨failed, by decide +kernel, (format_format_of_realigned source .absent _ failed).2⟩

end AsnLayout
