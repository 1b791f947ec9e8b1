import AsnLayout.Proofs.BraceDepth
import AsnLayout.Proofs.Idempotence
import AsnLayout.Proofs.VisibleLayout

/-!
# Rows that stand where the open braces put them

Re-indenting counts the braces that are open before a line.  A row of code that frames no module is
kept by it if the row is indented by the groups around it, less those it closes at its start.
-/

set_option autoImplicit false

namespace AsnLayout

/-! ## Lines that are kept -/

namespace Realign

variable {width before between after depth : Nat} {front back : List Text}

/-- Re-indenting keeps lines, where `before` groups are open before them and `after` behind them. -/
def Keeps (width before : Nat) (given : List Text) (after : Nat) : Prop :=
  ∀ later, lines width { count := before } (given ++ later) =
    given ++ lines width { count := after } later

theorem keeps_nil (width depth : Nat) : Keeps width depth [] depth := fun _ => rfl

theorem Keeps.append (first : Keeps width before front between)
    (second : Keeps width between back after) : Keeps width before (front ++ back) after := by
  intro later
  rw [List.append_assoc, first, second, List.append_assoc]

theorem Keeps.of_line {text : Text}
    (kept : line width { count := before } text = (text, { count := after })) :
    Keeps width before [text] after := by
  intro later
  simp only [List.singleton_append, lines, kept]

theorem keeps_empty (width depth : Nat) : Keeps width depth [[]] depth := .of_line rfl

theorem Keeps.lines_eq (kept : Keeps width before front after) :
    lines width { count := before } front = front := by
  have alone := kept []
  rwa [List.append_nil, lines, List.append_nil] at alone

theorem codeDepths_of_frameless {kind : LineKind} (frameless : kind.framesModule = false)
    (code : Text) (depth : Nat) :
    codeDepths kind code depth = (depth - Text.closersAtStart code,
      ((depth - Text.closersAtStart code : Nat) +
        (Text.braceBalance code + Text.closersAtStart code)).toNat) := by
  cases kind <;> first | rfl | cases frameless

end Realign

/-! ## Pieces that are kept -/

namespace Piece

variable {width before between after depth : Nat} {front back : List Piece}

/-- Pieces without blank lines whose rows re-indenting keeps, where `before` groups are open before
them and `after` behind them. -/
structure Steady (width before : Nat) (pieces : List Piece) (after : Nat) : Prop where
  visible : ∀ piece ∈ pieces, piece.Visible false
  keeps : ∀ last, Realign.Keeps width before (rows width last pieces) after

theorem steady_nil (width depth : Nat) : Steady width depth [] depth :=
  ⟨by simp, fun _ => Realign.keeps_nil width depth⟩

theorem Steady.append (first : Steady width before front between)
    (second : Steady width between back after) : Steady width before (front ++ back) after := by
  refine ⟨List.forall_mem_append.mpr ⟨first.visible, second.visible⟩, fun last => ?_⟩
  obtain ⟨last', cut⟩ := rows_append width last front back
  rw [cut]
  exact (first.keeps last).append (second.keeps last')

theorem steady_line {text : Text} {level : Int} (visible : text.TakesLine)
    (kept : Realign.Keeps width before [indented width level text] after) :
    Steady width before [.line level text] after :=
  ⟨List.forall_mem_singleton.mpr visible, fun _ => kept⟩

theorem steady_gap (width depth : Nat) : Steady width depth [.gap] depth := by
  refine ⟨List.forall_mem_singleton.mpr trivial, fun last => ?_⟩
  cases last with
  | none => exact Realign.keeps_nil width depth
  | some row =>
    rw [rows]
    split
    · exact Realign.keeps_nil width depth
    · exact Realign.keeps_empty width depth

end Piece

/-! ## Code of rows -/

namespace Text

variable {t : Text}

/-- Code on a line of its own, without literals and hyphens, that frames no module. -/
structure PlainCode (t : Text) : Prop where
  unframed : Unframed t
  plain : Plain t
  single : '\n' ∉ t
  unquoted : '"' ∉ t
  noHyphen : '-' ∉ t
  starts : trimStart t = t
  ends : trimEnd t = t
  filled : t ≠ []

def isTidyNote (t : Text) : Bool := startsWith t ['-', '-'] && '\n' ∉ t && trimEnd t = t

theorem exists_of_isTidyNote (tidy : isTidyNote t = true) :
    ∃ rest, t = '-' :: '-' :: rest ∧ '\n' ∉ t ∧ trimEnd t = t := by
  simp only [isTidyNote, Bool.and_eq_true, decide_eq_true_eq] at tidy
  obtain ⟨⟨starts, single⟩, trimmed⟩ := tidy
  obtain ⟨rest, rfl⟩ := List.isPrefixOf_iff_prefix.mp starts
  exact ⟨rest, rfl, single, trimmed⟩

theorem isNoted_of_isTidyNote {comment : Option Text} (tidy : comment.all isTidyNote = true) :
    IsNoted comment := by
  rintro note rfl
  obtain ⟨rest, rfl, single, trimmed⟩ := exists_of_isTidyNote tidy
  exact ⟨⟨rest, rfl⟩, single, by rwa [trim, trimStart_of_not_blank (by decide)]⟩

theorem codeKind_ne_comment (code : Text) : codeKind code ≠ .comment := by
  unfold codeKind
  repeat' split
  all_goals simp

theorem braceBalance_of_unquoted (unquoted : '"' ∉ t) :
    braceBalance t = (t.count '{' : Int) - t.count '}' := by
  have each : ∀ c : Char, (t.map (⟨·, true⟩ : Char → Mark)).countP (·.is c) = t.count c := by
    intro c
    rw [List.countP_map]
    exact List.countP_congr fun d _ => by simp [Mark.is]
  rw [braceBalance_eq_openBraces, marks_of_unquoted t unquoted, Mark.openBraces, each, each]

theorem closersAtStart_of_not_mem (absent : '}' ∉ t) : closersAtStart t = 0 := by
  induction t with
  | nil => rfl
  | cons c rest ih =>
    simp only [List.mem_cons, not_or] at absent
    rw [closersAtStart, if_neg (Ne.symm absent.1), ih absent.2, ite_self]

namespace PlainCode

variable (code : PlainCode t) {comment : Option Text}

include code

theorem framesModule : (codeKind t).framesModule = false := by
  unfold codeKind
  rw [isModuleHeader_of_unframed code.unframed code.plain, opensModule_of_unframed code.unframed,
    startsWithWord_end_of_unframed code.unframed]
  simp only [Bool.false_eq_true, if_false]
  repeat' split
  all_goals rfl

theorem trimmed : trim t = t := by rw [trim, code.starts, code.ends]

theorem seen : isBlankText t = false := by
  have kept := isBlankText_trim_of_ne_nil (t := t) (code.trimmed.symm ▸ code.filled)
  rwa [code.trimmed] at kept

theorem codeLine_remarked (tidy : comment.all isTidyNote = true) :
    trim (Layout.remarked t comment) = Layout.remarked t comment ∧
      (codeLine (Layout.remarked t comment)).code = t := by
  have free : Quoting.commentIndex? {} t = none :=
    commentIndex?_eq_none _ _ fun pair => code.noHyphen (pair.subset (List.mem_cons_self ..))
  cases comment with
  | none => exact ⟨code.trimmed, by simp [Layout.remarked, codeLine, free]⟩
  | some note =>
    obtain ⟨rest, rfl, -, trimmed⟩ := exists_of_isTidyNote tidy
    have ends := trimEnd_append_mark (show isBlank '-' = false by decide) ['-'] rest
    rw [List.singleton_append, trimmed, List.singleton_append] at ends
    have kept : trimEnd rest = rest := (List.cons.inj (List.cons.inj ends).2).2.symm
    have whole : Layout.remarked t (some ('-' :: '-' :: rest)) =
        beside t (some ('-' :: '-' :: rest)) := by
      rw [Layout.remarked, beside, if_neg code.filled]
    refine ⟨?_, ?_⟩
    · change trim (t ++ ' ' :: '-' :: '-' :: rest) = t ++ ' ' :: '-' :: '-' :: rest
      rw [trim_remarked code.seen, code.starts, kept]
    · rw [whole, codeLine_beside free (Quoting.inside_after code.unquoted) code.ends]

theorem starts_remarked (comment : Option Text) (others : Text) :
    startsWith (Layout.remarked t comment) ('-' :: others) = false := by
  obtain ⟨c, rest, rfl⟩ := List.exists_cons_of_ne_nil code.filled
  have other : c ≠ '-' := fun same => code.noHyphen (by simp [same])
  unfold Layout.remarked
  split
  · simp [startsWith, List.isPrefixOf, other.symm]
  · split <;> simp [startsWith, List.isPrefixOf, other.symm]

/-- A row of code is indented by the groups around it, and counts its braces. -/
theorem line_eq (tidy : comment.all isTidyNote = true) (width depth : Nat) (level : Int) :
    Realign.line width { count := depth }
        (Piece.indented width level (Layout.remarked t comment)) =
      (spaces ((depth - closersAtStart t : Nat) * width) ++ Layout.remarked t comment,
        { count := ((depth - closersAtStart t : Nat) + (braceBalance t + closersAtStart t)).toNat }) := by
  obtain ⟨whole, isCode⟩ := code.codeLine_remarked tidy
  have trimmed : trim (Piece.indented width level (Layout.remarked t comment)) =
      Layout.remarked t comment := (Piece.trim_row_line ..).trans whole
  have filled : Layout.remarked t comment ≠ [] := by
    intro empty
    rw [empty] at isCode
    exact code.filled isCode.symm
  have noLine := code.starts_remarked comment ['-']
  have noBlock := code.starts_remarked comment ['*']
  have kind : LineKind.ofLine false (Piece.indented width level (Layout.remarked t comment)) =
      codeKind t := by
    simp only [LineKind.ofLine, isLineComment, startsBlock, trimmed, noLine, noBlock, Bool.or_self,
      Bool.false_eq_true, if_false, isCode]
  have calm : LineKind.blockAfter false
      (Piece.indented width level (Layout.remarked t comment)) = false := by
    simp [LineKind.blockAfter, leavesBlockOpen, startsBlock, trimmed, noBlock]
  simp only [Realign.line, trimmed, if_neg filled, kind, calm, isCode]
  split
  · rename_i comment'
    exact absurd comment' (codeKind_ne_comment t)
  · rw [Realign.codeDepths_of_frameless code.framesModule]

/-- A row is kept if its level and the groups it closes at its start make up the open groups. -/
theorem steady (tidy : comment.all isTidyNote = true) {width level before after : Nat}
    (starts : before = level + closersAtStart t) (stops : (after : Int) = before + braceBalance t) :
    Piece.Steady width before [.line level (Layout.remarked t comment)] after := by
  have line : TakesLine t := ⟨code.single, code.seen⟩
  refine Piece.steady_line (line.remarked (isNoted_of_isTidyNote tidy)) (.of_line ?_)
  have start : before - closersAtStart t = level := by omega
  have stop : ((level : Int) + (braceBalance t + closersAtStart t)).toNat = after := by omega
  rw [code.line_eq tidy, start, stop, Piece.indented]

end PlainCode

/-! ## Rows of words -/

theorem mem_unwords {c : Char} {ws : List Text} (member : c ∈ unwords ws) :
    c = ' ' ∨ ∃ w ∈ ws, c ∈ w := by
  induction ws with
  | nil => cases member
  | cons w later ih =>
    by_cases none : later = []
    · subst none
      exact .inr ⟨w, List.mem_singleton_self w, by simpa [unwords] using member⟩
    · rw [unwords_cons w none, List.mem_append, List.mem_cons] at member
      rcases member with here | space | there
      · exact .inr ⟨w, List.mem_cons_self .., here⟩
      · exact .inl space
      · refine (ih there).imp_right ?_
        rintro ⟨w', inLater, inWord⟩
        exact ⟨w', List.mem_cons_of_mem _ inLater, inWord⟩

theorem trimStart_unwords {ws : List Text} (tokens : ∀ w ∈ ws, IsToken w) (back : Text)
    (some : ws ≠ []) : trimStart (unwords ws ++ back) = unwords ws ++ back := by
  obtain ⟨w, later, rfl⟩ := List.exists_cons_of_ne_nil some
  have token := tokens w (List.mem_cons_self ..)
  obtain ⟨c, rest, rfl⟩ := List.exists_cons_of_ne_nil token.ne_nil
  have solid := token.solid c (List.mem_cons_self ..)
  by_cases none : later = []
  · simpa [none, unwords] using trimStart_of_not_blank solid (rest ++ back)
  · rw [unwords_cons _ none]
    exact trimStart_of_not_blank solid _

theorem trimEnd_unwords {ws : List Text} (tokens : ∀ w ∈ ws, IsToken w) :
    trimEnd (unwords ws) = unwords ws := by
  rcases List.eq_nil_or_concat ws with rfl | ⟨early, w, rfl⟩
  · rfl
  rw [List.concat_eq_append] at tokens ⊢
  have token := tokens w (by simp)
  by_cases none : early = []
  · have ends := trimEnd_append_word token.solid token.ne_nil [] []
    simpa [none, unwords, trimEnd, trimEndBy] using ends
  · have ends := trimEnd_append_word token.solid token.ne_nil (unwords early ++ [' ']) []
    rw [unwords_concat none]
    simpa [trimEnd, trimEndBy] using ends

theorem plainCode_memberText {ws : List Text} (tokens : ∀ w ∈ ws, IsToken w) (some : ws ≠ [])
    (last : Bool) : PlainCode (memberText ws last) := by
  have tokenized : Tokenized (memberText ws last) := by
    refine .of_eq (lexemes_memberText tokens last) fun w member => ?_
    rcases List.mem_append.mp member with inWords | inComma
    · exact tokens w inWords
    · cases last with
      | true => cases inComma
      | false => exact List.mem_singleton.mp inComma ▸ .comma
  obtain ⟨filled, single⟩ := oneLine_memberText (fun w member => (tokens w member).oneLine) some last
  refine ⟨tokenized.unframed, tokenized.plain, single, tokenized.not_mem (by decide),
    tokenized.not_mem (by decide), trimStart_unwords tokens _ some, ?_, filled⟩
  cases last with
  | true => simpa [memberText] using trimEnd_unwords tokens
  | false => exact trimEnd_append_mark (by decide) (unwords ws) []

end Text

def AreWords (ws : List Text) : Prop := ∀ w ∈ ws, IsToken w ∧ w.all isWordChar = true

theorem areWords_wordsOf (atoms : List Atom) : AreWords (wordsOf atoms) :=
  fun w member => ⟨isToken_wordsOf atoms w member, all_isWordChar_wordsOf atoms w member⟩

theorem areWords_header (front : List Atom) (word : GroupWord) :
    AreWords (wordsOf front ++ [word.text]) :=
  fun w member => ⟨isToken_header front word w member, words_header front word w member⟩

/-- What is neither in words nor a space or a comma does not stand in a row of words. -/
theorem AreWords.not_mem {ws : List Text} (words : AreWords ws) (last : Bool) {c : Char}
    (foreign : isWordChar c = false) (noSpace : c ≠ ' ') (noComma : c ≠ ',') :
    c ∉ memberText ws last := by
  intro member
  rw [memberText, List.mem_append] at member
  rcases member with inWords | inComma
  · rcases Text.mem_unwords inWords with space | ⟨w, isWord, inWord⟩
    · exact noSpace space
    · rw [List.all_eq_true.mp (words w isWord).2 c inWord] at foreign
      cases foreign
  · cases last with
    | true => cases inComma
    | false => exact noComma (List.mem_singleton.mp inComma)

theorem AreWords.no_braces {ws : List Text} (words : AreWords ws) (last : Bool) :
    '{' ∉ memberText ws last ∧ '}' ∉ memberText ws last :=
  ⟨words.not_mem last (by decide) (by decide) (by decide),
    words.not_mem last (by decide) (by decide) (by decide)⟩

namespace Piece

variable {width depth : Nat} {ws : List Text} {comment : Option Text}

/-- A row without braces leaves the open groups as they are. -/
theorem steady_words (words : AreWords ws) (some : ws ≠ [])
    (tidy : comment.all Text.isTidyNote = true) (last : Bool) :
    Steady width depth [.line depth (Layout.remarked (memberText ws last) comment)] depth := by
  have code := Text.plainCode_memberText (fun w member => (words w member).1) some last
  obtain ⟨noOpener, noCloser⟩ := words.no_braces last
  refine code.steady tidy ?_ ?_
  · rw [Text.closersAtStart_of_not_mem noCloser, Nat.add_zero]
  · rw [Text.braceBalance_of_unquoted code.unquoted, List.count_eq_zero.mpr noOpener,
      List.count_eq_zero.mpr noCloser, Int.sub_self, Int.add_zero]

theorem steady_opener {front : Text} (code : Text.PlainCode (front ++ ['{']))
    (noOpener : '{' ∉ front) (noCloser : '}' ∉ front) (tidy : comment.all Text.isTidyNote = true) :
    Steady width depth [.line depth (Layout.remarked (front ++ ['{']) comment)] (depth + 1) := by
  refine code.steady tidy ?_ ?_
  · rw [Text.closersAtStart_of_not_mem (by simp [noCloser]), Nat.add_zero]
  · rw [Text.braceBalance_of_unquoted code.unquoted, List.count_append, List.count_append,
      List.count_eq_zero.mpr noOpener, List.count_eq_zero.mpr noCloser]
    rfl

theorem steady_opening (words : AreWords ws) (some : ws ≠ [])
    (tidy : comment.all Text.isTidyNote = true) :
    Steady width depth [.line depth (Layout.remarked (unwords (ws ++ [['{']])) comment)]
      (depth + 1) := by
  have tokens : ∀ w ∈ ws ++ [['{']], IsToken w :=
    List.forall_mem_append.mpr
      ⟨fun w member => (words w member).1, List.forall_mem_singleton.mpr .opening⟩
  have code := Text.plainCode_memberText tokens (by simp) true
  obtain ⟨noOpener, noCloser⟩ := words.no_braces true
  simp only [memberText, if_true, List.append_nil] at code noOpener noCloser
  have whole : unwords (ws ++ [['{']]) = (unwords ws ++ [' ']) ++ ['{'] := by
    rw [unwords_concat some, List.append_assoc, List.singleton_append]
  rw [whole] at code ⊢
  exact steady_opener code (by simp [noOpener]) (by simp [noCloser]) tidy

theorem steady_closing (words : AreWords ws) (tidy : comment.all Text.isTidyNote = true)
    (last : Bool) :
    Steady width (depth + 1)
      [.line depth (Layout.remarked (memberText (['}'] :: ws) last) comment)] depth := by
  have tokens : ∀ w ∈ ['}'] :: ws, IsToken w :=
    List.forall_mem_cons.mpr ⟨.closing, fun w member => (words w member).1⟩
  have code := Text.plainCode_memberText tokens (List.cons_ne_nil _ _) last
  obtain ⟨noOpener, noCloser⟩ := words.no_braces last
  obtain ⟨rest, whole, noOpener, noCloser⟩ : ∃ rest, memberText (['}'] :: ws) last = '}' :: rest ∧
      '{' ∉ rest ∧ '}' ∉ rest := by
    by_cases none : ws = []
    · subst none
      exact ⟨_, rfl, by cases last <;> decide, by cases last <;> decide⟩
    · refine ⟨' ' :: memberText ws last, ?_, by simp [noOpener], by simp [noCloser]⟩
      rw [memberText, unwords_cons _ none, memberText]
      rfl
  rw [whole] at code ⊢
  refine code.steady tidy ?_ ?_
  · rw [Text.closersAtStart, if_pos rfl, Text.closersAtStart_of_not_mem noCloser]
  · rw [Text.braceBalance_of_unquoted code.unquoted, List.count_cons_of_ne (by decide),
      List.count_cons_self, List.count_eq_zero.mpr noOpener, List.count_eq_zero.mpr noCloser]
    omega

theorem plainCode_definition (definition : Definition) :
    ∃ front, unwords [definition.name.text, Text.assignmentSign, definition.word.text, ['{']] =
        front ++ ['{'] ∧ Text.PlainCode (front ++ ['{']) ∧ '{' ∉ front ∧ '}' ∉ front := by
  have tokenized : Text.Tokenized (' ' :: unwords [definition.word.text, ['{']]) := by
    have tokens : ∀ w ∈ [definition.word.text, ['{']], IsToken w := by
      simp [definition.word.isToken, IsToken.opening]
    refine .of_eq ?_ tokens
    rw [Text.lexemes_cons_gap _ (by decide), lexemes_unwords tokens]
  obtain ⟨front, isFront⟩ : ∃ front, front =
    unwords [definition.name.text, Text.assignmentSign, definition.word.text] ++ [' '] := ⟨_, rfl⟩
  have whole : unwords [definition.name.text, Text.assignmentSign, definition.word.text, ['{']] =
      front ++ ['{'] := by
    rw [isFront, List.append_assoc]
    change unwords ([_, _, _] ++ [['{']]) = _
    exact unwords_concat (List.cons_ne_nil _ _) ['{']
  have spelled : front ++ ['{'] = definition.name.text ++ ([' '] ++ (Text.assignmentSign ++
      ' ' :: unwords [definition.word.text, ['{']])) := by
    rw [← whole]
    simp [unwords, List.intercalate]
  have absent : ∀ c, isWordChar c = false → c ≠ ' ' → c ∉ Text.assignmentSign → c ∉ front := by
    intro c foreign noSpace noSign member
    rw [isFront, List.mem_append, List.mem_singleton] at member
    rcases Text.mem_unwords (member.resolve_right noSpace) with space | ⟨w, isWord, inWord⟩
    · exact noSpace space
    · simp only [List.mem_cons, List.not_mem_nil, or_false] at isWord
      rcases isWord with rfl | rfl | rfl
      · exact not_mem_word definition.name.chars foreign inWord
      · exact noSign inWord
      · exact not_mem_word definition.word.chars foreign inWord
  refine ⟨front, whole, ⟨?_, ?_, ?_, ?_, ?_, ?_, ?_, by simp⟩,
    absent _ (by decide) (by decide) (by decide),
    absent _ (by decide) (by decide) (by decide)⟩
  · rw [spelled]
    exact Reader.unframed_definition definition (by decide) tokenized
  · rw [spelled]
    exact Reader.plain_definition definition (by decide) tokenized
  · simp [absent '\n' (by decide) (by decide) (by decide)]
  · simp [absent '"' (by decide) (by decide) (by decide)]
  · simp [absent '-' (by decide) (by decide) (by decide)]
  · obtain ⟨c, rest, starts⟩ := List.exists_cons_of_ne_nil definition.name.isToken.ne_nil
    rw [spelled, starts]
    exact Text.trimStart_of_not_blank (definition.name.isToken.solid c (by simp [starts])) _
  · exact Text.trimEnd_append_mark (by decide) front []

theorem steady_definition (definition : Definition) (tidy : comment.all Text.isTidyNote = true) :
    Steady width depth
      [.line depth (Layout.remarked
        (unwords [definition.name.text, Text.assignmentSign, definition.word.text, ['{']]) comment)]
      (depth + 1) := by
  obtain ⟨front, whole, code, noOpener, noCloser⟩ := plainCode_definition definition
  rw [whole]
  exact steady_opener code noOpener noCloser tidy

theorem steady_note {t : Text} (tidy : Text.isTidyNote t = true) :
    Steady width depth [.line depth t] depth := by
  obtain ⟨rest, rfl, single, ends⟩ := Text.exists_of_isTidyNote tidy
  have trimmed : Text.trim (indented width depth ('-' :: '-' :: rest)) = '-' :: '-' :: rest := by
    refine (trim_row_line ..).trans ?_
    rw [Text.trim, Text.trimStart_of_not_blank (by decide), ends]
  have note : Text.isLineComment (indented width depth ('-' :: '-' :: rest)) = true := by
    rw [Text.isLineComment, trimmed]
    rfl
  have calm : LineKind.blockAfter false (indented width depth ('-' :: '-' :: rest)) = false := by
    simp [LineKind.blockAfter, Text.leavesBlockOpen, Text.startsBlock, trimmed, Text.startsWith,
      List.isPrefixOf]
  refine steady_line (.of_mark single (c := '-') (by simp) (by decide)) (.of_line ?_)
  simp only [Realign.line, trimmed, LineKind.ofLine, note, calm, Bool.or_true, Bool.true_or, if_true,
    Bool.false_eq_true, if_false, reduceCtorEq]
  rfl

end Piece

end AsnLayout
