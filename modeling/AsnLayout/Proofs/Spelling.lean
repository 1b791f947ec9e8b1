import AsnLayout.Proofs.Definitions

/-!
# Spelled definitions

The type of a spelled definition may start on its line or behind it, and so may its brace.  However
its lines break, a spelled definition is read as a node that stands for it, and only blank lines of
its text are left.
-/

set_option autoImplicit false

namespace AsnLayout

open Reading

/-! ## Gaps before a line -/

/-- A gap puts blank lines and then spaces before what follows. -/
theorem Text.lines_gap {gap : Text} (gaps : gap.all isGap = true) :
    ∃ (blanks : List Text) (space : Text), (∀ blank ∈ blanks, isBlankText blank = true) ∧
      space.all isGap = true ∧ (blanks = [] → space = gap) ∧
      ∀ (t line : Text) (later : List Text), lines t = line :: later →
        lines (gap ++ t) = blanks ++ (space ++ line) :: later := by
  induction gap with
  | nil => exact ⟨[], [], by simp, rfl, fun _ => rfl, fun t line later cut => cut⟩
  | cons c rest ih =>
    simp only [List.all_cons, Bool.and_eq_true] at gaps
    obtain ⟨blanks, space, blank, spaces, whole, cuts⟩ := ih gaps.2
    have isGap := gaps.1
    simp only [AsnLayout.isGap, Bool.or_eq_true, decide_eq_true_eq] at isGap
    rcases isGap with rfl | rfl
    · cases blanks with
      | nil =>
        refine ⟨[], ' ' :: space, by simp, by simp [spaces]; decide, ?_, ?_⟩
        · intro _
          rw [whole rfl]
        · intro t line later cut
          rw [List.cons_append, lines_cons, if_neg (by decide), cuts t line later cut]
          rfl
      | cons first others =>
        refine ⟨(' ' :: first) :: others, space, ?_, spaces, by simp, ?_⟩
        · intro part member
          rcases List.mem_cons.mp member with rfl | member
          · exact blank first (List.mem_cons_self ..)
          · exact blank part (List.mem_cons_of_mem _ member)
        · intro t line later cut
          rw [List.cons_append, lines_cons, if_neg (by decide), cuts t line later cut]
          rfl
    · refine ⟨[] :: blanks, space, ?_, spaces, by simp, ?_⟩
      · intro part member
        rcases List.mem_cons.mp member with rfl | member
        · rfl
        · exact blank part member
      · intro t line later cut
        rw [List.cons_append, lines_cons, if_pos rfl, cuts t line later cut]
        rfl

theorem Text.lines_mark {c : Char} (mark : isBlank c = false) {t line : Text} {later : List Text}
    (cut : lines t = line :: later) : lines (c :: t) = (c :: line) :: later := by
  have noNewline : c ≠ '\n' := by
    rintro rfl
    cases mark
  rw [lines_cons, if_neg noNewline, cut, List.modifyHead_cons]

/-! ## Types -/

namespace Reader

variable {limits : Limits} {gap t line first : Text} {later more : List Text} {c : Char}

/-- Code behind a gap stands on the line of the gap, or it is the next code behind that line. -/
theorem code_behind_gap (gaps : gap.all isGap = true) (mark : Text.isBlank c = false)
    (cut : Text.lines (c :: t) = line :: later) (whole : Text.lines (gap ++ c :: t) = first :: more)
    (inBody : ∀ part ∈ more, part.InBody) (read : Nat)
    (room : (read + more.length : Int) ≤ limits.lines) :
    (first = gap ++ line ∧ more = later) ∨
    (Text.isBlankText first = true ∧ ∃ count, count ≤ more.length ∧ more.drop count = later ∧
      ∀ others, bracesNext (more ++ others) = Text.startsWith (Text.trimEnd line) ['{'] ∧
        ∀ number, CodeRun limits { linesRead := read } number (more ++ others)
          ⟨Text.trimEnd line, none⟩ count { linesRead := read + count }) := by
  obtain ⟨tail, rest, found⟩ := Text.exists_lines t
  have starts : line = c :: tail := by
    rw [Text.lines_mark mark found, List.cons.injEq] at cut
    exact cut.1.symm
  obtain ⟨blanks, space, blank, spaces, single, cuts⟩ := Text.lines_gap gaps
  rw [cuts _ _ _ cut] at whole
  cases blanks with
  | nil =>
    rw [List.nil_append, List.cons.injEq, single rfl] at whole
    exact .inl ⟨whole.1.symm, whole.2.symm⟩
  | cons head blanks =>
    rw [List.cons_append, List.cons.injEq] at whole
    obtain ⟨rfl, rfl⟩ := whole
    have trimmed : Text.trim (space ++ line) = Text.trimEnd line := by
      rw [Text.trim_append_of_blank (Text.isBlankText_of_gap spaces), Text.trim, starts,
        Text.trimStart_of_not_blank mark]
    have noBlank : Text.isBlankText (space ++ line) = false := by
      simp [Text.isBlankText, starts, mark]
    have blank' : ∀ part ∈ blanks, Text.isBlankText part = true :=
      fun part member => blank part (List.mem_cons_of_mem _ member)
    refine .inr ⟨blank head (List.mem_cons_self ..), blanks.length + 1, by simp, by simp, ?_⟩
    intro others
    rw [List.append_assoc, List.cons_append]
    constructor
    · clear room inBody cuts blank single
      induction blanks with
      | nil => simp [bracesNext, noBlank, trimmed]
      | cons part blanks ih =>
        rw [List.cons_append, bracesNext, blank' part (List.mem_cons_self ..), if_pos rfl]
        exact ih fun part member => blank' part (List.mem_cons_of_mem _ member)
    · intro number
      rw [← trimmed]
      refine codeRun_of_blanks blank' noBlank ?_ read number ?_ (later ++ others)
      · intro part member
        refine inBody part ?_
        rcases List.mem_append.mp member with early | here
        · exact List.mem_append_left _ early
        · rw [List.mem_singleton.mp here]
          exact List.mem_append_right _ (List.mem_cons_self ..)
      · rw [List.length_append, List.length_cons] at room
        push_cast at room
        omega

theorem hasBrace_of_mark {front back : Text} (unquoted : '"' ∉ front ++ '{' :: back)
    (absent : '{' ∉ front) : hasBrace (front ++ '{' :: back) = true := by
  rw [hasBrace, Text.findExposed?_append unquoted absent]
  rfl

/-- The second step of reading a type: its brace stands behind its keyword, or behind that line. -/
theorem exists_braced_type (word : GroupWord) (gaps : gap.all isGap = true)
    (cut : Text.lines t = line :: later) (whole : Text.lines (gap ++ '{' :: t) = first :: more)
    (unquoted : '"' ∉ line) (inBody : ∀ part ∈ more, part.InBody) (read number early : Nat)
    (room : (read + more.length : Int) ≤ limits.lines) (others rest : List Text)
    (left : rest.drop early = more ++ others) :
    ∃ pad count, pad.all isGap = true ∧ count ≤ more.length ∧ more.drop count = later ∧
      if !hasBrace (Text.trimEnd (word.text ++ first)) && bracesNext (rest.drop early) then
        ∃ code found, CodeRun limits { linesRead := read } (number + 1 + early) (rest.drop early)
          code found { linesRead := read + count } ∧
          TypeText.extend ⟨Text.trimEnd (word.text ++ first), none, early⟩ code found =
            ⟨word.text ++ (pad ++ '{' :: Text.trimEnd line), none, early + count⟩
      else (⟨word.text ++ (pad ++ '{' :: Text.trimEnd line), none, early + count⟩ : TypeText) =
          ⟨Text.trimEnd (word.text ++ first), none, early⟩ ∧
        ({ linesRead := read + count } : Reader) = { linesRead := read } := by
  have solid := isBlank_of_mem_word word.chars
  have braced := Text.lines_mark (show Text.isBlank '{' = false by decide) cut
  rw [left]
  rcases code_behind_gap gaps (by decide) braced whole inBody read room with
    ⟨rfl, rfl⟩ | ⟨blank, count, small, behind, runs⟩
  · have code : Text.trimEnd (word.text ++ (gap ++ '{' :: line)) =
        (word.text ++ gap) ++ '{' :: Text.trimEnd line := by
      rw [← List.append_assoc, Text.trimEnd_append_mark (by decide)]
    have unquoted' : '"' ∉ (word.text ++ gap) ++ '{' :: Text.trimEnd line := by
      simp only [List.mem_append, List.mem_cons, not_or]
      refine ⟨⟨not_mem_word word.chars (by decide), not_mem_of_gap gaps (by decide)⟩, by decide, ?_⟩
      exact fun quoted => unquoted ((List.rdropWhile_prefix Text.isBlank line).subset quoted)
    have absent : '{' ∉ word.text ++ gap := by
      simp only [List.mem_append, not_or]
      exact ⟨not_mem_word word.chars (by decide), not_mem_of_gap gaps (by decide)⟩
    refine ⟨gap, 0, gaps, Nat.zero_le _, rfl, ?_⟩
    rw [code, hasBrace_of_mark unquoted' absent, if_neg (by simp)]
    exact ⟨by simp, rfl⟩
  · have code : Text.trimEnd (word.text ++ first) = word.text := by
      have kept := Text.trimEnd_append_word solid word.isToken.ne_nil [] first
      rw [List.nil_append, List.nil_append, Text.trimEnd_of_blank blank, List.append_nil] at kept
      exact kept
    have noBrace : hasBrace word.text = false := by
      rw [hasBrace, Text.findExposed?_of_not_mem (not_mem_word word.chars (by decide))
        (not_mem_word word.chars (by decide))]
      rfl
    have kept := Text.trimEnd_append_mark (show Text.isBlank '{' = false by decide) [] line
    rw [List.nil_append, List.nil_append] at kept
    obtain ⟨starts, runs⟩ := runs others
    rw [kept] at starts runs
    refine ⟨[' '], count, by decide, small, behind, ?_⟩
    rw [code, noBrace, starts, if_pos (by rfl)]
    refine ⟨⟨'{' :: Text.trimEnd line, none⟩, count, runs _, ?_⟩
    simp [TypeText.extend, word.isToken.ne_nil, bothComments]

/-- However the gaps around its keyword break, the type is read up to its brace. -/
theorem yields_readType_spelled (word : GroupWord) {gap' : Text} (gaps : gap.all isGap = true)
    (gaps' : gap'.all isGap = true) (cut : Text.lines t = line :: later)
    (whole : Text.lines (gap ++ (word.text ++ (gap' ++ '{' :: t))) = first :: more)
    (unquoted : '"' ∉ line) (inBody : ∀ part ∈ more, part.InBody) (read number : Nat)
    (room : (read + more.length : Int) ≤ limits.lines) (others : List Text) :
    ∃ pad count, pad.all isGap = true ∧ count ≤ more.length ∧ more.drop count = later ∧
      Yields (readType limits number ⟨Text.trim first, none, 0⟩ (more ++ others))
        { linesRead := read } ⟨word.text ++ (pad ++ '{' :: Text.trimEnd line), none, count⟩
        { linesRead := read + count } := by
  obtain ⟨second, behind, found⟩ := Text.exists_lines (gap' ++ '{' :: t)
  have keyed : Text.lines (word.text ++ (gap' ++ '{' :: t)) = (word.text ++ second) :: behind := by
    rw [Text.lines_append_of_not_mem (not_mem_word word.chars (by decide)), found, List.modifyHead_cons]
  obtain ⟨letter, letters, starts⟩ := List.exists_cons_of_ne_nil word.isToken.ne_nil
  have mark : Text.isBlank letter = false :=
    isBlank_of_mem_word word.chars letter (by simp [starts])
  have solid : Text.trimEnd (word.text ++ second) ≠ [] := by
    rw [starts, List.cons_append]
    have kept := Text.trimEnd_append_mark mark [] (letters ++ second)
    rw [List.nil_append] at kept
    simp [kept]
  have trimmed : ∀ space : Text, space.all isGap = true →
      Text.trim (space ++ (word.text ++ second)) = Text.trimEnd (word.text ++ second) := by
    intro space spaces
    rw [Text.trim_append_of_blank (Text.isBlankText_of_gap spaces), Text.trim, starts,
      List.cons_append, Text.trimStart_of_not_blank mark]
  -- Where the keyword stands: on the first line, or `early` lines behind it.
  obtain ⟨early, small, left, step⟩ : ∃ early, early ≤ more.length ∧ more.drop early = behind ∧
      if Text.trim first = [] then
        ∃ code found, CodeRun limits { linesRead := read } (number + 1 + 0) ((more ++ others).drop 0)
          code found { linesRead := read + early } ∧
          TypeText.extend ⟨Text.trim first, none, 0⟩ code found =
            ⟨Text.trimEnd (word.text ++ second), none, early⟩
      else (⟨Text.trimEnd (word.text ++ second), none, early⟩ : TypeText) =
          ⟨Text.trim first, none, 0⟩ ∧
        ({ linesRead := read + early } : Reader) = { linesRead := read } := by
    rw [starts, List.cons_append] at whole keyed
    rcases code_behind_gap gaps mark keyed whole inBody read room with
      ⟨rfl, rfl⟩ | ⟨blank, early, small, left, runs⟩
    · refine ⟨0, Nat.zero_le _, rfl, ?_⟩
      rw [← starts, trimmed gap gaps, if_neg solid]
      exact ⟨rfl, rfl⟩
    · refine ⟨early, small, left, ?_⟩
      rw [Text.trim_of_blank blank, if_pos rfl]
      rw [← starts] at runs
      exact ⟨_, early, (runs others).2 _, by simp [TypeText.extend, bothComments]⟩
  have room' : (↑(read + early) + behind.length : Int) ≤ limits.lines := by
    have size := congrArg List.length left
    rw [List.length_drop] at size
    push_cast
    omega
  obtain ⟨pad, count, pads, small', left', step'⟩ := exists_braced_type word gaps' cut found unquoted
    (fun part member => inBody part (List.mem_of_mem_drop (left ▸ member))) (read + early) number
    early room' others (more ++ others) (by rw [List.drop_append_of_le_length small, left])
  refine ⟨pad, early + count, pads, ?_, ?_, ?_⟩
  · have size := congrArg List.length left
    rw [List.length_drop] at size
    omega
  · rw [← List.drop_drop, left, left']
  · rw [yields_readType]
    refine ⟨_, _, step, ?_⟩
    rw [← Nat.add_assoc]
    exact step'

/-! ## Groups -/

theorem braceBalance_of_nest {t : Text} (unquoted : '"' ∉ t) {waiting left : List Char}
    (nested : Text.nest waiting t = some left) :
    Text.braceBalance t + waiting.count '}' = left.count '}' := by
  rw [Text.braceBalance, Text.marks_of_unquoted t unquoted]
  clear unquoted
  induction t generalizing waiting with
  | nil =>
    cases nested
    simp
  | cons c rest ih =>
    rw [Text.nest_cons] at nested
    obtain ⟨next, stepped, later⟩ := Option.bind_eq_some_iff.mp nested
    have step : Mark.braceStep ⟨c, true⟩ + waiting.count '}' = next.count '}' := by
      obtain ⟨closer, opens, isBrace, step⟩ | ⟨noOpener, -, step⟩ | ⟨noOpener, noCloser, step⟩ :=
        nestChar_cases c
      · rw [step, Option.some.injEq] at stepped
        subst stepped
        simp only [isOpener, Bool.or_eq_true, decide_eq_true_eq] at opens
        rcases opens with (rfl | rfl) | rfl
        · have same : closer = '}' := by
            have partner := step []
            simpa [nestChar, partner?] using partner.symm
          subst same
          simp [Mark.braceStep, Mark.is]
          omega
        · have other : closer ≠ '}' := fun same => absurd (isBrace same) (by decide)
          simp [Mark.braceStep, Mark.is, other]
        · have other : closer ≠ '}' := fun same => absurd (isBrace same) (by decide)
          simp [Mark.braceStep, Mark.is, other]
      · obtain rfl := (step _ _).mp stepped
        have noBrace : c ≠ '{' := by
          rintro rfl
          cases noOpener
        by_cases same : c = '}'
        · subst same
          simp [Mark.braceStep, Mark.is]
        · simp [Mark.braceStep, Mark.is, same, noBrace]
      · rw [step, Option.some.injEq] at stepped
        subst stepped
        have noBrace : c ≠ '{' := by
          rintro rfl
          cases noOpener
        have noBrace' : c ≠ '}' := by
          rintro rfl
          cases noCloser
        simp [Mark.braceStep, Mark.is, noBrace, noBrace']
    have behind := ih later
    simp only [List.map_cons, List.foldr_cons]
    omega

theorem ofHeader_word (word : GroupWord) : GroupKind.ofHeader word.text = word.kind := by
  have header := ofHeader_unwords [] word
  simpa [wordsOf, unwords] using header

section Shapes

variable (word : GroupWord) {pad inside : Text} (pads : pad.all isGap = true)

include pads

theorem neat_header : Text.neat (word.text ++ pad) = word.text := by
  have cut : Text.lexemes (word.text ++ pad) = wordsOf [] ++ [word.text] := by
    rw [Text.lexemes_append_gap _ pads, Text.lexemes_word word.chars word.isToken.ne_nil]
    rfl
  have tokenized := Text.Tokenized.of_eq cut (isToken_header [] word)
  rw [tokenized.neat_eq, Text.trim_collapse_words (words_header [] word) cut]
  simp [wordsOf, unwords]

theorem findExposed?_header (unquoted : '"' ∉ inside) :
    Text.findExposed? (word.text ++ (pad ++ '{' :: inside)) (· = '{') =
      some (word.text ++ pad).length := by
  rw [← List.append_assoc]
  refine Text.findExposed?_append ?_ ?_
  · simp only [List.mem_append, List.mem_cons, not_or]
    exact ⟨⟨not_mem_word word.chars (by decide), not_mem_of_gap pads (by decide)⟩, by decide, unquoted⟩
  · simp only [List.mem_append, not_or]
    exact ⟨not_mem_word word.chars (by decide), not_mem_of_gap pads (by decide)⟩

theorem shapeOf_opened (unquoted : '"' ∉ inside) {waiting : List Char}
    (nested : Text.nest [] inside = some waiting) :
    shapeOf (word.text ++ (pad ++ '{' :: inside)) = .opened word.text inside := by
  rw [shapeOf, findExposed?_header word pads unquoted]
  simp only [← List.append_assoc, List.take_left, ← List.drop_drop, List.drop_left, List.drop_one,
    List.tail_cons, neat_header word pads, Text.groupEnd?_of_nest unquoted nested]

theorem shapeOf_inline {members : List Member} (within : Text.lexemes inside = Member.list members) :
    shapeOf (word.text ++ (pad ++ '{' :: (inside ++ ['}']))) = .inline word.text inside [] := by
  have nested := (Member.closed_list members).nest within []
  have cut : Text.lexemes (word.text ++ (pad ++ '{' :: (inside ++ ['}']))) =
      groupTokens word (Member.list members) [] := by
    rw [← List.append_assoc, Text.lexemes_mark _ _ (by decide) (by decide),
      Text.lexemes_mark _ _ (by decide) (by decide), Text.lexemes_append_gap _ pads,
      Text.lexemes_word word.chars word.isToken.ne_nil, within]
    rfl
  have closed : Closed (groupTokens word (Member.list members) []) :=
    .word word.chars (.braces (Member.closed_list members) (closed_wordsOf []))
  have tokenized := Text.Tokenized.of_eq cut
    (isToken_groupTokens word members [] fun member _ => member.isToken)
  have unquoted := tokenized.not_mem (show isMemberChar '"' = false by decide)
  have unquoted' : '"' ∉ inside ++ ['}'] := fun quoted => unquoted (by simp_all)
  have balance : Text.braceBalance (word.text ++ (pad ++ '{' :: (inside ++ ['}']))) = 0 := by
    simpa using braceBalance_of_nest unquoted (closed.nest cut [])
  rw [shapeOf, findExposed?_header word pads unquoted', balance]
  simp only [← List.append_assoc, List.take_left, ← List.drop_drop, List.drop_left, List.drop_one,
    List.tail_cons, neat_header word pads, Text.groupEnd?_append unquoted' nested]
  simp [ofHeader_word, word.structured]

end Shapes

structure StartedNode (node : Node) (definition : Definition) : Prop where
  kind : node.kind = .typeDefinition
  name : node.name = definition.name.text
  level : node.level = 0
  uncommented : node.openingComment = none
  empty : node.children = []

structure OpenDefinition (node : Node) (definition : Definition) : Prop where
  kind : node.kind = .typeDefinition
  name : node.name = definition.name.text
  level : node.level = 0
  oneLine : node.oneLine = some false
  groupKind : node.groupKind = some definition.word.kind
  header : node.header = some definition.word.text
  opening : node.openingComment = none
  empty : node.children = []

section Groups

variable {definition : Definition} {node : Node} {inside lastGap : Text}
  (within : Text.lexemes inside = Member.list definition.members)
  (gaps : lastGap.all isGap = true)

include within gaps

theorem continues_definition (opens : OpenDefinition node definition) {limit : Int}
    (fits : definition.depth ≤ limit) (number : Nat) (anchor : Anchor) :
    Body.Continues limit (DefinitionNode · definition) number { top := { node }, anchor }
      (inside ++ '}' :: lastGap) := by
  have structured : node.isStructured = true := by
    simp [Node.isStructured, opens.groupKind, definition.word.structured]
  have fresh : OpenGroup.Fresh node [] { node } := {
    same := by cases node; rfl
    held := by rw [opens.empty]; exact .nil
    blank := rfl
    settled := rfl
    single := rfl
    uncommented := rfl
    alone := rfl }
  rw [Definition.depth] at fits
  refine continues_list definition.members (fun member _ => member.reads limit) structured
    (not_mem_of_gap gaps (by decide)) number _ inside [] within fresh (by simp; omega) ?_
  rintro number' ⟨top, below, anchor'⟩ sameBelow finished
  simp only [List.nil_append] at finished sameBelow
  subst sameBelow
  refine Body.Continues.of_close finished.settled gaps ?_
  have closed := finished.ended number'
  have inner : (top.close number').node = (top.endMember number').node := by
    rw [OpenGroup.close, finished.structured, if_pos rfl]
  rw [inner, closed.same]
  exact {
    kind := opens.kind
    name := opens.name
    level := opens.level
    groupKind := opens.groupKind
    header := opens.header
    trailer := rfl
    opening := opens.opening
    closing := rfl
    lays := by
      rw [Node.groupItems, if_neg (by simp [opens.oneLine])]
      exact closed.held }

theorem start_definition (opens : OpenDefinition node definition) {limit : Int}
    (fits : definition.depth ≤ limit) {line : Text} {later : List Text}
    (cut : Text.lines (inside ++ '}' :: lastGap) = line :: later) (behind : Nat) :
    ∃ progress result rest, Body.start node limit (Text.trimEnd line) = .ok progress ∧
      DefinitionNode result definition ∧ (∀ part ∈ rest, Text.isBlankText part = true) ∧
      match progress with
      | .closed closed => closed = result ∧ rest = later
      | .more body => Body.Calm limit behind body later result rest := by
  have positive : ¬limit ≤ 0 := by
    rw [Definition.depth] at fits
    omega
  rw [Body.start, if_neg positive]
  by_cases blank : Text.isBlankText (Text.trimEnd line) = true
  · have none : Text.trimEnd line = [] := by
      have twice := Text.trimEnd_of_blank blank
      rwa [Text.trimEnd, Text.trimEnd, Text.trimEndBy_eq, Text.trimEndBy_eq,
        List.rdropWhile_idempotent, ← Text.trimEndBy_eq, ← Text.trimEnd] at twice
    obtain ⟨result, rest, isGood, blanks, flows⟩ :=
      continues_definition within gaps opens fits 0 .nothing behind
    refine ⟨_, result, rest, if_pos blank, isGood, blanks, ?_⟩
    have structured : node.isStructured = true := by
      simp [Node.isStructured, opens.groupKind, definition.word.structured]
    cases flows with
    | more cut' read run =>
      obtain ⟨rfl, rfl⟩ := List.cons.inj (cut.symm.trans cut')
      rw [none, Body.readCode, Except.ok.injEq, Body.Progress.more.injEq] at read
      rw [← read] at run
      simpa [Body.endLine, OpenGroup.structured, structured] using run
    | close cut' read =>
      obtain ⟨rfl, rfl⟩ := List.cons.inj (cut.symm.trans cut')
      rw [none, Body.readCode] at read
      cases read
  · have opens' : OpenDefinition { node with openingComment := none } definition :=
      ⟨opens.kind, opens.name, opens.level, opens.oneLine, opens.groupKind, opens.header, rfl,
        opens.empty⟩
    obtain ⟨result, rest, isGood, blanks, flows⟩ :=
      continues_definition within gaps opens' fits node.line .opening behind
    rw [if_neg blank, opens.opening]
    cases flows with
    | more cut' read run =>
      obtain ⟨rfl, rfl⟩ := List.cons.inj (cut.symm.trans cut')
      exact ⟨_, result, rest, read, isGood, blanks, run⟩
    | close cut' read =>
      obtain ⟨rfl, rfl⟩ := List.cons.inj (cut.symm.trans cut')
      exact ⟨_, result, _, read, isGood, blanks, rfl, rfl⟩

variable {limits : Limits} {line pad : Text} {later others rest : List Text}
  (cut : Text.lines (inside ++ '}' :: lastGap) = line :: later) (pads : pad.all isGap = true)
  (started : StartedNode node definition)

include cut pads started

theorem groupRun_opened (newline : '\n' ∈ inside) (fits : definition.depth ≤ limits.depth)
    (inBody : ∀ part ∈ later, part.InBody) (read number count : Nat)
    (room : (read + later.length : Int) ≤ limits.lines) (left : rest.drop count = later ++ others) :
    ∃ result more, result.LaysOut definition ∧ more ≤ later.length ∧
      (∀ part ∈ later.drop more, Text.isBlankText part = true) ∧
      GroupRun limits number rest node
        ⟨definition.word.text ++ (pad ++ '{' :: Text.trimEnd line), none, count⟩
        { linesRead := read } result (count + more) { linesRead := read + more } := by
  obtain ⟨type, isType⟩ : ∃ type : TypeText, type =
      ⟨definition.word.text ++ (pad ++ '{' :: Text.trimEnd line), none, count⟩ := ⟨_, rfl⟩
  have opens : OpenDefinition (openedNode node type definition.word.text) definition := {
    kind := started.kind
    name := started.name
    level := started.level
    oneLine := rfl
    groupKind := by simp only [openedNode, ofHeader_word]
    header := rfl
    opening := by simp only [openedNode, isType]
    empty := started.empty }
  -- The first line is a part of the inside, so no brace on it closes the group.
  obtain ⟨front, back, rfl, first⟩ := List.eq_append_cons_of_mem newline
  have isFirst : line = front := by
    rw [List.append_assoc, List.cons_append, Text.lines_append_newline, Text.lines_of_not_mem first]
      at cut
    exact (List.cons.inj cut).1.symm
  subst isFirst
  have tokenized := Text.Tokenized.of_eq within (Member.isToken_list definition.members)
  have unquoted : '"' ∉ Text.trimEnd line := by
    intro quoted
    have inLine : '"' ∈ line := (List.rdropWhile_prefix Text.isBlank line).subset quoted
    exact tokenized.not_mem (by decide) (List.mem_append_left _ inLine)
  obtain ⟨waiting, nested⟩ : ∃ waiting, Text.nest [] (Text.trimEnd line) = some waiting := by
    obtain ⟨blank, -, whole⟩ := Text.exists_blank_trimEnd line
    have nested := (Member.closed_list definition.members).nest within []
    rw [whole, List.append_assoc, Text.nest_append] at nested
    obtain ⟨waiting, here, -⟩ := Option.bind_eq_some_iff.mp nested
    exact ⟨waiting, here⟩
  -- The group is opened, and read on its first line if that is not blank.
  have shape : shapeOf type.code = .opened definition.word.text (Text.trimEnd line) := by
    rw [isType, shapeOf_opened definition.word pads unquoted nested]
  obtain ⟨progress, result, blanks, start, stands, blank, onward⟩ :=
    start_definition within gaps opens fits cut (number + 1 + count)
  have sameCount : type.count = count := by rw [isType]
  rw [← isType]
  simp only [GroupRun, shape, sameCount, left]
  cases progress with
  | closed closed =>
    obtain ⟨rfl, rfl⟩ := onward
    exact ⟨closed, 0, stands.laysOut, Nat.zero_le _, blank, _, start, rfl, rfl, rfl⟩
  | more body =>
    obtain ⟨more, isRest, small, run⟩ := bodyRun_of_calm onward inBody read room others
    exact ⟨result, more, stands.laysOut, small, isRest ▸ blank, _, start, more, run, rfl⟩

omit cut gaps in
theorem groupRun_inline (limits : Limits) (rest : List Text) (read number count : Nat) :
    ∃ result, result.LaysOut definition ∧ GroupRun limits number rest node
      ⟨definition.word.text ++ (pad ++ '{' :: (inside ++ ['}'])), none, count⟩
      { linesRead := read } result count { linesRead := read } := by
  obtain ⟨parts, found, cuts⟩ := members_list definition.members within
  simp only [GroupRun, shapeOf_inline definition.word pads within]
  refine ⟨_, DefinitionNode.laysOut ?_, rfl, trivial, trivial⟩
  exact {
    kind := started.kind
    name := started.name
    level := started.level
    groupKind := by simp only [inlineNode, ofHeader_word]
    header := rfl
    trailer := rfl
    opening := started.uncommented
    closing := rfl
    lays := by
      simp only [Node.groupItems, inlineNode, if_true, Option.getD_some, found, List.map_map]
      exact forall₂_lays_map cuts fun member _ => lays_memberForm member }

/-- Wherever its lines break, the group of a definition is read as a node that stands for it. -/
theorem groupRun_spelled (fits : definition.depth ≤ limits.depth)
    (inBody : ∀ part ∈ later, part.InBody) (read number count : Nat)
    (room : (read + later.length : Int) ≤ limits.lines) (left : rest.drop count = later ++ others) :
    ∃ result more, result.LaysOut definition ∧ more ≤ later.length ∧
      (∀ part ∈ later.drop more, Text.isBlankText part = true) ∧
      GroupRun limits number rest node
        ⟨definition.word.text ++ (pad ++ '{' :: Text.trimEnd line), none, count⟩
        { linesRead := read } result (count + more) { linesRead := read + more } := by
  by_cases newline : '\n' ∈ inside
  · exact groupRun_opened within gaps cut pads started newline fits inBody read number count room left
  · obtain ⟨end', behind, found⟩ := Text.exists_lines lastGap
    have blank : ∀ part ∈ end' :: behind, Text.isBlankText part = true := by
      intro part member
      rw [← found] at member
      refine Text.isBlankText_of_gap (List.all_eq_true.mpr ?_)
      intro c inPart
      exact List.all_eq_true.mp gaps c ((Text.infix_of_mem_lines lastGap part member).subset inPart)
    rw [Text.lines_append_of_not_mem newline, Text.lines_mark (by decide) found,
      List.modifyHead_cons, List.cons.injEq] at cut
    obtain ⟨rfl, rfl⟩ := cut
    obtain ⟨result, laysOut, run⟩ :=
      groupRun_inline within pads started limits rest read number count
    refine ⟨result, 0, laysOut, Nat.zero_le _, ?_, ?_⟩
    · exact fun part member => blank part (List.mem_cons_of_mem _ member)
    · rw [Text.trimEnd_append_mark (by decide), Text.trimEnd_of_blank (blank _ (List.mem_cons_self ..))]
      exact run

end Groups

/-! ## Definition lines -/

theorem cutAt?_sign {front : Text} (absent : ':' ∉ front) (back : Text) :
    Text.cutAt? Text.assignmentSign (front ++ (Text.assignmentSign ++ back)) = some (front, back) := by
  induction front with
  | nil => rfl
  | cons c rest ih =>
    simp only [List.mem_cons, not_or] at absent
    have other : Text.startsWith (c :: (rest ++ (Text.assignmentSign ++ back)))
        Text.assignmentSign = false := by
      simp [Text.startsWith, Text.assignmentSign, List.isPrefixOf, absent.1]
    simp [Text.cutAt?, other, ih absent.2]

def definitionLine (definition : Definition) (pre space first : Text) : Text :=
  pre ++ (definition.name.text ++ (space ++ (Text.assignmentSign ++ first)))

section Lines

variable (definition : Definition) {pre space first : Text} (pres : pre.all isGap = true)
  (spaces : space.all isGap = true) (tokenized : Text.Tokenized first)

include pres in
theorem trim_definitionLine : Text.trim (definitionLine definition pre space first) =
    definition.name.text ++ (space ++ (Text.assignmentSign ++ Text.trimEnd first)) := by
  obtain ⟨letter, letters, starts⟩ := List.exists_cons_of_ne_nil definition.name.isToken.ne_nil
  have mark : Text.isBlank letter = false :=
    isBlank_of_mem_word definition.name.chars letter (by simp [starts])
  rw [definitionLine, Text.trim_append_of_blank (Text.isBlankText_of_gap pres), Text.trim, starts,
    List.cons_append, Text.trimStart_of_not_blank mark]
  have split : ∀ t : Text, letter :: (letters ++ (space ++ (Text.assignmentSign ++ t))) =
      (letter :: (letters ++ (space ++ [':', ':']))) ++ '=' :: t := by
    intro t
    simp [Text.assignmentSign]
  rw [List.cons_append, split, split, Text.trimEnd_append_mark (by decide)]

include spaces in
theorem cutAt?_definition (back : Text) :
    Text.cutAt? Text.assignmentSign
        (definition.name.text ++ (space ++ (Text.assignmentSign ++ back))) =
      some (definition.name.text ++ space, back) := by
  rw [← List.append_assoc]
  refine cutAt?_sign ?_ back
  rw [List.mem_append, not_or]
  exact ⟨not_mem_word definition.name.chars (by decide), not_mem_of_gap spaces (by decide)⟩

include spaces in
theorem lexemes_definition (back : Text) :
    Text.lexemes (definition.name.text ++ (space ++ (Text.assignmentSign ++ back))) =
      [definition.name.text, [':'], [':'], ['=']] ++ Text.lexemes back := by
  have split : definition.name.text ++ (space ++ (Text.assignmentSign ++ back)) =
      (definition.name.text ++ space) ++ ':' :: ([] ++ ':' :: ([] ++ '=' :: back)) := by
    simp [Text.assignmentSign]
  rw [split, Text.lexemes_mark _ _ (by decide) (by decide),
    Text.lexemes_mark _ _ (by decide) (by decide), Text.lexemes_mark _ _ (by decide) (by decide),
    Text.lexemes_append_gap _ spaces,
    Text.lexemes_word definition.name.chars definition.name.isToken.ne_nil]
  rfl

section Tokenized

include spaces tokenized

theorem lexeme_definition : ∀ w ∈ Text.lexemes
      (definition.name.text ++ (space ++ (Text.assignmentSign ++ first))),
    (w ∉ [Text.beginWord, Text.endWord, Text.definitionsWord] ∧ ('.' ∈ w → w = ellipsis)) ∧
      ∀ c ∈ w, Text.isBlank c = false := by
  intro w member
  rw [lexemes_definition definition spaces] at member
  rcases List.mem_append.mp member with front | back
  · rcases List.mem_cons.mp front with rfl | sign
    · exact ⟨definition.name.isToken.unframed, definition.name.isToken.solid⟩
    · simp only [List.mem_cons, List.not_mem_nil, or_false] at sign
      rcases sign with rfl | rfl | rfl <;> exact ⟨by decide, solid_mark (by decide)⟩
  · exact ⟨tokenized.unframed w back, (tokenized w back).solid⟩

theorem unframed_definition :
    Text.Unframed (definition.name.text ++ (space ++ (Text.assignmentSign ++ first))) :=
  fun w member => (lexeme_definition definition spaces tokenized w member).1

theorem plain_definition :
    Text.Plain (definition.name.text ++ (space ++ (Text.assignmentSign ++ first))) :=
  Text.plain_of_lexemes fun w member => (lexeme_definition definition spaces tokenized w member).2

end Tokenized

include pres spaces tokenized

theorem bare_definitionLine : Text.Bare (definitionLine definition pre space first) := by
  have absent : ∀ c, isMemberChar c = false → c ∉ Text.assignmentSign →
      c ∉ definitionLine definition pre space first := by
    intro c foreign noSign
    simp only [isMemberChar, Bool.or_eq_false_iff] at foreign
    simp only [definitionLine, List.mem_append, not_or]
    exact ⟨not_mem_of_gap pres foreign.1.1.1.1, not_mem_word definition.name.chars foreign.1.1.1.2,
      not_mem_of_gap spaces foreign.1.1.1.1, noSign, tokenized.not_mem (by simp [isMemberChar, foreign])⟩
  exact bare_of_not_mem (absent _ (by decide) (by decide)) (absent _ (by decide) (by decide))

theorem ofLine_definitionLine :
    LineKind.ofLine false (definitionLine definition pre space first) = .typeDefinition := by
  have trimmed : Text.Tokenized (Text.trimEnd first) := by
    intro w member
    rw [Text.lexemes_trimEnd tokenized.plain] at member
    exact tokenized w member
  have unframed := unframed_definition definition spaces trimmed
  rw [ofLine_of_bare (bare_definitionLine definition pres spaces tokenized),
    trim_definitionLine definition pres, Text.codeKind,
    Text.isModuleHeader_of_unframed unframed (plain_definition definition spaces trimmed),
    Text.opensModule_of_unframed unframed, Text.startsWithWord_end_of_unframed unframed,
    Text.contains, cutAt?_definition definition spaces]
  rfl

theorem definitionSides_definitionLine :
    definitionSides (definitionLine definition pre space first) =
      (definition.name.text ++ space, Text.trimEnd first) := by
  rw [definitionSides, codeLine_of_bare (bare_definitionLine definition pres spaces tokenized),
    trim_definitionLine definition pres]
  simp only [cutAt?_definition definition spaces, Option.getD_some]

theorem definitionName_definitionLine :
    definitionName (definitionLine definition pre space first) = definition.name.text := by
  have cut : Text.lexemes (definition.name.text ++ space) = wordsOf [definition.name] := by
    rw [Text.lexemes_append_gap _ spaces,
      Text.lexemes_word definition.name.chars definition.name.isToken.ne_nil]
    rfl
  have named := Text.Tokenized.of_eq cut (isToken_wordsOf _)
  rw [definitionName, definitionSides_definitionLine definition pres spaces tokenized,
    named.memberForm_words (all_isWordChar_wordsOf _) cut]
  simp [wordsOf, unwords]

theorem firstType_definitionLine :
    firstType (definitionLine definition pre space first) = ⟨Text.trim first, none, 0⟩ := by
  rw [firstType, definitionSides_definitionLine definition pres spaces tokenized,
    codeLine_of_bare (bare_definitionLine definition pres spaces tokenized), Text.trim_trimEnd]

end Lines

theorem startedNode_definitionNode {line : Text} {definition : Definition} (read number : Nat)
    (type : TypeText) (name : definitionName line = definition.name.text) :
    StartedNode (definitionNode { linesRead := read } number line type) definition where
  kind := rfl
  name := by simp only [definitionNode, name]
  level := rfl
  uncommented := rfl
  empty := rfl

/-- However its lines break, a spelled definition is read as one item. -/
theorem yields_readItem_spelled {limits : Limits} (definition : Definition)
    {pre space type first : Text} {more : List Text} (pres : pre.all isGap = true)
    (spaces : space.all isGap = true) (cut : Text.lexemes type = definition.tokens)
    (whole : Text.lines type = first :: more) (fits : definition.depth ≤ limits.depth)
    (read number : Nat) (room : (read + 1 + more.length : Int) ≤ limits.lines) (others : List Text) :
    ∃ node count, node.LaysOut definition ∧ count ≤ more.length ∧
      (∀ part ∈ more.drop count, Text.isBlankText part = true) ∧
      Yields (readItem limits number (definitionLine definition pre space first) (more ++ others))
        { linesRead := read } (node, count) { linesRead := read + 1 + count } := by
  have tokenized : ∀ part ∈ first :: more, Text.Tokenized part := by
    intro part member w inLexemes
    refine definition.isToken w ?_
    rw [← cut, ← Text.flatMap_lexemes_lines, whole]
    exact List.mem_flatMap.mpr ⟨part, member, inLexemes⟩
  have inBody : ∀ part ∈ more, part.InBody :=
    fun part member => (tokenized part (List.mem_cons_of_mem _ member)).inBody
  have tokenizedFirst := tokenized first (List.mem_cons_self ..)
  -- The type: its keyword between two gaps, the inside of its braces, and a gap behind them.
  have asGroup : Text.lexemes type =
      wordsOf [] ++ groupTokens definition.word (Member.list definition.members) [] := cut
  obtain ⟨header, inside, lastGap, rfl, isHeader, within, isLast⟩ := exists_group asGroup
  obtain ⟨gap, gap', rfl, gaps, -, isGap', -⟩ := Text.lexemes_eq_cons isHeader
  have gaps' := Text.all_isGap_of_lexemes isGap'
  have lastGaps := Text.all_isGap_of_lexemes isLast
  obtain ⟨line, later, cut'⟩ := Text.exists_lines (inside ++ '}' :: lastGap)
  have unquoted : '"' ∉ line := by
    intro quoted
    have inText := (Text.infix_of_mem_lines (inside ++ '}' :: lastGap) line (by simp [cut'])).subset
      quoted
    have tokenizedType := Text.Tokenized.of_eq cut definition.isToken
    refine tokenizedType.not_mem (show isMemberChar '"' = false by decide) ?_
    exact List.mem_append_right _ (List.mem_cons_of_mem _ inText)
  rw [List.append_assoc, List.append_assoc] at whole
  obtain ⟨pad, count, pads, small, left, readsType⟩ := yields_readType_spelled definition.word gaps gaps'
    cut' whole unquoted inBody (read + 1) number (by push_cast; omega) others
  have started := startedNode_definitionNode (read + 1 + count) number
    ⟨definition.word.text ++ (pad ++ '{' :: Text.trimEnd line), none, count⟩
    (definitionName_definitionLine definition pres spaces tokenizedFirst)
  have size := congrArg List.length left
  rw [List.length_drop] at size
  obtain ⟨node, beyond, laysOut, small', blank, run⟩ := groupRun_spelled within lastGaps cut' pads
    started fits (fun part member => inBody part (List.mem_of_mem_drop (left ▸ member)))
    (read + 1 + count) number count (by push_cast; omega)
    (show (more ++ others).drop count = later ++ others by
      rw [List.drop_append_of_le_length small, left])
  refine ⟨node, count + beyond, laysOut, by omega, ?_, ?_⟩
  · rw [← List.drop_drop, left]
    exact blank
  rw [yields_readItem, if_pos (ofLine_definitionLine definition pres spaces tokenizedFirst), counted,
    pass_of_bare (bare_definitionLine definition pres spaces tokenizedFirst), yields_readDefinition,
    firstType_definitionLine definition pres spaces tokenizedFirst,
    definitionName_definitionLine definition pres spaces tokenizedFirst, ← Nat.add_assoc]
  refine ⟨?_, definition.name.isToken.ne_nil, _, _, readsType, run⟩
  rw [MayRead]
  push_cast
  omega

end Reader

end AsnLayout
