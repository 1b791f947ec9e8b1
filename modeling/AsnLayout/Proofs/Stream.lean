import AsnLayout.Proofs.Expansion
import AsnLayout.Proofs.Reading

/-!
# Bodies read as a stream

A body is read line by line, and of each line without the blanks at its ends.  Here the rest of a
definition is one text, newlines included, and a body goes on with it from any point on.  A gap then
has one effect, whether it has a newline or not: the text of the member grows by spaces.
-/

set_option autoImplicit false

namespace AsnLayout

namespace Body

/-! ## The rest of a definition -/

/-- Lines without comments are read up to the end of a definition; `rest` is left of them. -/
inductive Calm (limit : Int) : Nat → Body → List Text → Node → List Text → Prop where
  | blank {number : Nat} {body : Body} {line : Text} {later rest : List Text} {node : Node}
      (isBlank : Text.isBlankText line = true)
      (run : Calm limit (number + 1) body later node rest) :
      Calm limit number body (line :: later) node rest
  | code {number : Nat} {body next : Body} {line : Text} {later rest : List Text} {node : Node}
      (noBlank : Text.isBlankText line = false)
      (read : readCode limit none number {} body.startLine (Text.trim line) = .ok (.more next))
      (run : Calm limit (number + 1) next later node rest) :
      Calm limit number body (line :: later) node rest
  | close {number : Nat} {body : Body} {line : Text} {later : List Text} {node : Node}
      (noBlank : Text.isBlankText line = false)
      (read : readCode limit none number {} body.startLine (Text.trim line) = .ok (.closed node)) :
      Calm limit number body (line :: later) node later

/-- A body goes on in the middle of a line up to the end of a definition. -/
inductive Flows (limit : Int) (number behind : Nat) (body : Body) (stream : Text) :
    Node → List Text → Prop where
  | more {line : Text} {later rest : List Text} {next : Body} {node : Node}
      (cut : Text.lines stream = line :: later)
      (read : readCode limit none number {} body (Text.trimEnd line) = .ok (.more next))
      (run : Calm limit behind next later node rest) :
      Flows limit number behind body stream node rest
  | close {line : Text} {later : List Text} {node : Node}
      (cut : Text.lines stream = line :: later)
      (read : readCode limit none number {} body (Text.trimEnd line) = .ok (.closed node)) :
      Flows limit number behind body stream node later

/-- A body goes on to a good node, with only blank lines left, whatever number the next line has. -/
def Continues (limit : Int) (good : Node → Prop) (number : Nat) (body : Body) (stream : Text) :
    Prop :=
  ∀ behind, ∃ node rest, good node ∧ (∀ line ∈ rest, Text.isBlankText line = true) ∧
    Flows limit number behind body stream node rest

variable {limit : Int} {good : Node → Prop} {number : Nat} {body next : Body} {stream : Text}

theorem Continues.of_append {front : Text} (single : '\n' ∉ front)
    (step : ∀ line later, Text.lines stream = line :: later →
      readCode limit none number {} body (Text.trimEnd (front ++ line)) =
        readCode limit none number {} next (Text.trimEnd line))
    (onward : Continues limit good number next stream) :
    Continues limit good number body (front ++ stream) := by
  intro behind
  obtain ⟨node, rest, isGood, blank, flows⟩ := onward behind
  refine ⟨node, rest, isGood, blank, ?_⟩
  have cut' : ∀ line later, Text.lines stream = line :: later →
      Text.lines (front ++ stream) = (front ++ line) :: later := by
    intro line later cut
    rw [Text.lines_append_of_not_mem single, cut, List.modifyHead_cons]
  cases flows with
  | more cut read run => exact .more (cut' _ _ cut) ((step _ _ cut).trans read) run
  | close cut read => exact .close (cut' _ _ cut) ((step _ _ cut).trans read)

theorem Continues.of_cons {c : Char} (mark : Text.isBlank c = false)
    (step : ∀ line later, Text.lines stream = line :: later →
      readCode limit none number {} body (c :: Text.trimEnd line) =
        readCode limit none number {} next (Text.trimEnd line))
    (onward : Continues limit good number next stream) :
    Continues limit good number body (c :: stream) := by
  have single : '\n' ∉ [c] := by
    intro newline
    rw [← List.mem_singleton.mp newline] at mark
    cases mark
  refine Continues.of_append single ?_ onward
  intro line later cut
  rw [← step line later cut]
  exact congrArg _ (Text.trimEnd_append_mark mark [] line)

/-! ## Gaps -/

def Padded (gap : Text) (body next : Body) : Prop :=
  ∃ (pad : Text) (lineBrackets : Nat) (anchor : Anchor), pad.all isGap = true ∧
    (body.top.text ≠ [] → gap ≠ [] → pad ≠ []) ∧
    next = { body with
      top := { body.top with text := body.top.text ++ pad, lineBrackets }
      anchor }

theorem readCode_spaces {gap : Text} (spaces : gap.all (· = ' ') = true) (rest : Text) :
    readCode limit none number {} body (gap ++ rest) =
      readCode limit none number {}
        { body with top := { body.top with text := body.top.text ++ gap } } rest := by
  induction gap generalizing body with
  | nil => simp
  | cons first others ih =>
    simp only [List.all_cons, Bool.and_eq_true, decide_eq_true_eq] at spaces
    obtain ⟨rfl, spaces⟩ := spaces
    have step : readCode limit none number {} body (' ' :: (others ++ rest)) =
        readCode limit none number {}
          { body with top := { body.top with text := body.top.text ++ [' '] } } (others ++ rest) := by
      simp only [readCode]
      rfl
    rw [List.cons_append, step, ih spaces]
    simp

theorem Calm.indent {line : Text} {later rest : List Text} {node : Node}
    (calm : Calm limit number body (line :: later) node rest) :
    Calm limit number body ((' ' :: line) :: later) node rest := by
  have trimmed := Text.trim_space_cons line
  cases calm with
  | blank isBlank run => exact .blank isBlank run
  | code noBlank read run => exact .code noBlank (trimmed ▸ read) run
  | close noBlank read => exact .close noBlank (trimmed ▸ read)

/-- Blank lines and spaces come before the next line of code. -/
theorem calm_of_gap {gap : Text} (gaps : gap.all isGap = true) {c : Char}
    (mark : Text.isBlank c = false)
    (onward : ∀ number, Continues limit good number body.startLine (c :: stream)) (number : Nat) :
    ∃ node rest, good node ∧ (∀ line ∈ rest, Text.isBlankText line = true) ∧
      Calm limit number body (Text.lines (gap ++ c :: stream)) node rest := by
  induction gap generalizing number with
  | nil =>
    obtain ⟨node, rest, isGood, blank, flows⟩ := onward number (number + 1)
    refine ⟨node, rest, isGood, blank, ?_⟩
    obtain ⟨tail, others, found⟩ := Text.exists_lines stream
    have noNewline : c ≠ '\n' := by
      rintro rfl
      cases mark
    have first : Text.lines (c :: stream) = (c :: tail) :: others := by
      rw [Text.lines_cons, if_neg noNewline, found, List.modifyHead_cons]
    have noBlank : Text.isBlankText (c :: tail) = false := by simp [Text.isBlankText, mark]
    have trimmed : Text.trim (c :: tail) = Text.trimEnd (c :: tail) := by
      rw [Text.trim, Text.trimStart_of_not_blank mark]
    rw [List.nil_append, first]
    cases flows with
    | more cut read run =>
      rw [first, List.cons.injEq] at cut
      obtain ⟨rfl, rfl⟩ := cut
      exact .code noBlank (trimmed ▸ read) run
    | close cut read =>
      rw [first, List.cons.injEq] at cut
      obtain ⟨rfl, rfl⟩ := cut
      exact .close noBlank (trimmed ▸ read)
  | cons first others ih =>
    simp only [List.all_cons, Bool.and_eq_true] at gaps
    have isGap := gaps.1
    simp only [AsnLayout.isGap, Bool.or_eq_true, decide_eq_true_eq] at isGap
    rcases isGap with rfl | rfl
    · obtain ⟨node, rest, isGood, blank, calm⟩ := ih gaps.2 number
      refine ⟨node, rest, isGood, blank, ?_⟩
      obtain ⟨line, later, found⟩ := Text.exists_lines (others ++ c :: stream)
      rw [List.cons_append, Text.lines_cons, if_neg (by decide), found, List.modifyHead_cons]
      rw [found] at calm
      exact calm.indent
    · obtain ⟨node, rest, isGood, blank, calm⟩ := ih gaps.2 (number + 1)
      refine ⟨node, rest, isGood, blank, ?_⟩
      rw [List.cons_append, Text.lines_cons, if_pos rfl]
      exact .blank rfl calm

/-- A gap comes before the next code.  If it goes over lines, the body starts a new one. -/
theorem Continues.of_gap {gap : Text} (gaps : gap.all isGap = true) {c : Char}
    (mark : Text.isBlank c = false) (structured : body.top.structured = true)
    (onward : ∀ number next, Padded gap body next →
      Continues limit good number next (c :: stream)) :
    Continues limit good number body (gap ++ c :: stream) := by
  by_cases newline : '\n' ∈ gap
  · obtain ⟨front, back, rfl, first⟩ := List.eq_append_cons_of_mem newline
    simp only [List.all_append, List.all_cons, Bool.and_eq_true] at gaps
    have padded : Padded (front ++ '\n' :: back) body body.startLine := by
      by_cases empty : body.top.text = []
      · exact ⟨[], body.top.brackets, .nothing, rfl, fun some => absurd empty some,
          by simp [startLine, empty]⟩
      · exact ⟨[' '], body.top.brackets, .nothing, rfl, fun _ _ => by simp,
          by simp [startLine, structured, empty]⟩
    intro behind
    obtain ⟨node, rest, isGood, blank, calm⟩ := calm_of_gap gaps.2.2 mark
      (fun number => onward number body.startLine padded) behind
    refine ⟨node, rest, isGood, blank, ?_⟩
    have cut : Text.lines (front ++ '\n' :: back ++ c :: stream) =
        front :: Text.lines (back ++ c :: stream) := by
      rw [List.append_assoc, List.cons_append, Text.lines_append_newline,
        Text.lines_of_not_mem first, List.singleton_append]
    refine .more cut ?_ calm
    rw [Text.trimEnd_of_blank (Text.isBlankText_of_gap gaps.1)]
    simp [readCode, endLine, structured]
  · have spaces : gap.all (· = ' ') = true := by
      rw [List.all_eq_true] at gaps ⊢
      intro other member
      have kind := gaps other member
      simp only [isGap, Bool.or_eq_true, decide_eq_true_eq] at kind ⊢
      exact kind.resolve_right fun same => newline (same ▸ member)
    refine Continues.of_append newline ?_
      (onward number _ ⟨gap, body.top.lineBrackets, body.anchor, gaps, fun _ some => some, rfl⟩)
    intro line later cut
    obtain ⟨tail, others, found⟩ := Text.exists_lines stream
    have noNewline : c ≠ '\n' := by
      rintro rfl
      cases mark
    rw [Text.lines_cons, if_neg noNewline, found, List.modifyHead_cons, List.cons.injEq] at cut
    rw [← cut.1, Text.trimEnd_append_mark mark, readCode_spaces spaces]
    exact congrArg _ (Text.trimEnd_append_mark mark [] tail).symm

/-! ## Code -/

/-- Whether a character is taken into the text of a member wherever it stands. -/
def isNeutral (c : Char) : Bool :=
  !isOpener c && !isCloser c && c ≠ ',' && c ≠ '"' && c ≠ '\\'

theorem next_of_bare {c : Char} (noQuote : c ≠ '"') (noEscape : c ≠ '\\') :
    Quoting.next {} c = {} := by
  simp [Quoting.next, Quoting.isQuote, noQuote, noEscape]

theorem isNeutral_of_isWordChar {c : Char} (word : isWordChar c = true) : isNeutral c = true := by
  obtain ⟨noOpener, noCloser⟩ := Text.neutral_of_isWordChar word
  simp only [isNeutral, noOpener, noCloser, Bool.not_false, Bool.true_and, Bool.and_eq_true,
    decide_eq_true_eq]
  refine ⟨⟨?_, ?_⟩, ?_⟩
  · rintro rfl
    cases word
  · rintro rfl
    cases word
  · rintro rfl
    cases word

theorem readCode_neutral {c : Char} (neutral : isNeutral c = true) (rest : Text) :
    readCode limit none number {} body (c :: rest) =
      readCode limit none number {}
        { body with top := { body.top with text := body.top.text ++ [c] } } rest := by
  simp only [isNeutral, Bool.and_eq_true, Bool.not_eq_true', decide_eq_true_eq] at neutral
  obtain ⟨⟨⟨⟨noOpener, noCloser⟩, noComma⟩, noQuote⟩, noEscape⟩ := neutral
  have noClose : c ≠ '}' := by
    rintro rfl
    cases noCloser
  have noOpen : c ≠ '{' := by
    rintro rfl
    cases noOpener
  simp [readCode, Quoting.exposes, Quoting.isQuote, noQuote, noClose, noOpen, noComma,
    next_of_bare noQuote noEscape, OpenGroup.takeCode, OpenGroup.take, noOpener, noCloser]

theorem Continues.of_word {w : Text} (word : w.all isWordChar = true)
    (onward : Continues limit good number
      { body with top := { body.top with text := body.top.text ++ w } } stream) :
    Continues limit good number body (w ++ stream) := by
  induction w generalizing body with
  | nil => simpa using onward
  | cons c rest ih =>
    simp only [List.all_cons, Bool.and_eq_true] at word
    have later := @ih { body with top := { body.top with text := body.top.text ++ [c] } } word.2
      (by simpa using onward)
    refine Continues.of_cons (isWordChar_facts word.1).1 ?_ later
    exact fun line _ _ => readCode_neutral (isNeutral_of_isWordChar word.1) _

def Grown (words : List Text) (body next : Body) : Prop :=
  ∃ (text : Text) (lineBrackets : Nat) (anchor : Anchor),
    next = { body with top := { body.top with text, lineBrackets }, anchor } ∧
    Text.lexemes text = Text.lexemes body.top.text ++ words

theorem Grown.trans {early late : List Text} {between : Body} (first : Grown early body between)
    (second : Grown late between next) : Grown (early ++ late) body next := by
  obtain ⟨text, lineBrackets, anchor, rfl, grown⟩ := first
  obtain ⟨text', lineBrackets', anchor', rfl, grown'⟩ := second
  refine ⟨text', lineBrackets', anchor', rfl, ?_⟩
  rw [grown', grown, List.append_assoc]

theorem Padded.grown {gap : Text} (padded : Padded gap body next) : Grown [] body next := by
  obtain ⟨pad, lineBrackets, anchor, gaps, -, rfl⟩ := padded
  refine ⟨body.top.text ++ pad, lineBrackets, anchor, rfl, ?_⟩
  rw [Text.lexemes_append_gap _ gaps, List.append_nil]

/-- The gap before a word keeps it apart from the text. -/
theorem Padded.apart {gap w rest : Text} (padded : Padded gap body next)
    (apart : Text.Apart body.top.text (gap ++ (w ++ rest))) : Text.Apart next.top.text w := by
  obtain ⟨pad, lineBrackets, anchor, gaps, padding, rfl⟩ := padded
  by_cases none : pad = []
  · subst none
    rw [List.append_nil]
    by_cases empty : body.top.text = []
    · rw [empty]
      exact .inl rfl
    · have noGap : gap = [] := by
        by_contra some
        exact padding empty some rfl
      rw [noGap, List.nil_append] at apart
      exact apart.of_append
  · rcases Text.apart_gap_left w gaps with ends | starts
    · left
      rw [List.getLast?_append_of_ne_nil _ none]
      exact ends
    · exact .inr starts

theorem Continues.of_words {ws : List Text} (words : ∀ w ∈ ws, w.all isWordChar = true) {t : Text}
    (cut : Text.lexemes t = ws) {c : Char} (mark : Text.isBlank c = false)
    (structured : body.top.structured = true) (apart : Text.Apart body.top.text t)
    (onward : ∀ number next, Grown ws body next → Continues limit good number next (c :: stream)) :
    Continues limit good number body (t ++ c :: stream) := by
  induction ws generalizing t body number with
  | nil =>
    refine Continues.of_gap (Text.all_isGap_of_lexemes cut) mark structured ?_
    exact fun number next padded => onward number next padded.grown
  | cons w later ih =>
    obtain ⟨gap, rest, rfl, gaps, single, others, ends⟩ := Text.lexemes_eq_cons cut
    have word := words w (List.mem_cons_self ..)
    have some := Text.ne_nil_of_lexemes single
    obtain ⟨first, more, begins⟩ := List.exists_cons_of_ne_nil some
    have firstMark : Text.isBlank first = false := by
      rw [begins, List.all_cons, Bool.and_eq_true] at word
      exact (isWordChar_facts word.1).1
    have whole : gap ++ (w ++ rest) ++ c :: stream = gap ++ first :: (more ++ (rest ++ c :: stream)) := by
      simp [begins]
    rw [whole]
    refine Continues.of_gap gaps firstMark structured ?_
    intro number between padded
    rw [← List.cons_append, ← begins]
    refine Continues.of_word word ?_
    have grown : Grown [w] body
        { between with top := { between.top with text := between.top.text ++ w } } := by
      refine padded.grown.trans ?_
      refine ⟨between.top.text ++ w, between.top.lineBrackets, between.anchor, rfl, ?_⟩
      rw [Text.lexemes_append _ _ (padded.apart apart), single]
    refine ih (fun w' member => words w' (List.mem_cons_of_mem w member)) others ?_ ?_ ?_
    · obtain ⟨pad, lineBrackets, anchor, -, -, rfl⟩ := padded
      exact structured
    · rw [Text.Apart, List.getLast?_append_of_ne_nil _ some]
      exact ends
    · exact fun number next later => onward number next (grown.trans later)

/-! ## Braces and commas -/

/-- While a bracket is open all code is taken into the text of the member. -/
theorem readCode_inside {t : Text} (chars : ∀ c ∈ t, isMemberChar c = true)
    {inner left : List Char} (nested : Text.nest inner t = some left)
    (isOpen : body.top.brackets = inner.length + 1) (rest : Text) :
    readCode limit none number {} body (t ++ rest) =
      readCode limit none number {}
        { body with top := { body.top with
            text := body.top.text ++ t
            brackets := left.length + 1 } } rest := by
  induction t generalizing inner body with
  | nil =>
    cases nested
    simp [← isOpen]
  | cons c more ih =>
    have kind := chars c (List.mem_cons_self ..)
    have noQuote : c ≠ '"' := by
      rintro rfl
      cases kind
    have noEscape : c ≠ '\\' := by
      rintro rfl
      cases kind
    have unsettled : body.top.brackets ≠ 0 := by omega
    rw [Text.nest_cons] at nested
    obtain ⟨next, stepped, later⟩ := Option.bind_eq_some_iff.mp nested
    have taken : (body.top.takeCode c).brackets = next.length + 1 := by
      obtain ⟨closer, opens, -, step⟩ | ⟨noOpener, closes, step⟩ | ⟨noOpener, noCloser, step⟩ :=
        nestChar_cases c
      · rw [step, Option.some.injEq] at stepped
        simp [OpenGroup.takeCode, opens, ← stepped, isOpen]
      · obtain rfl := (step _ _).mp stepped
        simp [OpenGroup.takeCode, noOpener, closes, isOpen]
      · rw [step, Option.some.injEq] at stepped
        simp [OpenGroup.takeCode, noOpener, noCloser, ← stepped, isOpen]
    have step : readCode limit none number {} body (c :: (more ++ rest)) =
        readCode limit none number {} { body with top := body.top.takeCode c } (more ++ rest) := by
      simp [readCode, Quoting.exposes, Quoting.isQuote, noQuote, unsettled,
        next_of_bare noQuote noEscape]
    rw [List.cons_append, step,
      ih (fun c member => chars c (List.mem_cons_of_mem _ member)) later taken]
    simp [OpenGroup.takeCode, OpenGroup.take]

theorem Continues.of_buffer {inside : Text} (chars : ∀ c ∈ inside, isMemberChar c = true)
    (single : '\n' ∉ inside) (nested : Text.nest [] inside = some [])
    (unquoted : '"' ∉ stream) (settled : body.top.brackets = 0)
    (onward : Continues limit good number
      { body with top := { body.top with text := body.top.text ++ '{' :: (inside ++ ['}']) } }
      stream) :
    Continues limit good number body ('{' :: (inside ++ '}' :: stream)) := by
  have whole : '{' :: (inside ++ '}' :: stream) = ('{' :: (inside ++ ['}'])) ++ stream := by simp
  rw [whole]
  refine Continues.of_append (by simp [single]) ?_ onward
  intro line later cut
  have trimmed : Text.trimEnd ('{' :: (inside ++ ['}']) ++ line) =
      '{' :: (inside ++ '}' :: Text.trimEnd line) := by
    have behind : '{' :: (inside ++ ['}']) ++ line = ('{' :: inside) ++ '}' :: line := by simp
    rw [behind, Text.trimEnd_append_mark (by decide)]
    rfl
  have unquotedLine : '"' ∉ inside ++ '}' :: Text.trimEnd line := by
    simp only [List.mem_append, List.mem_cons, not_or]
    refine ⟨fun quoted => absurd (chars _ quoted) (by decide), by decide, ?_⟩
    intro quoted
    have inLine : '"' ∈ line := (List.rdropWhile_prefix Text.isBlank line).subset quoted
    have inStream := Text.infix_of_mem_lines stream line (by simp [cut])
    exact unquoted (inStream.subset inLine)
  have ends := Text.groupEnd?_append unquotedLine nested
  rw [trimmed]
  have opened : readCode limit none number {} body ('{' :: (inside ++ '}' :: Text.trimEnd line)) =
      readCode limit none number {}
        { body with top := { body.top with text := body.top.text ++ ['{'], brackets := 1 } }
        (inside ++ '}' :: Text.trimEnd line) := by
    rw [readCode]
    simp [Quoting.exposes, Quoting.isQuote, ends, next_of_bare, OpenGroup.takeCode, OpenGroup.take,
      isOpener, settled]
  rw [opened, readCode_inside chars nested (by rfl), readCode]
  simp [Quoting.exposes, Quoting.isQuote, next_of_bare, OpenGroup.takeCode, OpenGroup.take,
    isOpener, isCloser, settled]

theorem Continues.of_enter {inside : Text} (chars : ∀ c ∈ inside, isMemberChar c = true)
    (newline : '\n' ∈ inside) (nested : Text.nest [] inside = some [])
    (settled : body.top.brackets = 0) (structured : body.top.structured = true)
    (single : body.top.pending = false) (room : body.below.length + 1 < limit)
    (onward : Continues limit good number
      { top := { node := body.top.groupNode number }
        below := body.top.withoutHeader :: body.below
        anchor := .opening } (inside ++ stream)) :
    Continues limit good number body ('{' :: (inside ++ stream)) := by
  refine Continues.of_cons (by decide) ?_ onward
  intro line later cut
  obtain ⟨front, back, rfl, first⟩ := List.eq_append_cons_of_mem newline
  have isFirst : line = front := by
    rw [List.append_assoc, List.cons_append, Text.lines_append_newline, Text.lines_of_not_mem first]
      at cut
    exact (List.cons.inj cut).1.symm
  subst isFirst
  obtain ⟨blank, isBlank, whole⟩ := Text.exists_blank_trimEnd line
  have leftOpen : Text.groupEnd? (Text.trimEnd line) = none := by
    rw [whole, List.append_assoc, Text.nest_append] at nested
    obtain ⟨waiting, here, -⟩ := Option.bind_eq_some_iff.mp nested
    refine Text.groupEnd?_of_nest ?_ here
    intro quoted
    have inLine : '"' ∈ line := (List.rdropWhile_prefix Text.isBlank line).subset quoted
    exact absurd (chars _ (List.mem_append_left _ inLine)) (by decide)
  have entered : body.enterGroup limit number = .ok
      { top := { node := body.top.groupNode number }
        below := body.top.withoutHeader :: body.below
        anchor := .opening } := by
    rw [enterGroup, single, if_neg (by decide), if_neg (by omega)]
  simp [readCode, Quoting.exposes, Quoting.isQuote, settled, structured, leftOpen, entered,
    next_of_bare]

theorem Continues.of_leave {top outer : OpenGroup} {below : List OpenGroup} {anchor : Anchor}
    (settled : top.brackets = 0)
    (onward : Continues limit good number
      { top := outer.adopt (top.close number).node, below, anchor := .member } stream) :
    Continues limit good number { top, below := outer :: below, anchor } ('}' :: stream) := by
  refine Continues.of_cons (by decide) ?_ onward
  intro line later cut
  simp [readCode, Quoting.exposes, Quoting.isQuote, settled, next_of_bare]

theorem Continues.of_comma (settled : body.top.brackets = 0) (structured : body.top.structured = true)
    (onward : Continues limit good number (body.endMember number) stream) :
    Continues limit good number body (',' :: stream) := by
  refine Continues.of_cons (by decide) ?_ onward
  intro line later cut
  simp [readCode, Quoting.exposes, Quoting.isQuote, settled, structured, next_of_bare]

theorem Continues.of_close {top : OpenGroup} {anchor : Anchor} (settled : top.brackets = 0)
    (gaps : stream.all isGap = true)
    (isGood : good { (top.close number).node with trailer := [], closingComment := none }) :
    Continues limit good number { top, below := [], anchor } ('}' :: stream) := by
  intro behind
  obtain ⟨line, later, cut⟩ := Text.exists_lines stream
  have blank : ∀ part ∈ Text.lines stream, Text.isBlankText part = true := by
    intro part member
    rw [Text.isBlankText, List.all_eq_true]
    intro c inPart
    have inStream := (Text.infix_of_mem_lines stream part member).subset inPart
    exact isBlank_of_isGap (List.all_eq_true.mp gaps c inStream)
  rw [cut] at blank
  refine ⟨_, later, isGood, fun part member => blank part (List.mem_cons_of_mem _ member), ?_⟩
  refine .close (show Text.lines ('}' :: stream) = ('}' :: line) :: later by
    rw [Text.lines_cons, if_neg (by decide), cut, List.modifyHead_cons]) ?_
  have trimmed : Text.trimEnd ('}' :: line) = ['}'] := by
    have marked := Text.trimEnd_append_mark (show Text.isBlank '}' = false by decide) [] line
    rw [Text.trimEnd_of_blank (blank line (List.mem_cons_self ..))] at marked
    exact marked
  rw [trimmed]
  simp only [readCode, Quoting.exposes, Quoting.isQuote, settled]
  rfl

end Body

end AsnLayout
