import AsnLayout.Layout.Item
import AsnLayout.Proofs.Spacing

/-!
# Members that are expanded

A member may reach the layout as a text on one line, however many groups are nested in it.  Its text
is cut at the braces and commas its lexemes tell, and what comes out is the rows of the member.
-/

set_option autoImplicit false

namespace AsnLayout

/-! ## Texts of tokens -/

def Text.Tokenized (t : Text) : Prop := ∀ w ∈ Text.lexemes t, IsToken w

def isMemberChar (c : Char) : Bool := isGap c || isWordChar c || c = '{' || c = '}' || c = ','

theorem IsToken.isMemberChar {w : Text} (token : IsToken w) : ∀ c ∈ w, isMemberChar c = true := by
  intro c member
  cases token with
  | word chars => simp [AsnLayout.isMemberChar, List.all_eq_true.mp chars c member]
  | opening => rw [List.mem_singleton.mp member]; decide
  | closing => rw [List.mem_singleton.mp member]; decide
  | comma => rw [List.mem_singleton.mp member]; decide

theorem solid_mark {c : Char} (mark : Text.isBlank c = false) :
    ∀ d ∈ [c], Text.isBlank d = false := by
  intro d member
  rw [List.mem_singleton.mp member]
  exact mark

theorem IsToken.solid {w : Text} (token : IsToken w) : ∀ c ∈ w, Text.isBlank c = false := by
  cases token with
  | word chars => exact isBlank_of_mem_word chars
  | opening => exact solid_mark (by decide)
  | closing => exact solid_mark (by decide)
  | comma => exact solid_mark (by decide)

namespace Text

variable {t front back : Text}

theorem Tokenized.of_eq {tokens : List Text} (cut : lexemes t = tokens)
    (all : ∀ w ∈ tokens, IsToken w) : Tokenized t := by
  intro w member
  exact all w (cut ▸ member)

theorem Tokenized.isMemberChar (tokenized : Tokenized t) : ∀ c ∈ t, isMemberChar c = true := by
  intro c member
  cases gap : isGap c with
  | true => simp [AsnLayout.isMemberChar, gap]
  | false =>
    have kept : c ∈ t.filter (!isGap ·) := List.mem_filter.mpr ⟨member, by simp [gap]⟩
    rw [← flatten_lexemes] at kept
    obtain ⟨w, inLexemes, inWord⟩ := List.mem_flatten.mp kept
    exact (tokenized w inLexemes).isMemberChar c inWord

theorem Tokenized.not_mem (tokenized : Tokenized t) {c : Char}
    (foreign : AsnLayout.isMemberChar c = false) : c ∉ t := by
  intro member
  rw [tokenized.isMemberChar c member] at foreign
  cases foreign

theorem Tokenized.plain (tokenized : Tokenized t) : Plain t :=
  plain_of_lexemes fun w member => (tokenized w member).solid

theorem Tokenized.neat_eq (tokenized : Tokenized t) : neat t = trim (collapse t) :=
  neat_of_bare (tokenized.not_mem (by decide)) (tokenized.not_mem (by decide))

theorem Tokenized.lexemes_neat (tokenized : Tokenized t) : lexemes (neat t) = lexemes t := by
  have collapsed := lexemes_collapse tokenized.plain
  have plain : Plain (collapse t) := Tokenized.plain fun w member => tokenized w (collapsed ▸ member)
  have started := lexemes_trimStart plain
  have plain' : Plain (trimStart (collapse t)) := fun c member =>
    plain c ((List.dropWhile_sublist _).subset member)
  rw [tokenized.neat_eq, trim, lexemes_trimEnd plain', started, collapsed]

/-- A text that does not end with a comma has its neat form as a member. -/
theorem Tokenized.memberForm_eq (tokenized : Tokenized t)
    (ends : (lexemes t).getLast? ≠ some [',']) : memberForm t = neat t := by
  rw [memberForm, trimEndBy_eq, List.rdropWhile_eq_self_iff]
  intro some
  simp only [Bool.or_eq_true, decide_eq_true_eq, not_or]
  constructor
  · intro comma
    have cut := List.dropLast_append_getLast some
    rw [comma] at cut
    have whole := tokenized.lexemes_neat
    rw [← cut, lexemes_mark _ _ (by decide) (by decide)] at whole
    rw [← whole] at ends
    simp at ends
  · have trimmed : neat t = (trimStart (collapse t)).rdropWhile isBlank := tokenized.neat_eq
    simp only [trimmed]
    exact List.rdropWhile_last_not isBlank _ (trimmed ▸ some)

theorem Tokenized.memberForm_words {ws : List Text} (words : ∀ w ∈ ws, w.all isWordChar = true)
    (tokenized : Tokenized t) (cut : lexemes t = ws) : memberForm t = unwords ws := by
  rw [tokenized.memberForm_eq, tokenized.neat_eq, trim_collapse_words words cut]
  rw [cut]
  intro comma
  have chars := words [','] (List.mem_of_getLast? comma)
  cases chars

end Text

theorem all_isWordChar_wordsOf (atoms : List Atom) : ∀ w ∈ wordsOf atoms, w.all isWordChar = true := by
  intro w member
  obtain ⟨atom, -, rfl⟩ := List.mem_map.mp member
  exact atom.chars

/-! ## Brackets of members -/

namespace Text

theorem nestChar_of_neutral {c : Char} (noOpener : isOpener c = false) (noCloser : isCloser c = false)
    (waiting : List Char) : nestChar waiting c = some waiting := by
  obtain ⟨-, opens, -⟩ | ⟨-, closes, -⟩ | ⟨-, -, step⟩ := nestChar_cases c
  · rw [noOpener] at opens
    cases opens
  · rw [noCloser] at closes
    cases closes
  · exact step waiting

theorem neutral_of_isWordChar {c : Char} (word : isWordChar c = true) :
    isOpener c = false ∧ isCloser c = false := by
  constructor
  · cases opens : isOpener c with
    | false => rfl
    | true =>
      simp only [isOpener, Bool.or_eq_true, decide_eq_true_eq] at opens
      rcases opens with (rfl | rfl) | rfl <;> cases word
  · cases closes : isCloser c with
    | false => rfl
    | true =>
      simp only [isCloser, Bool.or_eq_true, decide_eq_true_eq] at closes
      rcases closes with (rfl | rfl) | rfl <;> cases word

theorem nest_of_words {w : Text} (word : w.all isWordChar = true) (waiting : List Char) :
    nest waiting w = some waiting := by
  induction w with
  | nil => rfl
  | cons c rest ih =>
    simp only [List.all_cons, Bool.and_eq_true] at word
    obtain ⟨noOpener, noCloser⟩ := neutral_of_isWordChar word.1
    rw [nest_cons, nestChar_of_neutral noOpener noCloser, Option.bind_some, ih word.2]

theorem nest_flatten_lexemes (waiting : List Char) (t : Text) :
    nest waiting (lexemes t).flatten = nest waiting t := by
  rw [flatten_lexemes]
  induction t generalizing waiting with
  | nil => rfl
  | cons c rest ih =>
    cases gap : isGap c with
    | true =>
      have neutral : nestChar waiting c = some waiting := by
        simp only [isGap, Bool.or_eq_true, decide_eq_true_eq] at gap
        rcases gap with rfl | rfl <;> rfl
      rw [List.filter_cons_of_neg (by simp [gap]), ih, nest_cons, neutral, Option.bind_some]
    | false =>
      rw [List.filter_cons_of_pos (by simp [gap]), nest_cons, nest_cons]
      congr 1
      funext next
      exact ih next

end Text

def Closed (tokens : List Text) : Prop :=
  ∀ waiting, Text.nest waiting tokens.flatten = some waiting

theorem Closed.append {front back : List Text} (first : Closed front) (second : Closed back) :
    Closed (front ++ back) := by
  intro waiting
  rw [List.flatten_append, Text.nest_append, first, Option.bind_some, second]

theorem Closed.word {w : Text} {later : List Text} (word : w.all isWordChar = true)
    (closed : Closed later) : Closed (w :: later) := by
  intro waiting
  rw [List.flatten_cons, Text.nest_append, Text.nest_of_words word, Option.bind_some, closed]

theorem Closed.comma {later : List Text} (closed : Closed later) : Closed ([','] :: later) := by
  intro waiting
  rw [List.flatten_cons, Text.nest_append]
  exact closed waiting

theorem Closed.braces {inner later : List Text} (inside : Closed inner) (behind : Closed later) :
    Closed (['{'] :: (inner ++ ['}'] :: later)) := by
  intro waiting
  have opened : Text.nest waiting ['{'] = some ('}' :: waiting) := rfl
  have shut : Text.nest ('}' :: waiting) ['}'] = some waiting := by
    simp [Text.nest, nestChar, partner?, isCloser]
  rw [List.flatten_cons, Text.nest_append, opened, Option.bind_some, List.flatten_append,
    Text.nest_append, inside, Option.bind_some, List.flatten_cons, Text.nest_append, shut,
    Option.bind_some, behind]

theorem closed_wordsOf (atoms : List Atom) : Closed (wordsOf atoms) := by
  induction atoms with
  | nil => exact fun _ => rfl
  | cons atom later ih => exact .word atom.chars ih

theorem closed_commaSeparated (parts : List (List Text)) (closed : ∀ part ∈ parts, Closed part) :
    Closed (commaSeparated parts) := by
  induction parts with
  | nil => exact fun _ => rfl
  | cons first later ih =>
    have here := closed first (List.mem_cons_self ..)
    have there := ih fun part member => closed part (List.mem_cons_of_mem _ member)
    cases later with
    | nil => rwa [commaSeparated_single]
    | cons second others =>
      rw [commaSeparated_cons]
      exact here.append there.comma

theorem Member.closed (member : Member) : Closed member.tokens := by
  induction member using Member.induct with
  | plain first more => exact .word first.chars (closed_wordsOf more)
  | group front word members back ih =>
    rw [Member.tokens, groupTokens, Member.tokensAll_eq]
    refine (closed_wordsOf front).append (.word word.chars (.braces ?_ (closed_wordsOf back)))
    apply closed_commaSeparated
    intro part inParts
    obtain ⟨member, inMembers, rfl⟩ := List.mem_map.mp inParts
    exact ih member inMembers

theorem Member.closed_list (members : List Member) : Closed (Member.list members) := by
  rw [Member.list, Member.tokensAll_eq]
  apply closed_commaSeparated
  intro part inParts
  obtain ⟨member, -, rfl⟩ := List.mem_map.mp inParts
  exact member.closed

theorem Closed.nest {t : Text} {tokens : List Text} (closed : Closed tokens)
    (cut : Text.lexemes t = tokens) (waiting : List Char) : Text.nest waiting t = some waiting := by
  rw [← Text.nest_flatten_lexemes, cut, closed]

/-! ## Cutting members -/

namespace Text

variable {t front back : Text}

theorem findExposed?_append (unquoted : '"' ∉ front ++ '{' :: back) (absent : '{' ∉ front) :
    findExposed? (front ++ '{' :: back) (· = '{') = some front.length := by
  have before : (front.map (fun c => (⟨c, true⟩ : Mark))).findIdx? (·.passes (· = '{')) = none := by
    rw [List.findIdx?_eq_none_iff]
    intro mark member
    obtain ⟨c, inFront, rfl⟩ := List.mem_map.mp member
    have other : c ≠ '{' := fun same => absent (same ▸ inFront)
    simp [Mark.passes, other]
  simp only [findExposed?, marks_of_unquoted _ unquoted, List.map_append, Int.toNat_zero,
    List.drop_zero, List.findIdx?_append, before]
  simp [List.findIdx?_cons, Mark.passes]

theorem findExposed?_of_not_mem (unquoted : '"' ∉ t) (absent : '{' ∉ t) :
    findExposed? t (· = '{') = none := by
  simp only [findExposed?, marks_of_unquoted _ unquoted, Option.map_eq_none_iff,
    List.findIdx?_eq_none_iff, Int.toNat_zero, List.drop_zero]
  intro mark member
  obtain ⟨c, inText, rfl⟩ := List.mem_map.mp member
  have other : c ≠ '{' := fun same => absent (same ▸ inText)
  simp [Mark.passes, other]

theorem groupEnd?_append (unquoted : '"' ∉ front ++ '}' :: back)
    (nested : nest [] front = some []) : groupEnd? (front ++ '}' :: back) = some front.length := by
  have found := closeIndex?_append front ('}' :: back) [] [] nested
  rw [groupEnd?, marks_of_unquoted _ unquoted]
  refine found.trans ?_
  simp [closeIndex?, Mark.is]

theorem groupEnd?_of_nest (unquoted : '"' ∉ t) {waiting : List Char}
    (nested : nest [] t = some waiting) : groupEnd? t = none := by
  have found := closeIndex?_append t [] [] waiting nested
  rw [List.append_nil] at found
  rw [groupEnd?, marks_of_unquoted _ unquoted]
  exact found

theorem segments_words {w : Text} (chars : ∀ c ∈ w, isGap c = true ∨ isWordChar c = true)
    (depth : Nat) (rest : Text) :
    segments (· = ',') depth ((w ++ rest).map (⟨·, true⟩)) =
      (segments (· = ',') depth (rest.map (⟨·, true⟩))).modifyHead (w ++ ·) := by
  induction w with
  | nil =>
    simp only [List.nil_append]
    cases segments (· = ',') depth (rest.map (⟨·, true⟩)) <;> rfl
  | cons c more ih =>
    have later := ih fun next member => chars next (List.mem_cons_of_mem c member)
    have kind := chars c (List.mem_cons_self ..)
    have neutral : isOpener c = false ∧ isCloser c = false ∧ c ≠ ',' := by
      rcases kind with gap | word
      · simp only [isGap, Bool.or_eq_true, decide_eq_true_eq] at gap
        rcases gap with rfl | rfl <;> decide
      · have sides := neutral_of_isWordChar word
        refine ⟨sides.1, sides.2, ?_⟩
        rintro rfl
        cases word
    simp only [List.cons_append, List.map_cons, segments, Mark.passes, neutral.1, neutral.2.1,
      Bool.and_false, Bool.false_eq_true, if_false, neutral.2.2, decide_false,
      Bool.false_and, later, List.modifyHead_modifyHead]
    rfl

theorem chars_of_words {ws : List Text} (words : ∀ w ∈ ws, w.all isWordChar = true)
    (cut : lexemes t = ws) : ∀ c ∈ t, isGap c = true ∨ isWordChar c = true := by
  intro c member
  cases gap : isGap c with
  | true => exact .inl rfl
  | false =>
    have kept : c ∈ t.filter (!isGap ·) := List.mem_filter.mpr ⟨member, by simp [gap]⟩
    rw [← flatten_lexemes, cut] at kept
    obtain ⟨w, inWords, inWord⟩ := List.mem_flatten.mp kept
    exact .inr (List.all_eq_true.mp (words w inWords) c inWord)

end Text

theorem exists_group {t : Text} {front back : List Atom} {word : GroupWord} {inner : List Text}
    (cut : Text.lexemes t = wordsOf front ++ groupTokens word inner back) :
    ∃ header inside trailer, t = header ++ '{' :: (inside ++ '}' :: trailer) ∧
      Text.lexemes header = wordsOf front ++ [word.text] ∧ Text.lexemes inside = inner ∧
      Text.lexemes trailer = wordsOf back := by
  have split : wordsOf front ++ groupTokens word inner back =
      (wordsOf front ++ [word.text]) ++ ['{'] :: (inner ++ ['}'] :: wordsOf back) := by
    simp [groupTokens]
  rw [split] at cut
  obtain ⟨header, rest, rfl, here, there⟩ := Text.lexemes_eq_mark cut
  obtain ⟨inside, trailer, rfl, within, behind⟩ := Text.lexemes_eq_mark there
  exact ⟨header, inside, trailer, rfl, here, within, behind⟩

theorem words_header (front : List Atom) (word : GroupWord) :
    ∀ w ∈ wordsOf front ++ [word.text], w.all isWordChar = true := by
  intro w member
  rcases List.mem_append.mp member with before | here
  · exact all_isWordChar_wordsOf front w before
  · rw [List.mem_singleton.mp here]
    exact word.chars

theorem isToken_header (front : List Atom) (word : GroupWord) :
    ∀ w ∈ wordsOf front ++ [word.text], IsToken w := by
  intro w member
  rcases List.mem_append.mp member with before | here
  · exact isToken_wordsOf front w before
  · rw [List.mem_singleton.mp here]
    exact word.isToken

theorem segments_member {t : Text} (member : Member) (cut : Text.lexemes t = member.tokens)
    (rest : Text) :
    Text.segments (· = ',') 0 ((t ++ rest).map (⟨·, true⟩)) =
      (Text.segments (· = ',') 0 (rest.map (⟨·, true⟩))).modifyHead (t ++ ·) := by
  cases member with
  | plain first more =>
    have words : ∀ w ∈ first.text :: wordsOf more, w.all isWordChar = true :=
      all_isWordChar_wordsOf (first :: more)
    rw [Member.tokens] at cut
    exact Text.segments_words (Text.chars_of_words words cut) 0 rest
  | group front word members back =>
    rw [Member.tokens] at cut
    obtain ⟨header, inside, trailer, rfl, here, within, behind⟩ := exists_group cut
    have before := Text.segments_words (Text.chars_of_words (words_header front word) here)
      0 ('{' :: (inside ++ '}' :: (trailer ++ rest)))
    have nested := (Member.closed_list members).nest within []
    have between := segments_append inside ('}' :: (trailer ++ rest)) [] [] nested
    have after := Text.segments_words
      (Text.chars_of_words (all_isWordChar_wordsOf back) behind) 0 rest
    have whole : header ++ '{' :: (inside ++ '}' :: trailer) ++ rest =
        header ++ '{' :: (inside ++ '}' :: (trailer ++ rest)) := by simp
    rw [whole, before]
    simp only [List.map_cons, Text.segments, Mark.passes, isOpener, isCloser, decide_true,
      Bool.true_or, Bool.and_true, if_true]
    simp only [List.length_nil, Nat.zero_add] at between
    rw [Nat.zero_add, between]
    simp only [List.map_cons, Text.segments, Mark.passes, isOpener, isCloser, Bool.true_and,
      Nat.sub_self]
    rw [if_neg (by decide), if_pos (by decide), after]
    simp only [List.modifyHead_modifyHead]
    congr 1
    funext tail
    simp

theorem Member.isToken_list (members : List Member) : ∀ w ∈ Member.list members, IsToken w := by
  intro w member
  rw [Member.list, Member.tokensAll_eq] at member
  rcases mem_commaSeparated _ _ member with rfl | ⟨part, inParts, inPart⟩
  · exact .comma
  · obtain ⟨member, -, rfl⟩ := List.mem_map.mp inParts
    exact member.isToken w inPart

theorem segments_list {t : Text} (member : Member) (later : List Member)
    (cut : Text.lexemes t = Member.list (member :: later)) :
    List.Forall₂ (fun part member => Text.lexemes part = Member.tokens member)
      (Text.segments (· = ',') 0 (t.map (⟨·, true⟩))) (member :: later) := by
  rw [Member.list, Member.tokensAll_eq] at cut
  induction later generalizing t member with
  | nil =>
    simp only [List.map_cons, List.map_nil, commaSeparated_single] at cut
    have whole := segments_member member cut []
    rw [List.append_nil] at whole
    rw [whole]
    simpa [Text.segments] using cut
  | cons second others ih =>
    rw [List.map_cons, List.map_cons, commaSeparated_cons] at cut
    obtain ⟨front, back, rfl, here, there⟩ := Text.lexemes_eq_mark cut
    have rest := ih second (by rw [there, List.map_cons])
    rw [segments_member member here]
    simp only [List.map_cons, Text.segments, Mark.passes, isOpener, isCloser]
    rw [if_neg (by decide), if_neg (by decide), if_pos (by decide), List.modifyHead_cons]
    exact .cons (by simpa using here) rest

theorem memberForm_member {t : Text} (member : Member) (cut : Text.lexemes t = member.tokens) :
    Text.memberForm t = Text.neat t := by
  have tokenized := Text.Tokenized.of_eq cut member.isToken
  exact tokenized.memberForm_eq (cut ▸ member.getLast?_tokens)

theorem lexemes_memberForm {t : Text} (member : Member) (cut : Text.lexemes t = member.tokens) :
    Text.lexemes (Text.memberForm t) = member.tokens := by
  have tokenized := Text.Tokenized.of_eq cut member.isToken
  rw [memberForm_member member cut, tokenized.lexemes_neat, cut]

theorem isMember_memberForm {t : Text} (member : Member) (cut : Text.lexemes t = member.tokens) :
    Text.isMember (Text.memberForm t) = true := by
  have kept := lexemes_memberForm member cut
  obtain ⟨w, inTokens, word⟩ := member.exists_word
  rw [← kept] at inTokens
  simp only [Text.isMember, ne_eq, Bool.and_eq_true, decide_eq_true_eq]
  refine ⟨⟨?_, ?_⟩, ?_⟩
  · intro none
    rw [none] at inTokens
    cases inTokens
  · intro brace
    rw [brace] at inTokens
    rw [List.mem_singleton.mp inTokens] at word
    cases word
  · intro brace
    rw [brace] at inTokens
    rw [List.mem_singleton.mp inTokens] at word
    cases word

/-- The members a text lists are those its lexemes tell. -/
theorem members_list {t : Text} (members : List Member)
    (cut : Text.lexemes t = Member.list members) :
    ∃ parts, Text.members t = parts.map Text.memberForm ∧
      List.Forall₂ (fun part member => Text.lexemes part = Member.tokens member) parts members := by
  have tokenized := Text.Tokenized.of_eq cut (Member.isToken_list members)
  have marked := Text.marks_of_unquoted t (tokenized.not_mem (by decide))
  cases members with
  | nil =>
    have single := Text.segments_words
      (Text.chars_of_words (fun w member => by cases member) cut) 0 []
    have blank : Text.memberForm t = [] := tokenized.memberForm_words (fun w member => by cases member) cut
    rw [List.append_nil] at single
    refine ⟨[], ?_, .nil⟩
    simp [Text.members, marked, single, Text.segments, blank, Text.isMember]
  | cons member later =>
    have parts := segments_list member later cut
    refine ⟨Text.segments (· = ',') 0 (t.map (⟨·, true⟩)), ?_, parts⟩
    rw [Text.members, marked, List.filter_eq_self]
    intro form inForms
    obtain ⟨part, inParts, rfl⟩ := List.mem_map.mp inForms
    obtain ⟨index, bound, rfl⟩ := List.getElem_of_mem inParts
    have bound' : index < (member :: later).length := parts.length_eq ▸ bound
    exact isMember_memberForm _ (parts.get bound bound')

/-! ## Layout of members -/

def Row.piece (row : Row) : Piece := .line row.depth row.text

/-- An item is laid out as the rows of a member.  Where there is no room for its groups, the depth
limit is all that stops it. -/
def Item.Lays (item : Item) (member : Member) : Prop :=
  item.isMember = true ∧ ∀ (options : Options) (room depth : Nat) (last : Bool),
    Layout.layItem options room depth (!last) item =
      if member.reach ≤ room then .ok ((member.rows depth last).map Row.piece)
      else .error ⟨.tooDeep options.maxDepth, none⟩

theorem layItems_of_lays {items : List Item} {members : List Member}
    (lays : List.Forall₂ Item.Lays items members) (options : Options) (room depth : Nat) :
    Layout.layItems (Layout.layItem options room depth) items =
      if Member.reachAll members ≤ room then .ok ((Member.rowsAll depth members).map Row.piece)
      else .error ⟨.tooDeep options.maxDepth, none⟩ := by
  induction lays with
  | nil => rfl
  | @cons item member items members here there ih =>
    have comma : items.any Item.isMember = !members.isEmpty := by
      cases there with
      | nil => rfl
      | cons first others => simp [first.1]
    rw [Layout.layItems, comma, here.2 options room depth members.isEmpty, ih, Member.reachAll,
      Member.rowsAll, List.map_append]
    by_cases first : member.reach ≤ room
    · by_cases others : Member.reachAll members ≤ room
      · rw [if_pos first, if_pos others, if_pos (Nat.max_le.mpr ⟨first, others⟩)]
        rfl
      · rw [if_pos first, if_neg others, if_neg fun both => others (Nat.max_le.mp both).2]
        rfl
    · rw [if_neg first, if_neg fun both => first (Nat.max_le.mp both).1]
      rfl

theorem words_unwords {ws : List Text} (words : ∀ w ∈ ws, w ≠ [] ∧ ∀ c ∈ w, Text.isBlank c = false) :
    Text.words (unwords ws) = ws := by
  induction ws with
  | nil => rfl
  | cons w later ih =>
    obtain ⟨some, solid⟩ := words w (List.mem_cons_self ..)
    have rest := ih fun w member => words w (List.mem_cons_of_mem _ member)
    cases later with
    | nil => simp [unwords, Text.words, List.splitOnP_eq_singleton solid, some]
    | cons second others =>
      rw [Text.words] at rest
      rw [unwords_cons _ (List.cons_ne_nil _ _), Text.words,
        List.splitOnP_append_cons_of_forall_mem solid ' ' (by decide),
        List.filter_cons_of_pos (by simp [some]), rest]

theorem ofHeader_unwords (front : List Atom) (word : GroupWord) :
    GroupKind.ofHeader (unwords (wordsOf front ++ [word.text])) = word.kind := by
  have solid : ∀ w ∈ wordsOf front ++ [word.text], w ≠ [] ∧ ∀ c ∈ w, Text.isBlank c = false := by
    intro w member
    exact ⟨(isToken_header front word w member).ne_nil,
      isBlank_of_mem_word (words_header front word w member)⟩
  have last : Text.lastWord (unwords (wordsOf front ++ [word.text])) = word.text := by
    rw [Text.lastWord, words_unwords solid, List.getLast?_concat]
    rfl
  have all : ∀ kind ∈ GroupKind.structured, (GroupKind.structured.find? fun other =>
      kind.keyword.toList = other.keyword.toList) = some kind := by
    decide
  rw [GroupKind.ofHeader, last, GroupWord.text, all _ word.kind_mem]
  rfl

theorem unwords_ne_nil {w : Text} {later : List Text} (some : w ≠ []) :
    unwords (w :: later) ≠ [] := by
  cases later with
  | nil => simpa [unwords] using some
  | cons second others => simp [unwords_cons]

theorem opener_header (front : List Atom) (word : GroupWord) :
    Layout.opener (unwords (wordsOf front ++ [word.text])) =
      unwords (wordsOf front ++ [word.text, ['{']]) := by
  have whole : unwords (wordsOf front ++ [word.text, ['{']]) =
      unwords (wordsOf front ++ [word.text]) ++ [' ', '{'] := by
    rw [← unwords_concat (by simp) ['{'], List.append_assoc, List.singleton_append]
  have some : unwords (wordsOf front ++ [word.text]) ≠ [] := by
    intro none
    have header := ofHeader_unwords front word
    rw [none] at header
    have structured := word.structured
    rw [← header] at structured
    cases structured
  rw [whole, Layout.opener, if_neg some]

theorem closer_trailer (back : List Atom) (last : Bool) :
    Layout.remarked (Layout.closer (unwords (wordsOf back)) (!last)) none =
      memberText (['}'] :: wordsOf back) last := by
  have line : (if unwords (wordsOf back) = [] then ['}'] else ['}', ' '] ++ unwords (wordsOf back)) =
      unwords (['}'] :: wordsOf back) := by
    cases back with
    | nil => rfl
    | cons atom later =>
      rw [wordsOf, List.map_cons, if_neg (unwords_ne_nil atom.isToken.ne_nil),
        unwords_cons ['}'] (List.cons_ne_nil _ _)]
      rfl
  rw [Layout.remarked, Layout.closer, line, memberText]
  cases last <;> simp [Layout.withComma]

theorem rows_group (front : List Atom) (word : GroupWord) (members : List Member)
    (back : List Atom) (depth : Nat) (last : Bool) :
    Piece.line depth (Layout.opener (unwords (wordsOf front ++ [word.text]))) ::
        (Member.rowsAll (depth + 1) members).map Row.piece ++
        [Piece.line depth (Layout.remarked (Layout.closer (unwords (wordsOf back)) (!last)) none)] =
      ((Member.group front word members back).rows depth last).map Row.piece := by
  rw [opener_header, closer_trailer, Member.rows]
  simp [Row.piece]

theorem inlineGroup?_append {before inside after : Text} (front : Text)
    (unquoted : '"' ∉ before ++ '{' :: (inside ++ '}' :: after)) (absent : '{' ∉ before)
    (nested : Text.nest [] inside = some []) :
    Layout.inlineGroup? front (before ++ '{' :: (inside ++ '}' :: after)) =
      some ⟨Text.trim (front ++ ' ' :: Text.trim before), Text.members inside, Text.trim after⟩ := by
  have unquoted' : '"' ∉ inside ++ '}' :: after := by
    intro quoted
    exact unquoted (List.mem_append_right before (List.mem_cons_of_mem _ quoted))
  have behind : (before ++ '{' :: (inside ++ '}' :: after)).drop (before.length + 1) =
      inside ++ '}' :: after := by simp
  simp only [Layout.inlineGroup?, Text.findExposed?_append unquoted absent, behind,
    Text.groupEnd?_append unquoted' nested]
  simp

/-- A group that stands on one line is found with its header, its members and its trailer. -/
theorem inlineGroup?_member {t : Text} {front back : List Atom} {word : GroupWord}
    {members : List Member}
    (cut : Text.lexemes t = (Member.group front word members back).tokens) :
    ∃ inside, Text.lexemes inside = Member.list members ∧
      Layout.inlineGroup? [] (Text.memberForm t) =
        some ⟨unwords (wordsOf front ++ [word.text]), Text.members inside, unwords (wordsOf back)⟩ := by
  have unquoted : '"' ∉ Text.memberForm t :=
    (Text.Tokenized.of_eq (lexemes_memberForm _ cut) (Member.isToken _)).not_mem (by decide)
  have form := memberForm_member _ cut
  rw [(Text.Tokenized.of_eq cut (Member.isToken _)).neat_eq] at form
  rw [Member.tokens] at cut
  obtain ⟨header, inside, trailer, rfl, here, within, behind⟩ := exists_group cut
  have kept := Text.lexemes_collapse (Text.Tokenized.of_eq within (Member.isToken_list members)).plain
  rw [Text.collapse_append_mark (by decide), Text.collapse_append_mark (by decide), Text.trim,
    Text.trimStart_append_mark (by decide), Text.trimEnd_append_mark (by decide),
    Text.trimEnd_append_mark (by decide)] at form
  refine ⟨Text.collapse inside, kept.trans within, ?_⟩
  rw [form] at unquoted ⊢
  have words := words_header front word
  have noBrace : '{' ∉ Text.trimStart (Text.collapse header) := by
    intro member
    have inHeader : '{' ∈ Text.collapse header := (List.dropWhile_sublist _).subset member
    have plain := (Text.Tokenized.of_eq here (isToken_header front word)).plain
    rcases Text.chars_of_words words ((Text.lexemes_collapse plain).trans here) _ inHeader with
      gap | word
    · cases gap
    · cases word
  rw [inlineGroup?_append [] unquoted noBrace
    ((Member.closed_list members).nest (kept.trans within) [])]
  rw [List.nil_append, Text.trim_space_cons, Text.trim_trim, Text.trim_trimStart, Text.trim_trimEnd,
    Text.trim_collapse_words words here,
    Text.trim_collapse_words (all_isWordChar_wordsOf back) behind]

theorem bind_of_ok {α β : Type} {x : Except Fault α} {result : α} (success : x = .ok result)
    (next : α → Except Fault β) : x >>= next = next result := by
  rw [success]
  rfl

/-- The lines around the body of a group are laid out where the body is. -/
theorem bind_of_room {α β : Type} {x : Except Fault α} {result : α} {fault : Fault} {need room : Nat}
    (body : x = if need ≤ room then .ok result else .error fault) {next : α → Except Fault β}
    {whole : β} (around : next result = .ok whole) :
    x >>= next = if need + 1 ≤ room + 1 then .ok whole else .error fault := by
  rw [body]
  by_cases fits : need ≤ room
  · rw [if_pos fits, if_pos (Nat.succ_le_succ fits), ← around]
    rfl
  · rw [if_neg fits, if_neg fun more => fits (Nat.le_of_succ_le_succ more)]
    rfl

theorem forall₂_lays_map {parts : List Text} {members : List Member}
    (cuts : List.Forall₂ (fun part member => Text.lexemes part = Member.tokens member) parts members)
    (lays : ∀ member ∈ members, ∀ t, Text.lexemes t = member.tokens →
      (Item.member (Text.memberForm t) none).Lays member) :
    List.Forall₂ Item.Lays (parts.map fun part => Item.member (Text.memberForm part) none) members := by
  induction cuts with
  | nil => exact .nil
  | cons here _ ih =>
    refine .cons (lays _ (List.mem_cons_self ..) _ here) (ih ?_)
    exact fun member inMembers => lays member (List.mem_cons_of_mem _ inMembers)

theorem lays_memberForm (member : Member) : ∀ t, Text.lexemes t = member.tokens →
    (Item.member (Text.memberForm t) none).Lays member := by
  induction member using Member.induct with
  | plain first more =>
    intro t cut
    have tokenized := Text.Tokenized.of_eq (lexemes_memberForm _ cut) (Member.isToken _)
    have words : ∀ w ∈ first.text :: wordsOf more, w.all isWordChar = true :=
      all_isWordChar_wordsOf (first :: more)
    have form := (Text.Tokenized.of_eq cut (Member.isToken _)).memberForm_words words cut
    have noGroup : Layout.inlineGroup? [] (Text.memberForm t) = none := by
      have absent : '{' ∉ Text.memberForm t := by
        intro member
        rcases Text.chars_of_words words (lexemes_memberForm _ cut) _ member with gap | word
        · cases gap
        · cases word
      simp [Layout.inlineGroup?, Text.findExposed?_of_not_mem (tokenized.not_mem (by decide)) absent]
    refine ⟨rfl, ?_⟩
    intro options room depth last
    rw [Member.reach]
    cases room with
    | zero => rfl
    | succ room =>
      rw [if_pos (Nat.succ_le_succ (Nat.zero_le room))]
      simp only [Layout.layItem, Layout.groupToExpand?, noGroup, Member.rows, List.map_cons,
        List.map_nil, Row.piece]
      rw [form]
      cases last <;> simp [Layout.remarked, Layout.withComma, memberText] <;> rfl
  | group front word members back ih =>
    intro t cut
    obtain ⟨inside, within, found⟩ := inlineGroup?_member cut
    obtain ⟨parts, listed, cuts⟩ := members_list members within
    refine ⟨rfl, ?_⟩
    intro options room depth last
    rw [Member.reach]
    cases room with
    | zero => rfl
    | succ room =>
      have body := layItems_of_lays (forall₂_lays_map cuts ih) options room (depth + 1)
      have expands :
          (GroupKind.ofHeader (unwords (wordsOf front ++ [word.text]))).isStructured = true := by
        rw [ofHeader_unwords]
        exact word.structured
      simp only [Layout.layItem, Layout.groupToExpand?, found, expands, Bool.true_or, if_true, listed,
        List.map_map]
      rw [← rows_group]
      exact bind_of_room body rfl

end AsnLayout
