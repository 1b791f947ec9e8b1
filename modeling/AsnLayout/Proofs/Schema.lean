import AsnLayout.GroupKind
import AsnLayout.Proofs.Lexeme

/-!
# Schemas of structured groups

Definitions of structured groups without comments, literals, tags and constraints: their members are
words, or words around an inner group.  Each list of definitions has many spellings, which differ in
their spaces and newlines only, and one layout.
-/

set_option autoImplicit false

namespace AsnLayout

/-! ## Definitions -/

/-- Words that are no atoms, as they head groups or frame modules. -/
def structuralWords : List Text :=
  GroupKind.structured.map (·.keyword.toList) ++
    [Text.beginWord, Text.endWord, Text.definitionsWord]

def ellipsis : Text := "...".toList

def isAtom (word : Text) : Bool :=
  word = ellipsis || (word ≠ [] && word.all Char.isAlphanum && word ∉ structuralWords)

/-- A word without a structural meaning. -/
structure Atom where
  text : Text
  valid : isAtom text = true

/-- A kind of groups that are laid out one member a line. -/
structure GroupWord where
  kind : GroupKind
  structured : kind.isStructured = true

def GroupWord.text (word : GroupWord) : Text := word.kind.keyword.toList

inductive Member where
  | plain (first : Atom) (more : List Atom)
  /-- An inner group with words before and behind it. -/
  | group (front : List Atom) (word : GroupWord) (members : List Member) (back : List Atom)

structure Definition where
  name : Atom
  /-- The name is not the mark of an extension. -/
  named : name.text ≠ ellipsis
  word : GroupWord
  members : List Member

/-! ## Spellings -/

def wordsOf (atoms : List Atom) : List Text := atoms.map Atom.text

def commaSeparated (parts : List (List Text)) : List Text := [[',']].intercalate parts

def groupTokens (word : GroupWord) (members : List Text) (back : List Atom) : List Text :=
  word.text :: ['{'] :: (members ++ ['}'] :: wordsOf back)

mutual

def Member.tokens : Member → List Text
  | .plain first more => first.text :: wordsOf more
  | .group front word members back =>
    wordsOf front ++ groupTokens word (commaSeparated (Member.tokensAll members)) back

def Member.tokensAll : List Member → List (List Text)
  | [] => []
  | member :: later => member.tokens :: Member.tokensAll later

def Member.depth : Member → Nat
  | .plain _ _ => 0
  | .group _ _ members _ => Member.depthAll members + 1

def Member.depthAll : List Member → Nat
  | [] => 0
  | member :: later => max member.depth (Member.depthAll later)

end

mutual

/-- How many levels a member takes in a layout, its own line counting as one. -/
def Member.reach : Member → Nat
  | .plain _ _ => 1
  | .group _ _ members _ => Member.reachAll members + 1

def Member.reachAll : List Member → Nat
  | [] => 0
  | member :: later => max member.reach (Member.reachAll later)

end

/-- A text writes lexemes one after the other, with gaps between them.  Where a word follows a word
the gap is not empty. -/
inductive Text.Writes : List Text → Text → Prop where
  | done {gap : Text} (isGap : gap.all isGap = true) : Writes [] gap
  | lexeme {gap w rest : Text} {later : List Text} (isGap : gap.all isGap = true)
      (apart : Apart w rest) (others : Writes later rest) : Writes (w :: later) (gap ++ (w ++ rest))

def Member.list (members : List Member) : List Text := commaSeparated (Member.tokensAll members)

namespace Definition

def tokens (definition : Definition) : List Text :=
  groupTokens definition.word (Member.list definition.members) []

def depth (definition : Definition) : Nat := Member.depthAll definition.members + 1

def reach (definition : Definition) : Nat := Member.reachAll definition.members

/-- A text spells a definition.  Its name and the assignment sign stand on one line, and what follows
writes the lexemes behind the sign. -/
def SpelledBy (definition : Definition) (text : Text) : Prop :=
  ∃ space type : Text,
    text = definition.name.text ++ (space ++ (Text.assignmentSign ++ type)) ∧
    space.all (· = ' ') = true ∧ Text.Writes definition.tokens type

/-- A text spells definitions, each of which starts on a new line. -/
inductive Spelled : List Definition → Text → Prop where
  | last {definition : Definition} {gap text : Text} (isGap : gap.all isGap = true)
      (spelled : definition.SpelledBy text) : Spelled [definition] (gap ++ text)
  | next {definition : Definition} {later : List Definition} {gap text rest : Text}
      (isGap : gap.all isGap = true) (spelled : definition.SpelledBy text)
      (others : Spelled later rest) :
      Spelled (definition :: later) (gap ++ (text ++ '\n' :: rest))

end Definition

/-! ## Lexemes of definitions -/

inductive IsToken : Text → Prop where
  | word {w : Text} (chars : w.all isWordChar = true) (some : w ≠ [])
      (free : w ∉ [Text.beginWord, Text.endWord, Text.definitionsWord])
      (dots : '.' ∈ w → w = ellipsis) : IsToken w
  | opening : IsToken ['{']
  | closing : IsToken ['}']
  | comma : IsToken [',']

theorem IsToken.ne_nil {w : Text} (token : IsToken w) : w ≠ [] := by
  rintro rfl
  cases token with
  | word _ some => exact some rfl

theorem Atom.chars (atom : Atom) : atom.text.all isWordChar = true := by
  have valid := atom.valid
  simp only [isAtom, Bool.or_eq_true, Bool.and_eq_true, decide_eq_true_eq] at valid
  rcases valid with dots | ⟨⟨-, chars⟩, -⟩
  · rw [dots]
    decide
  · rw [List.all_eq_true] at chars ⊢
    intro c member
    simp [isWordChar, chars c member]

theorem Atom.isToken (atom : Atom) : IsToken atom.text := by
  have valid := atom.valid
  simp only [isAtom, Bool.or_eq_true, Bool.and_eq_true, decide_eq_true_eq] at valid
  rcases valid with dots | ⟨⟨some, chars⟩, free⟩
  · rw [dots]
    exact .word (by decide) (by decide) (by decide) fun _ => rfl
  · refine .word atom.chars some (fun frame => free (List.mem_append_right _ frame)) ?_
    intro dot
    exact absurd (List.all_eq_true.mp chars '.' dot) (by decide)

theorem GroupWord.kind_mem (word : GroupWord) : word.kind ∈ GroupKind.structured := by
  have structured := word.structured
  cases found : word.kind with
  | primitive =>
    rw [found] at structured
    cases structured
  | _ => decide

theorem GroupWord.text_mem (word : GroupWord) :
    word.text ∈ GroupKind.structured.map (·.keyword.toList) :=
  List.mem_map.mpr ⟨word.kind, word.kind_mem, rfl⟩

theorem GroupWord.chars (word : GroupWord) : word.text.all isWordChar = true := by
  have all : ∀ w ∈ GroupKind.structured.map (·.keyword.toList), w.all isWordChar = true := by
    decide
  exact all _ word.text_mem

theorem GroupWord.isToken (word : GroupWord) : IsToken word.text := by
  have all : ∀ w ∈ GroupKind.structured.map (·.keyword.toList), w ≠ [] ∧
      w ∉ [Text.beginWord, Text.endWord, Text.definitionsWord] ∧ '.' ∉ w := by
    decide
  obtain ⟨some, free, noDot⟩ := all _ word.text_mem
  exact .word word.chars some free fun dot => absurd dot noDot

/-- A property of all members follows along their inner groups. -/
theorem Member.induct {motive : Member → Prop}
    (plain : ∀ first more, motive (.plain first more))
    (group : ∀ front word members back, (∀ member ∈ members, motive member) →
      motive (.group front word members back)) : ∀ member, motive member
  | .plain first more => plain first more
  | .group front word members back =>
    group front word members back fun member _ => Member.induct plain group member
  decreasing_by
    have smaller := List.sizeOf_lt_of_mem ‹_›
    simp only [Member.group.sizeOf_spec]
    omega

theorem Member.reachAll_le {members : List Member}
    (each : ∀ member ∈ members, member.reach ≤ member.depth + 1) :
    Member.reachAll members ≤ Member.depthAll members + 1 := by
  induction members with
  | nil => simp [Member.reachAll]
  | cons member later ih =>
    have here := each member (List.mem_cons_self ..)
    have there := ih fun other inLater => each other (List.mem_cons_of_mem _ inLater)
    rw [Member.reachAll, Member.depthAll]
    omega

theorem Member.reach_le (member : Member) : member.reach ≤ member.depth + 1 := by
  induction member using Member.induct with
  | plain first more => simp [Member.reach]
  | group front word members back ih =>
    rw [Member.reach, Member.depth]
    exact Nat.succ_le_succ (Member.reachAll_le ih)

/-- The levels of a layout are no more than the nested groups. -/
theorem Definition.reach_le (definition : Definition) : definition.reach ≤ definition.depth :=
  Member.reachAll_le fun member _ => member.reach_le

theorem Member.tokensAll_eq (members : List Member) :
    Member.tokensAll members = members.map Member.tokens := by
  induction members with
  | nil => rw [Member.tokensAll, List.map_nil]
  | cons member later ih => rw [Member.tokensAll, ih, List.map_cons]

@[simp]
theorem commaSeparated_nil : commaSeparated [] = [] := rfl

@[simp]
theorem commaSeparated_single (part : List Text) : commaSeparated [part] = part := by
  simp [commaSeparated]

theorem commaSeparated_cons (first second : List Text) (later : List (List Text)) :
    commaSeparated (first :: second :: later) =
      first ++ [','] :: commaSeparated (second :: later) := by
  simp [commaSeparated, List.intercalate]

theorem mem_commaSeparated (parts : List (List Text)) (w : Text) (member : w ∈ commaSeparated parts) :
    w = [','] ∨ ∃ part ∈ parts, w ∈ part := by
  induction parts with
  | nil => cases member
  | cons first later ih =>
    cases later with
    | nil =>
      rw [commaSeparated_single] at member
      exact .inr ⟨first, List.mem_cons_self .., member⟩
    | cons second others =>
      rw [commaSeparated_cons] at member
      rcases List.mem_append.mp member with here | there
      · exact .inr ⟨first, List.mem_cons_self .., here⟩
      rcases List.mem_cons.mp there with rfl | there
      · exact .inl rfl
      rcases ih there with comma | ⟨part, inParts, inPart⟩
      · exact .inl comma
      · exact .inr ⟨part, List.mem_cons_of_mem _ inParts, inPart⟩

theorem isToken_wordsOf (atoms : List Atom) : ∀ w ∈ wordsOf atoms, IsToken w := by
  intro w member
  obtain ⟨atom, -, rfl⟩ := List.mem_map.mp member
  exact atom.isToken

theorem isToken_groupTokens (word : GroupWord) (members : List Member) (back : List Atom)
    (inner : ∀ member ∈ members, ∀ w ∈ member.tokens, IsToken w) :
    ∀ w ∈ groupTokens word (Member.list members) back, IsToken w := by
  intro w member
  simp only [groupTokens, List.mem_cons, List.mem_append] at member
  rcases member with rfl | rfl | inside | rfl | behind
  · exact word.isToken
  · exact .opening
  · rw [Member.list, Member.tokensAll_eq] at inside
    rcases mem_commaSeparated _ _ inside with rfl | ⟨part, inParts, inPart⟩
    · exact .comma
    · obtain ⟨member, inMembers, rfl⟩ := List.mem_map.mp inParts
      exact inner member inMembers w inPart
  · exact .closing
  · exact isToken_wordsOf back w behind

theorem Member.isToken (member : Member) : ∀ w ∈ member.tokens, IsToken w := by
  induction member using Member.induct with
  | plain first more =>
    intro w member
    rw [Member.tokens] at member
    rcases List.mem_cons.mp member with rfl | later
    · exact first.isToken
    · exact isToken_wordsOf more w later
  | group front word members back ih =>
    intro w member
    rw [Member.tokens] at member
    rcases List.mem_append.mp member with before | behind
    · exact isToken_wordsOf front w before
    · exact isToken_groupTokens word members back ih w behind

theorem Definition.isToken (definition : Definition) : ∀ w ∈ definition.tokens, IsToken w :=
  isToken_groupTokens definition.word definition.members [] fun member _ => member.isToken

theorem IsToken.lexemes_eq {w : Text} (token : IsToken w) : Text.lexemes w = [w] := by
  cases token with
  | word chars some => exact Text.lexemes_word chars some
  | opening => decide
  | closing => decide
  | comma => decide

/-- A text writes lexemes exactly if it is cut into them. -/
theorem Text.writes_iff {tokens : List Text} (isToken : ∀ w ∈ tokens, IsToken w) (t : Text) :
    Writes tokens t ↔ lexemes t = tokens := by
  constructor
  · intro writes
    induction writes with
    | done gaps => exact lexemes_of_gap gaps
    | lexeme gaps apart _ ih =>
      have here := (isToken _ (List.mem_cons_self ..)).lexemes_eq
      rw [lexemes_gap_append _ gaps, lexemes_append _ _ apart, here,
        ih fun w member => isToken w (List.mem_cons_of_mem _ member)]
      rfl
  · intro cut
    induction tokens generalizing t with
    | nil => exact .done (all_isGap_of_lexemes cut)
    | cons w later ih =>
      obtain ⟨gap, rest, rfl, gaps, -, others, apart⟩ := lexemes_eq_cons cut
      exact .lexeme gaps apart (ih (fun w member => isToken w (List.mem_cons_of_mem _ member)) _ others)

theorem Definition.spelledBy_iff (definition : Definition) (text : Text) :
    definition.SpelledBy text ↔ ∃ space type : Text,
      text = definition.name.text ++ (space ++ (Text.assignmentSign ++ type)) ∧
      space.all (· = ' ') = true ∧ Text.lexemes type = definition.tokens := by
  simp only [SpelledBy, Text.writes_iff definition.isToken]

theorem Member.getLast?_tokens (member : Member) : member.tokens.getLast? ≠ some [','] := by
  have words : ∀ (w : Text) (atoms : List Atom), w ≠ [','] →
      (w :: wordsOf atoms).getLast? ≠ some [','] := by
    intro w atoms other ends
    rcases List.mem_cons.mp (List.mem_of_getLast? ends) with rfl | later
    · exact other rfl
    · obtain ⟨atom, -, comma⟩ := List.mem_map.mp later
      have chars := atom.chars
      rw [comma] at chars
      cases chars
  cases member with
  | plain first more =>
    rw [Member.tokens]
    refine words first.text more ?_
    intro comma
    have chars := first.chars
    rw [comma] at chars
    cases chars
  | group front word members back =>
    rw [Member.tokens, groupTokens, List.getLast?_append_of_ne_nil _ (List.cons_ne_nil _ _),
      List.getLast?_cons_of_ne_nil (List.cons_ne_nil _ _),
      List.getLast?_cons_of_ne_nil (by simp), List.getLast?_append_of_ne_nil _ (List.cons_ne_nil _ _)]
    exact words ['}'] back (by decide)

theorem Member.exists_word (member : Member) : ∃ w ∈ member.tokens, w.all isWordChar = true := by
  cases member with
  | plain first more => exact ⟨first.text, by simp [Member.tokens], first.chars⟩
  | group front word members back =>
    exact ⟨word.text, by simp [Member.tokens, groupTokens], word.chars⟩

/-! ## Layout -/

structure Row where
  depth : Nat
  text : Text

def Row.line (width : Int) (row : Row) : Text := Text.spaces (row.depth * width) ++ row.text

def unwords (words : List Text) : Text := [' '].intercalate words

theorem unwords_cons (w : Text) {later : List Text} (some : later ≠ []) :
    unwords (w :: later) = w ++ ' ' :: unwords later := by
  cases later with
  | nil => exact absurd rfl some
  | cons second others => simp [unwords, List.intercalate]

theorem unwords_concat {early : List Text} (some : early ≠ []) (w : Text) :
    unwords (early ++ [w]) = unwords early ++ ' ' :: w := by
  induction early with
  | nil => exact absurd rfl some
  | cons first later ih =>
    cases later with
    | nil => simp [unwords]
    | cons second others =>
      rw [List.cons_append, unwords_cons _ (by simp), ih (List.cons_ne_nil _ _),
        unwords_cons _ (List.cons_ne_nil _ _)]
      simp

/-- Words with a comma behind them, unless they belong to the last member. -/
def memberText (words : List Text) (last : Bool) : Text :=
  unwords words ++ if last then [] else [',']

mutual

def Member.rows (depth : Nat) (last : Bool) : Member → List Row
  | .plain first more => [⟨depth, memberText (first.text :: wordsOf more) last⟩]
  | .group front word members back =>
    ⟨depth, unwords (wordsOf front ++ [word.text, ['{']])⟩ ::
      (Member.rowsAll (depth + 1) members ++ [⟨depth, memberText (['}'] :: wordsOf back) last⟩])

def Member.rowsAll (depth : Nat) : List Member → List Row
  | [] => []
  | member :: later => member.rows depth later.isEmpty ++ Member.rowsAll depth later

end

namespace Definition

def rows (definition : Definition) : List Row :=
  ⟨0, unwords [definition.name.text, Text.assignmentSign, definition.word.text, ['{']]⟩ ::
    (Member.rowsAll 1 definition.members ++ [⟨0, ['}']⟩])

def lines (width : Int) (definition : Definition) : List Text :=
  definition.rows.map (Row.line width)

/-- The layout of definitions: an empty line stands between each two of them, and one newline at
the end. -/
def layout (width : Int) (definitions : List Definition) : Text :=
  Text.ofLines ([[]].intercalate (definitions.map (lines width))) ++ ['\n']

end Definition

end AsnLayout
