import AsnLayout.Proofs.Bare
import AsnLayout.Proofs.Members
import AsnLayout.Layout.Document

/-!
# Definitions that are read

The lines of a spelled definition hold no word that frames a module, so they are read as the lines
of one definition, and its node is laid out as the rows of the definition.
-/

set_option autoImplicit false

namespace AsnLayout

/-! ## Words at their place -/

theorem IsToken.unframed {w : Text} (token : IsToken w) :
    w ∉ [Text.beginWord, Text.endWord, Text.definitionsWord] ∧ ('.' ∈ w → w = ellipsis) := by
  cases token with
  | word _ _ free dots => exact ⟨free, dots⟩
  | opening => decide
  | closing => decide
  | comma => decide

namespace Text

variable {t line : Text}

/-- No lexeme of a text frames a module, and dots stand only in the mark of an extension. -/
def Unframed (t : Text) : Prop :=
  ∀ w ∈ lexemes t, w ∉ [beginWord, endWord, definitionsWord] ∧ ('.' ∈ w → w = ellipsis)

theorem exists_lexeme_of_pair {a b : Char} (first : isWordChar a = true)
    (second : isWordChar b = true) (pair : [a, b] <:+: t) : ∃ w ∈ lexemes t, a ∈ w ∧ b ∈ w := by
  induction t with
  | nil => simp at pair
  | cons c rest ih =>
    rw [pair_infix_cons] at pair
    rcases pair with ⟨rfl, next⟩ | later
    · have goesOn : rest.head?.any isWordChar = true := by simp [next, second]
      obtain ⟨w, others, found⟩ := List.exists_cons_of_ne_nil (lexemes_ne_nil goesOn)
      refine ⟨a :: w, ?_, List.mem_cons_self .., List.mem_cons_of_mem _ ?_⟩
      · rw [lexemes_cons_join first goesOn, found]
        exact List.mem_cons_self ..
      · obtain ⟨gap, more, rfl, gaps, single, -, -⟩ := lexemes_eq_cons found
        cases gap with
        | nil =>
          cases w with
          | nil => cases single
          | cons head tail =>
            have same : head = b := by simpa using next
            simp [same]
        | cons head tail =>
          have same : head = b := by simpa using next
          rw [same, List.all_cons, Bool.and_eq_true, not_isGap_of_isWordChar second] at gaps
          cases gaps.1
    · obtain ⟨w, inLexemes, aInWord, bInWord⟩ := ih later
      obtain ⟨-, cut⟩ | ⟨-, -, cut⟩ | ⟨-, -, cut⟩ := lexemes_cons_cases c rest
      · exact ⟨w, cut ▸ inLexemes, aInWord, bInWord⟩
      · rw [cut]
        cases found : lexemes rest with
        | nil =>
          rw [found] at inLexemes
          cases inLexemes
        | cons head tail =>
          rw [found] at inLexemes
          rcases List.mem_cons.mp inLexemes with rfl | inTail
          · exact ⟨c :: w, by simp, List.mem_cons_of_mem _ aInWord, List.mem_cons_of_mem _ bInWord⟩
          · exact ⟨w, by simp [inTail], aInWord, bInWord⟩
      · exact ⟨w, by simp [cut, inLexemes], aInWord, bInWord⟩

theorem not_pair_of_unframed (unframed : Unframed t) {a b : Char} (word : a.isAlphanum = true) :
    (isWordChar b = true → joinsWord b = false → ¬[a, b] <:+: t) ∧
      (isWordChar b = true → joinsWord b = false → ¬[b, a] <:+: t) := by
  have isWord : isWordChar a = true := by simp [isWordChar, word]
  have apart : isWordChar b = true → joinsWord b = false → ∀ w ∈ lexemes t, a ∈ w → b ∉ w := by
    intro isWord' noJoin w inLexemes aInWord bInWord
    have dot : b = '.' := by
      rcases (isWordChar_facts isWord').2 with dot | joins
      · exact dot
      · rw [noJoin] at joins
        cases joins
    have whole := (unframed w inLexemes).2 (dot ▸ bInWord)
    rw [whole] at aInWord
    have isDot : a = '.' := by
      simpa [ellipsis] using aInWord
    rw [isDot] at word
    cases word
  constructor
  · intro isWord' noJoin pair
    obtain ⟨w, inLexemes, aInWord, bInWord⟩ := exists_lexeme_of_pair isWord isWord' pair
    exact apart isWord' noJoin w inLexemes aInWord bInWord
  · intro isWord' noJoin pair
    obtain ⟨w, inLexemes, bInWord, aInWord⟩ := exists_lexeme_of_pair isWord' isWord pair
    exact apart isWord' noJoin w inLexemes aInWord bInWord

theorem mem_lexemes_of_standing {front w back : Text} (word : w.all Char.isAlphanum = true)
    (some : w ≠ []) (before : front.getLast?.any joinsWord = false)
    (behind : back.head?.any joinsWord = false) (unframed : Unframed (front ++ (w ++ back))) :
    w ∈ lexemes (front ++ (w ++ back)) := by
  rw [List.all_eq_true] at word
  have starts : front.getLast?.any isWordChar = false := by
    rw [Bool.eq_false_iff]
    intro joined
    rcases List.eq_nil_or_concat front with rfl | ⟨early, last, rfl⟩
    · cases joined
    · obtain ⟨first, more, rfl⟩ := List.exists_cons_of_ne_nil some
      simp only [List.concat_eq_append, List.getLast?_concat, Option.any_some] at before joined
      refine (not_pair_of_unframed unframed (word first (List.mem_cons_self ..))).2 joined before ?_
      exact ⟨early, more ++ back, by simp⟩
  have ends : back.head?.any isWordChar = false := by
    rw [Bool.eq_false_iff]
    intro joined
    cases back with
    | nil => cases joined
    | cons next late =>
      obtain ⟨early, last, rfl⟩ := (List.eq_nil_or_concat w).resolve_left some
      simp only [List.head?_cons, Option.any_some] at behind joined
      refine (not_pair_of_unframed unframed (word last (by simp))).1 joined behind ?_
      exact ⟨front ++ early, late, by simp⟩
  have chars : w.all isWordChar = true := by
    rw [List.all_eq_true]
    intro c member
    simp [isWordChar, word c member]
  rw [lexemes_append _ _ (.inl starts), lexemes_append _ _ (.inr ends), lexemes_word chars some]
  simp

/-! ## Kinds of lines -/

theorem exists_of_startsWithWord {w : Text} (starts : startsWithWord t w = true) :
    ∃ back, t = w ++ back ∧ back.head?.any joinsWord = false := by
  simp only [startsWithWord, startsWith, breaksWord, Bool.and_eq_true, Bool.not_eq_true'] at starts
  obtain ⟨back, rfl⟩ := List.isPrefixOf_iff_prefix.mp starts.1
  refine ⟨back, rfl, ?_⟩
  simpa using starts.2

theorem exists_of_holdsSpacedWord {w : Text} (holds : holdsSpacedWord w t = true) :
    ∃ front c back, t = front ++ c :: back ∧ isBlank c = true ∧ startsWithWord back w = true := by
  induction t with
  | nil => cases holds
  | cons c rest ih =>
    simp only [holdsSpacedWord, Bool.or_eq_true, Bool.and_eq_true] at holds
    rcases holds with ⟨blank, starts⟩ | ⟨-, later⟩
    · exact ⟨[], c, rest, rfl, blank, starts⟩
    · obtain ⟨front, c', back, rfl, blank, starts⟩ := ih later
      exact ⟨c :: front, c', back, rfl, blank, starts⟩

section Unframed

variable (unframed : Unframed t)

include unframed

theorem isModuleHeader_of_unframed (plain : Plain t) : isModuleHeader t = false := by
  rw [Bool.eq_false_iff]
  intro header
  cases t with
  | nil => cases header
  | cons first rest =>
    simp only [isModuleHeader, Bool.and_eq_true] at header
    obtain ⟨front, c, tail, rfl, blank, starts⟩ := exists_of_holdsSpacedWord header.2
    obtain ⟨back, rfl, breaks⟩ := exists_of_startsWithWord starts
    have gap : isGap c = true := plain c (by simp) blank
    have noJoin : (first :: (front ++ [c])).getLast?.any joinsWord = false := by
      rw [← List.cons_append, List.getLast?_concat, Option.any_some]
      simp only [isGap, Bool.or_eq_true, decide_eq_true_eq] at gap
      rcases gap with rfl | rfl <;> decide
    have whole : first :: (front ++ c :: (definitionsWord ++ back)) =
        (first :: (front ++ [c])) ++ (definitionsWord ++ back) := by simp
    rw [whole] at unframed
    have member := mem_lexemes_of_standing (by decide) (by decide) noJoin breaks unframed
    exact (unframed _ member).1 (by decide)

theorem startsWithWord_end_of_unframed : startsWithWord t endWord = false := by
  rw [Bool.eq_false_iff]
  intro starts
  obtain ⟨back, rfl, breaks⟩ := exists_of_startsWithWord starts
  have member := @mem_lexemes_of_standing [] endWord back (by decide) (by decide) rfl breaks unframed
  exact (unframed _ member).1 (by decide)

theorem opensModule_of_unframed : opensModule t = false := by
  rw [Bool.eq_false_iff]
  intro ends
  obtain ⟨back, whole, breaks⟩ := exists_of_startsWithWord ends
  have split : t = back.reverse ++ (beginWord ++ []) := by
    have turned := congrArg List.reverse whole
    simpa using turned
  rw [split] at unframed
  have member := mem_lexemes_of_standing (by decide) (by decide) (by simpa using breaks) rfl unframed
  exact (unframed _ member).1 (by decide)

end Unframed

theorem contains_of_not_mem (absent : ':' ∉ t) : contains t assignmentSign = false := by
  have none : cutAt? assignmentSign t = none := by
    induction t with
    | nil => rfl
    | cons c rest ih =>
      simp only [List.mem_cons, not_or] at absent
      have other : startsWith (c :: rest) assignmentSign = false := by
        simp [startsWith, assignmentSign, List.isPrefixOf, absent.1]
      simp [cutAt?, other, ih absent.2]
  simp [contains, none]

structure InBody (line : Text) : Prop where
  bare : Bare line
  kind : Reader.mayStandInBody (LineKind.ofLine false line) = true
  unassigned : contains line assignmentSign = false

theorem Tokenized.unframed (tokenized : Tokenized t) : Unframed t :=
  fun w member => (tokenized w member).unframed

theorem Tokenized.trim (tokenized : Tokenized t) : Tokenized (trim t) := by
  have plain : Plain (trimStart t) := fun c member =>
    tokenized.plain c ((List.dropWhile_sublist _).subset member)
  intro w member
  rw [Text.trim, lexemes_trimEnd plain, lexemes_trimStart tokenized.plain] at member
  exact tokenized w member

theorem Tokenized.inBody (tokenized : Tokenized line) : InBody line := by
  have bare : Bare line := bare_of_not_mem (tokenized.not_mem (by decide)) (tokenized.not_mem (by decide))
  refine ⟨bare, ?_, contains_of_not_mem (tokenized.not_mem (by decide))⟩
  have trimmed := tokenized.trim
  rw [ofLine_of_bare bare, codeKind, isModuleHeader_of_unframed trimmed.unframed trimmed.plain,
    startsWithWord_end_of_unframed trimmed.unframed,
    contains_of_not_mem (trimmed.not_mem (by decide))]
  repeat' split
  all_goals first | rfl | contradiction

end Text

/-! ## Nodes of definitions -/

/-- A node is laid out as the rows of a definition.  Where its groups are nested too deep, the depth
limit is all that stops it. -/
def Node.LaysOut (node : Node) (definition : Definition) : Prop :=
  ∀ options : Options, Layout.layNode options node =
    if definition.reach ≤ options.maxDepth.toNat then .ok (definition.rows.map Row.piece ++ [.gap])
    else .error ⟨.tooDeep options.maxDepth, none⟩

theorem Node.LaysOut.of_depth {node : Node} {definition : Definition}
    (laysOut : node.LaysOut definition) {options : Options}
    (fits : definition.depth ≤ options.maxDepth) :
    Layout.layNode options node = .ok (definition.rows.map Row.piece ++ [.gap]) := by
  have small := definition.reach_le
  rw [laysOut, if_pos (by omega)]

def Node.groupItems (node : Node) : List Item :=
  if node.oneLine = some true then (node.inlineMembers.getD []).map (Item.member · none)
  else node.children.flatMap Item.ofChild

structure DefinitionNode (node : Node) (definition : Definition) : Prop where
  kind : node.kind = .typeDefinition
  name : node.name = definition.name.text
  level : node.level = 0
  groupKind : node.groupKind = some definition.word.kind
  header : node.header = some definition.word.text
  trailer : node.trailer = []
  opening : node.openingComment = none
  closing : node.closingComment = none
  lays : List.Forall₂ Item.Lays node.groupItems definition.members

theorem opener_definitionFront {node : Node} {definition : Definition}
    (name : node.name = definition.name.text) (header : node.header = some definition.word.text) :
    Layout.opener (Layout.definitionFront node) = unwords
      [definition.name.text, Text.assignmentSign, definition.word.text, ['{']] := by
  rw [Layout.definitionFront, header, Option.getD_some, if_neg definition.word.isToken.ne_nil,
    Layout.assignment, name]
  simp [Layout.opener, unwords, List.intercalate, Text.assignmentSign]

theorem DefinitionNode.laysOut {node : Node} {definition : Definition}
    (stands : DefinitionNode node definition) : node.LaysOut definition := by
  intro options
  have structured : node.isStructured = true := by
    simp [Node.isStructured, stands.groupKind, definition.word.structured]
  have body : Layout.definitionBody options node =
      if Member.reachAll definition.members ≤ options.maxDepth.toNat then
        .ok ((Member.rowsAll 1 definition.members).map Row.piece)
      else .error ⟨.tooDeep options.maxDepth, none⟩ := by
    have laid := layItems_of_lays stands.lays options options.maxDepth.toNat 1
    rw [Layout.definitionBody, stands.level, structured, Layout.layBody]
    rw [Node.groupItems] at laid
    split
    · rename_i oneLine
      rw [if_pos oneLine] at laid
      exact laid
    · rename_i oneLine
      rw [if_neg oneLine] at laid
      exact laid
  have opening := opener_definitionFront stands.name stands.header
  rw [Layout.layNode, stands.kind]
  simp only [structured, Bool.not_true, Bool.and_false, Bool.false_eq_true, if_false]
  rw [Layout.layGroupDefinition_eq, stands.opening, stands.closing, stands.trailer, stands.level,
    opening, body, Definition.reach]
  by_cases fits : Member.reachAll definition.members ≤ options.maxDepth.toNat
  · rw [if_pos fits, if_pos fits]
    simp [Definition.rows, Row.piece, Layout.remarked, Layout.closer, Layout.withComma, bind,
      Except.bind]
    rfl
  · rw [if_neg fits, if_neg fits]
    rfl

/-! ## Lines in a run -/

namespace Reader

variable {limits : Limits}

theorem pass_of_bare {line : Text} (bare : line.Bare) (count : Nat) :
    Reader.pass { linesRead := count } line = { linesRead := count } := by
  simp only [Reader.pass, blockAfter_of_bare bare]

theorem bodyRun_of_calm {number : Nat} {body : Body} {lines rest : List Text} {node : Node}
    (calm : Body.Calm limits.depth number body lines node rest)
    (inBody : ∀ line ∈ lines, line.InBody) (read : Nat)
    (room : (read + lines.length : Int) ≤ limits.lines) (others : List Text) :
    ∃ count, lines.drop count = rest ∧ count ≤ lines.length ∧
      BodyRun limits { linesRead := read } body number (lines ++ others) node count
        { linesRead := read + count } := by
  induction calm generalizing read with
  | blank isBlank run ih =>
    have here := inBody _ (List.mem_cons_self ..)
    rw [List.length_cons] at room
    obtain ⟨count, left, small, onward⟩ := ih
      (fun line member => inBody line (List.mem_cons_of_mem _ member)) (read + 1)
      (by push_cast at room ⊢; omega)
    refine ⟨count + 1, left, by simpa using small, .blank ?_ here.kind isBlank ?_⟩
    · simp only [MayRead]
      push_cast at room
      omega
    · rw [counted, pass_of_bare here.bare, Nat.add_comm count 1, ← Nat.add_assoc]
      exact onward
  | @code number body next line later rest node noBlank code run ih =>
    have here := inBody line (List.mem_cons_self ..)
    have lineRead : body.readLine limits.depth (Text.codeLine (Text.trim line)) number =
        .ok (.more next) := by
      rw [codeLine_of_bare here.bare]
      exact code
    rw [List.length_cons] at room
    obtain ⟨count, left, small, onward⟩ := ih
      (fun line member => inBody line (List.mem_cons_of_mem _ member)) (read + 1)
      (by push_cast at room ⊢; omega)
    refine ⟨count + 1, left, by simpa using small, .code ?_ here.kind noBlank lineRead ?_⟩
    · simp only [MayRead]
      push_cast at room
      omega
    · rw [counted, pass_of_bare here.bare, Nat.add_comm count 1, ← Nat.add_assoc]
      exact onward
  | @close number body line later node noBlank code =>
    have here := inBody line (List.mem_cons_self ..)
    have lineRead : body.readLine limits.depth (Text.codeLine (Text.trim line)) number =
        .ok (.closed node) := by
      rw [codeLine_of_bare here.bare]
      exact code
    have mayRead : MayRead limits { linesRead := read } := by
      rw [List.length_cons] at room
      simp only [MayRead]
      push_cast at room
      omega
    have closed : BodyRun limits { linesRead := read } body number (line :: later ++ others) node 1 _ :=
      .close mayRead here.kind noBlank lineRead
    rw [counted, pass_of_bare here.bare] at closed
    exact ⟨1, rfl, by simp, closed⟩

theorem codeRun_of_blanks {blanks : List Text} {line : Text}
    (isBlank : ∀ blank ∈ blanks, Text.isBlankText blank = true) (noBlank : Text.isBlankText line = false)
    (inBody : ∀ part ∈ blanks ++ [line], part.InBody) (read number : Nat)
    (room : (read + blanks.length + 1 : Int) ≤ limits.lines) (rest : List Text) :
    CodeRun limits { linesRead := read } number (blanks ++ line :: rest) ⟨Text.trim line, none⟩
      (blanks.length + 1) { linesRead := read + (blanks.length + 1) } := by
  induction blanks generalizing read number with
  | nil =>
    have here := inBody line (by simp)
    have code : CodeRun limits { linesRead := read } number (line :: rest) _ 1 _ :=
      .code (by simp only [MayRead]; simpa using room) (isRemark_of_bare here.bare) noBlank
        here.unassigned
    rw [codeLine_of_bare here.bare] at code
    exact code
  | cons blank later ih =>
    have here := inBody blank (by simp)
    rw [List.length_cons] at room
    have next := ih (fun part member => isBlank part (List.mem_cons_of_mem _ member))
      (fun part member => inBody part (List.mem_cons_of_mem _ member)) (read + 1) (number + 1)
      (by push_cast at room ⊢; omega)
    refine .blank ?_ (isRemark_of_bare here.bare) (isBlank blank (List.mem_cons_self ..)) ?_
    · simp only [MayRead]
      push_cast at room
      omega
    · rw [List.length_cons, counted]
      have total : read + (later.length + 1 + 1) = read + 1 + (later.length + 1) := by omega
      rw [total]
      exact next

end Reader

end AsnLayout
