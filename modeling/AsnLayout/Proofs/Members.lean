import AsnLayout.Proofs.Kept
import AsnLayout.Proofs.Stream

/-!
# Members that are read

Where the lines of a definition break decides how a group is read: as text of its member if it
closes on its line, else as an open group of its own.  Both ways lead to nodes that are laid out as
the member.
-/

set_option autoImplicit false

namespace AsnLayout

/-! ## Nodes of members -/

def Represents (nodes : List Node) (members : List Member) : Prop :=
  List.Forall₂ Item.Lays (nodes.flatMap Item.ofChild) members

theorem Represents.append {nodes more : List Node} {members others : List Member}
    (first : Represents nodes members) (second : Represents more others) :
    Represents (nodes ++ more) (members ++ others) := by
  rw [Represents, List.flatMap_append]
  exact List.rel_append first second

theorem represents_ofMember {t : Text} {member : Member} (cut : Text.lexemes t = member.tokens)
    (level : Int) (number : Nat) :
    Represents [Node.ofMember (Text.memberForm t) level number] [member] := by
  have listed : Text.lexemes (Text.memberForm t) = Member.list [member] := by
    rw [lexemes_memberForm member cut, Member.list, Member.tokensAll_eq]
    simp
  obtain ⟨parts, found, cuts⟩ := members_list [member] listed
  cases cuts with
  | cons here rest =>
    cases rest
    rename_i part
    have items : Item.ofChild (Node.ofMember (Text.memberForm t) level number) =
        [.member (Text.memberForm part) none] := by
      simp [Item.ofChild, Node.ofMember, Node.spansLines, Node.isField, found, Item.ofSegments]
    rw [Represents, List.flatMap_singleton, items]
    exact .cons (lays_memberForm member part here) .nil

structure GroupNode (node : Node) (front : List Atom) (word : GroupWord) (members : List Member) :
    Prop where
  isField : node.kind = .field
  oneLine : node.oneLine = some false
  groupKind : node.groupKind = some word.kind
  header : node.header = some (unwords (wordsOf front ++ [word.text]))
  opening : node.openingComment = none
  closing : node.closingComment = none
  held : Represents node.children members

theorem GroupNode.represents {node : Node} {front : List Atom} {word : GroupWord}
    {members : List Member} (group : GroupNode node front word members) {back : List Atom}
    (trailer : node.trailer = unwords (wordsOf back)) :
    Represents [node] [.group front word members back] := by
  have spans : node.spansLines = true := by
    simp [Node.spansLines, Node.isField, group.isField, group.oneLine]
  have structured : node.isStructured = true := by
    simp [Node.isStructured, group.groupKind, word.structured]
  have items : Item.ofChild node = [.group node] := by simp [Item.ofChild, spans]
  rw [Represents, List.flatMap_singleton, items]
  refine .cons ⟨rfl, ?_⟩ .nil
  intro options room depth last
  rw [Member.reach]
  cases room with
  | zero => rfl
  | succ room =>
    have body := layItems_of_lays group.held options room (depth + 1)
    simp only [Layout.layItem, group.header, group.opening, group.closing, trailer, structured,
      if_true, Option.getD_some]
    rw [← rows_group]
    exact bind_of_room body rfl

/-! ## Open groups between members -/

structure OpenGroup.Fresh (node : Node) (members : List Member) (group : OpenGroup) : Prop where
  same : group.node = { node with children := group.node.children }
  held : Represents group.node.children members
  blank : group.text.all isGap = true
  settled : group.brackets = 0
  single : group.pending = false
  uncommented : group.comment = none
  alone : group.waiting = []

structure OpenGroup.Finished (node : Node) (members : List Member) (group : OpenGroup) : Prop where
  settled : group.brackets = 0
  structured : group.structured = true
  ended : ∀ number, OpenGroup.Fresh node members (group.endMember number)

namespace OpenGroup

variable {node : Node} {members : List Member} {group : OpenGroup}

theorem structured_of_same (same : group.node = { node with children := group.node.children })
    (structured : node.isStructured = true) : group.structured = true := by
  rw [OpenGroup.structured, same]
  exact structured

theorem fresh_endMember (same : group.node = { node with children := group.node.children })
    (settled : group.brackets = 0) (uncommented : group.comment = none) (alone : group.waiting = [])
    (number : Nat) (held : Represents (group.withMember number) members) :
    Fresh node members (group.endMember number) := by
  have ended : group.endMember number =
      { group with
        node := { group.node with children := group.withMember number }
        text := [], pending := false, comment := none, waiting := [] } := by
    rw [endMember_eq, withRemark, uncommented, alone, List.append_nil]
  rw [ended]
  exact {
    same := by rw [same]
    held := held
    blank := rfl
    settled := settled
    single := rfl
    uncommented := rfl
    alone := rfl }

theorem memberForm_of_gap {t : Text} (gaps : t.all isGap = true) : Text.memberForm t = [] := by
  have cut := Text.lexemes_of_gap gaps
  have tokenized : Text.Tokenized t := Text.Tokenized.of_eq cut fun w member => by cases member
  exact tokenized.memberForm_words (fun w member => by cases member) cut

theorem Fresh.finished (fresh : Fresh node members group) (structured : node.isStructured = true) :
    Finished node members group where
  settled := fresh.settled
  structured := structured_of_same fresh.same structured
  ended number := by
    refine fresh_endMember fresh.same fresh.settled fresh.uncommented fresh.alone number ?_
    rw [withMember, fresh.single, memberForm_of_gap fresh.blank]
    exact fresh.held

theorem Fresh.finished_text (fresh : Fresh node members group) (structured : node.isStructured = true)
    {member : Member} {text : Text} (cut : Text.lexemes text = member.tokens) (lineBrackets : Nat) :
    Finished node (members ++ [member]) { group with text, lineBrackets } where
  settled := fresh.settled
  structured := structured_of_same fresh.same structured
  ended number := by
    apply fresh_endMember
    · exact fresh.same
    · exact fresh.settled
    · exact fresh.uncommented
    · exact fresh.alone
    have some : Text.memberForm text ≠ [] := by
      have isMember := isMember_memberForm member cut
      intro none
      rw [none] at isMember
      cases isMember
    have children : withMember { group with text, lineBrackets } number =
        group.node.children ++ [Node.ofMember (Text.memberForm text) group.level number] := by
      simp [withMember, fresh.single, some, level]
    rw [children]
    exact fresh.held.append (represents_ofMember cut _ _)

theorem Fresh.finished_group (fresh : Fresh node members group)
    (structured : node.isStructured = true) {inner : Node} {front back : List Atom}
    {word : GroupWord} {parts : List Member} (isGroup : GroupNode inner front word parts)
    {text : Text} (cut : Text.lexemes text = wordsOf back) (lineBrackets : Nat) :
    Finished node (members ++ [.group front word parts back])
      { group.withoutHeader.adopt inner with text, lineBrackets } := by
  have same : (group.withoutHeader.adopt inner).node =
      { node with children := group.node.children ++ [inner] } := by
    simp only [adopt, append, withoutHeader]
    rw [fresh.same]
  refine {
    settled := fresh.settled
    structured := structured_of_same (by rw [same]) structured
    ended := ?_ }
  intro number
  apply fresh_endMember
  · rw [same]
  · exact fresh.settled
  · rfl
  · rfl
  have tokenized := Text.Tokenized.of_eq cut (isToken_wordsOf back)
  have form := tokenized.memberForm_words (all_isWordChar_wordsOf back) cut
  have isField : inner.isField = true := by simp [Node.isField, isGroup.isField]
  have children : withMember { group.withoutHeader.adopt inner with text, lineBrackets } number =
      group.node.children ++ [{ inner with trailer := unwords (wordsOf back) }] := by
    simp only [withMember, adopt, append, withoutHeader, if_true, form]
    exact Node.modifyLastField_append _ _ [] inner isField rfl
  have trailed : GroupNode { inner with trailer := unwords (wordsOf back) } front word parts :=
    ⟨isGroup.isField, isGroup.oneLine, isGroup.groupKind, isGroup.header, isGroup.opening,
      isGroup.closing, isGroup.held⟩
  rw [children]
  exact fresh.held.append (trailed.represents rfl)

theorem fresh_groupNode (number : Nat) (alone : group.waiting = []) :
    Fresh (group.groupNode number) [] { node := group.groupNode number } where
  same := rfl
  held := by
    simp only [groupNode, alone]
    exact .nil
  blank := rfl
  settled := rfl
  single := rfl
  uncommented := rfl
  alone := rfl

end OpenGroup

/-! ## Reading members -/

open Body (Continues)

/-- Wherever the lines of its text break, a member is read as a node that represents it. -/
def Member.Reads (limit : Int) (member : Member) : Prop :=
  ∀ (good : Node → Prop) (number : Nat) (body : Body) (t stream : Text) (c : Char) (node : Node)
    (done : List Member), Text.lexemes t = member.tokens → Text.isBlank c = false →
    '"' ∉ c :: stream → node.isStructured = true → OpenGroup.Fresh node done body.top →
    body.below.length + 1 + member.depth ≤ limit →
    (∀ number next, next.below = body.below →
      OpenGroup.Finished node (done ++ [member]) next.top →
      Continues limit good number next (c :: stream)) →
    Continues limit good number body (t ++ c :: stream)

section Lists

variable {limit : Int} {good : Node → Prop} {node : Node} {stream : Text}

theorem continues_list (members : List Member) (reads : ∀ member ∈ members, member.Reads limit)
    (structured : node.isStructured = true) (unquoted : '"' ∉ stream) (number : Nat) (body : Body)
    (t : Text) (done : List Member) (cut : Text.lexemes t = Member.list members)
    (fresh : OpenGroup.Fresh node done body.top)
    (room : body.below.length + 1 + Member.depthAll members ≤ limit)
    (onward : ∀ number next, next.below = body.below →
      OpenGroup.Finished node (done ++ members) next.top →
      Continues limit good number next ('}' :: stream)) :
    Continues limit good number body (t ++ '}' :: stream) := by
  induction members generalizing number body t done with
  | nil =>
    have gaps := Text.all_isGap_of_lexemes cut
    have isStructured := OpenGroup.structured_of_same fresh.same structured
    refine Continues.of_gap gaps (by decide) isStructured ?_
    rintro number next ⟨pad, lineBrackets, anchor, padding, -, rfl⟩
    refine onward _ _ rfl ?_
    rw [List.append_nil]
    refine OpenGroup.Fresh.finished ?_ structured
    have blank : (body.top.text ++ pad).all isGap = true := by
      rw [List.all_append, fresh.blank, padding]
      rfl
    exact { fresh with blank := blank }
  | cons member later ih =>
    have here := reads member (List.mem_cons_self ..)
    rw [Member.depthAll] at room
    cases later with
    | nil =>
      have single : Text.lexemes t = member.tokens := by
        rw [cut, Member.list, Member.tokensAll_eq]
        simp
      exact here good number body t stream '}' node done single (by decide) (by simp [unquoted])
        structured fresh (by omega) onward
    | cons second others =>
      rw [Member.list, Member.tokensAll_eq, List.map_cons, List.map_cons, commaSeparated_cons] at cut
      obtain ⟨front, back, rfl, first, rest⟩ := Text.lexemes_eq_mark cut
      have behind : Text.lexemes back = Member.list (second :: others) := by
        rw [rest, Member.list, Member.tokensAll_eq, List.map_cons]
      have tokenized := Text.Tokenized.of_eq behind (Member.isToken_list _)
      have unquoted' : '"' ∉ ',' :: (back ++ '}' :: stream) := by
        simp [unquoted, tokenized.not_mem (show isMemberChar '"' = false by decide)]
      rw [List.append_assoc, List.cons_append]
      refine here good number body front _ ',' node done first (by decide) unquoted' structured fresh
        (by omega) ?_
      intro number next below finished
      refine Continues.of_comma finished.settled finished.structured ?_
      refine ih (fun member inLater => reads member (List.mem_cons_of_mem _ inLater)) number
        (next.endMember number) back (done ++ [member]) behind (finished.ended number) ?_ ?_
      · simp only [Body.endMember, below]
        omega
      · intro number later sameBelow ended
        refine onward number later (sameBelow.trans below) ?_
        rw [List.append_assoc] at ended
        exact ended

end Lists

theorem Member.reads_plain (limit : Int) (first : Atom) (more : List Atom) :
    (Member.plain first more).Reads limit := by
  intro good number body t stream c node done cut mark unquoted structured fresh room onward
  have words : ∀ w ∈ first.text :: wordsOf more, w.all isWordChar = true :=
    all_isWordChar_wordsOf (first :: more)
  rw [Member.tokens] at cut
  have isStructured := OpenGroup.structured_of_same fresh.same structured
  refine Continues.of_words words cut mark isStructured (Text.apart_gap_left t fresh.blank) ?_
  rintro number next ⟨text, lineBrackets, anchor, rfl, grown⟩
  rw [Text.lexemes_of_gap fresh.blank, List.nil_append] at grown
  refine onward number _ rfl ?_
  exact fresh.finished_text structured (grown.trans (by rw [Member.tokens])) lineBrackets

section Groups

variable {limit : Int} {good : Node → Prop} {node : Node} {done : List Member} {body : Body}
  {front back : List Atom} {word : GroupWord} {members : List Member} {text inside trailer : Text}
  {stream : Text} {c : Char}

/-- A group that closes on its line becomes text of its member. -/
theorem continues_buffered (header : Text.lexemes text = wordsOf front ++ [word.text])
    (within : Text.lexemes inside = Member.list members)
    (behind : Text.lexemes trailer = wordsOf back) (single : '\n' ∉ inside)
    (mark : Text.isBlank c = false) (unquoted : '"' ∉ c :: stream)
    (structured : node.isStructured = true) (fresh : OpenGroup.Fresh node done body.top)
    (onward : ∀ number next, next.below = body.below →
      OpenGroup.Finished node (done ++ [.group front word members back]) next.top →
      Continues limit good number next (c :: stream)) (number lineBrackets : Nat) (anchor : Anchor) :
    Continues limit good number
      { body with top := { body.top with text, lineBrackets }, anchor }
      ('{' :: (inside ++ '}' :: (trailer ++ c :: stream))) := by
  have tokenized := Text.Tokenized.of_eq within (Member.isToken_list members)
  have trailing := Text.Tokenized.of_eq behind (isToken_wordsOf back)
  have unquoted' : '"' ∉ trailer ++ c :: stream := by
    rw [List.mem_append, not_or]
    exact ⟨trailing.not_mem (by decide), unquoted⟩
  refine Continues.of_buffer tokenized.isMemberChar single
    ((Member.closed_list members).nest within []) unquoted' fresh.settled ?_
  refine Continues.of_words (all_isWordChar_wordsOf back) behind mark
    (OpenGroup.structured_of_same fresh.same structured) (.inl ?_) ?_
  · have ends : text ++ '{' :: (inside ++ ['}']) = (text ++ '{' :: inside) ++ ['}'] := by simp
    simp only [ends, List.getLast?_concat]
    decide
  · rintro number next ⟨text', lineBrackets', anchor', rfl, grown⟩
    refine onward number _ rfl ?_
    refine fresh.finished_text structured (grown.trans ?_) lineBrackets'
    rw [Text.lexemes_mark _ _ (by decide) (by decide), Text.lexemes_mark _ _ (by decide) (by decide),
      header, within, Member.tokens, groupTokens, Member.list]
    simp

/-- A group that goes on behind its line becomes an open group. -/
theorem continues_opened (reads : ∀ member ∈ members, member.Reads limit)
    (header : Text.lexemes text = wordsOf front ++ [word.text])
    (within : Text.lexemes inside = Member.list members)
    (behind : Text.lexemes trailer = wordsOf back) (newline : '\n' ∈ inside)
    (mark : Text.isBlank c = false) (unquoted : '"' ∉ c :: stream)
    (structured : node.isStructured = true) (fresh : OpenGroup.Fresh node done body.top)
    (room : body.below.length + 1 + (Member.depthAll members + 1) ≤ limit)
    (onward : ∀ number next, next.below = body.below →
      OpenGroup.Finished node (done ++ [.group front word members back]) next.top →
      Continues limit good number next (c :: stream)) (number lineBrackets : Nat) (anchor : Anchor) :
    Continues limit good number
      { body with top := { body.top with text, lineBrackets }, anchor }
      ('{' :: (inside ++ '}' :: (trailer ++ c :: stream))) := by
  have tokenized := Text.Tokenized.of_eq within (Member.isToken_list members)
  have trailing := Text.Tokenized.of_eq behind (isToken_wordsOf back)
  have heading := Text.Tokenized.of_eq header (isToken_header front word)
  have unquoted' : '"' ∉ trailer ++ c :: stream := by
    rw [List.mem_append, not_or]
    exact ⟨trailing.not_mem (by decide), unquoted⟩
  have isStructured := OpenGroup.structured_of_same fresh.same structured
  refine Continues.of_enter tokenized.isMemberChar newline
    ((Member.closed_list members).nest within []) fresh.settled isStructured fresh.single
    (by simp only; omega) ?_
  set outer : OpenGroup := { body.top with text, lineBrackets } with isOuter
  have isHeader : Text.neat text = unwords (wordsOf front ++ [word.text]) := by
    rw [heading.neat_eq, Text.trim_collapse_words (words_header front word) header]
  have isGroup : ∀ children, Represents children members →
      GroupNode { outer.groupNode number with children } front word members := by
    intro children held
    exact {
      isField := rfl
      oneLine := rfl
      groupKind := by
        simp only [OpenGroup.groupNode, isOuter, isHeader, ofHeader_unwords]
      header := by simp only [OpenGroup.groupNode, isOuter, isHeader]
      opening := fresh.uncommented
      closing := rfl
      held := held }
  have innerStructured : (outer.groupNode number).isStructured = true := by
    simp only [Node.isStructured, OpenGroup.groupNode, isOuter, isHeader, ofHeader_unwords]
    exact word.structured
  refine continues_list members reads innerStructured unquoted' number _ inside [] within
    (OpenGroup.fresh_groupNode number fresh.alone) (by simp only [List.length_cons]; omega) ?_
  rintro number' ⟨top, below, anchor'⟩ sameBelow finished
  simp only [List.nil_append] at finished sameBelow
  subst sameBelow
  refine Continues.of_leave finished.settled ?_
  have closed := finished.ended number'
  have inner : (top.close number').node = (top.endMember number').node := by
    rw [OpenGroup.close, finished.structured, if_pos rfl]
  rw [inner, closed.same]
  refine Continues.of_words (all_isWordChar_wordsOf back) behind mark isStructured (.inl rfl) ?_
  rintro number next ⟨text', lineBrackets', anchor'', rfl, grown⟩
  refine onward number _ rfl ?_
  exact fresh.finished_group structured (isGroup _ closed.held) grown lineBrackets'

end Groups

theorem Member.reads (limit : Int) (member : Member) : member.Reads limit := by
  induction member using Member.induct with
  | plain first more => exact Member.reads_plain limit first more
  | group front word members back ih =>
    intro good number body t stream c node done cut mark unquoted structured fresh room onward
    rw [Member.tokens] at cut
    rw [Member.depth] at room
    obtain ⟨header, inside, trailer, rfl, here, within, behind⟩ := exists_group cut
    have isStructured := OpenGroup.structured_of_same fresh.same structured
    have whole : header ++ '{' :: (inside ++ '}' :: trailer) ++ c :: stream =
        header ++ '{' :: (inside ++ '}' :: (trailer ++ c :: stream)) := by simp
    rw [whole]
    refine Continues.of_words (words_header front word) here (by decide) isStructured
      (Text.apart_gap_left header fresh.blank) ?_
    rintro number next ⟨text, lineBrackets, anchor, rfl, grown⟩
    rw [Text.lexemes_of_gap fresh.blank, List.nil_append] at grown
    by_cases newline : '\n' ∈ inside
    · exact continues_opened ih grown within behind newline mark unquoted structured fresh
        (by simpa using room) onward number lineBrackets anchor
    · exact continues_buffered grown within behind newline mark unquoted structured fresh onward
        number lineBrackets anchor

end AsnLayout
