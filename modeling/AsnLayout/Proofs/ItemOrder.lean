import AsnLayout.Proofs.BodyLayout
import AsnLayout.Proofs.ReadItems

/-!
# Items in order

What the reader has made sure of about the items of a schema one behind the other: where a type has
no brace, the item behind it does not start with one.
-/

set_option autoImplicit false

namespace AsnLayout

/-! ## First characters of items -/

namespace Reader

/-- Whether a brace is next is seen from the first line that is not blank. -/
theorem bracesNext_cons (row : Text) (rest : List Text) :
    bracesNext (row :: rest) = (Text.trim row).head?.elim (bracesNext rest) (· = '{') := by
  cases head : (Text.trim row).head? with
  | some c => exact bracesNext_of_head? head rest
  | none =>
    have blank : Text.isBlankText row = true := by
      rw [← Text.isBlankText_trim, List.head?_eq_none_iff.mp head]
      rfl
    rw [bracesNext, if_pos blank]
    rfl

end Reader

theorem Text.head?_neatLine {line : Text} (noRemark : Reader.isRemark false line = false) :
    (trim (neatLine (trim line))).head? = (trim line).head? := by
  have same := head?_codeLine noRemark
  cases head : (trim line).head? with
  | none =>
    rw [List.head?_eq_none_iff.mp head]
    rfl
  | some c =>
    have solid := isBlank_of_head?_trim head
    obtain ⟨rest, code⟩ := List.head?_eq_some_iff.mp (same.trans head)
    obtain ⟨more, starts⟩ := List.head?_eq_some_iff.mp (head?_neat solid rest)
    have begins : ∃ later, neatLine (trim line) = c :: later := by
      rw [neatLine, code, starts]
      cases (codeLine (trim line)).comment with
      | none => exact ⟨more, rfl⟩
      | some comment =>
        rw [beside, if_neg (List.cons_ne_nil c more)]
        split
        · exact ⟨more, rfl⟩
        · exact ⟨_, rfl⟩
    obtain ⟨later, whole⟩ := begins
    rw [whole, head?_trim solid]

namespace Node

def start (node : Node) : Option Char :=
  (Text.trim (if node.kind = .typeDefinition then node.name else node.content)).head?

def bracesNext : List Node → Bool
  | [] => false
  | node :: later => node.start.elim (bracesNext later) (· = '{')

theorem Comments.start {node : Node} {others : List Node} {held : Text} {after : Bool}
    (comments : Comments false (node :: others) held after) : node.start = some '-' := by
  cases comments with
  | comment isComment later =>
    rw [Node.start, if_neg (by simp [isComment.kind])]
    exact Text.head?_of_isRemark isComment.isRemark
  | code bearing later => exact bearing.elim

/-- What the reader has made sure of about an item and the items behind it. -/
structure IsItem (node : Node) (later : List Node) : Prop where
  /-- A definition is as it was read, and a type without a brace is not followed by one. -/
  defined : node.kind = .typeDefinition → node.Defined ∧ (node.isPlain = true →
    Reader.hasBrace (node.header.getD []) = true ∨ bracesNext later = false)
  line : node.kind ≠ .typeDefinition → node.kind ≠ .comment →
    LineKind.ofLine false node.content ≠ .typeDefinition

inductive AreItems : List Node → Prop where
  | nil : AreItems []
  | cons {node : Node} {later : List Node} (isItem : node.IsItem later)
      (others : AreItems later) : AreItems (node :: later)

theorem isItem_of_comment {node : Node} (kind : node.kind = .comment) (later : List Node) :
    node.IsItem later :=
  ⟨fun defines => by simp [kind] at defines, fun _ other => absurd kind other⟩

theorem AreItems.append_comments {front back : List Node}
    (comments : ∀ node ∈ front, node.kind = .comment) (items : AreItems back) :
    AreItems (front ++ back) := by
  induction front with
  | nil => exact items
  | cons node later ih =>
    obtain ⟨here, there⟩ := List.forall_mem_cons.mp comments
    exact .cons (isItem_of_comment here _) (ih there)

theorem Comments.kind {nodes : List Node} {before after : Bool} {held : Text}
    (comments : Comments before nodes held after) : ∀ node ∈ nodes, node.kind = .comment := by
  induction comments with
  | done => simp
  | comment isComment later ih => exact List.forall_mem_cons.mpr ⟨isComment.kind, ih⟩
  | code bearing later ih => exact bearing.elim

end Node

/-! ## Items as they were read -/

namespace Reader

variable {limits : Limits}

theorem lineItem_isItem {reader : Reader} {line : Text} (number : Nat)
    (outside : reader.inBlock = false) (kind : LineKind.ofLine false line ≠ .typeDefinition)
    {held : Text} (source : Text.IsCode line held) (later : List Node) :
    (reader.lineItem number line).1.IsItem later ∧
      (reader.lineItem number line).1.start = (Text.trim line).head? := by
  have noRemark := source.noRemark
  have noComment : LineKind.ofLine false line ≠ .comment := by
    rw [ne_eq, LineKind.ofLine_eq_comment, noRemark]
    simp
  have item : (reader.lineItem number line).1.kind ≠ .typeDefinition ∧
      (reader.lineItem number line).1.content = Text.neatLine (Text.trim line) := by
    unfold lineItem
    rw [outside]
    cases found : LineKind.ofLine false line with
    | comment => exact absurd found noComment
    | typeDefinition => exact absurd found kind
    | moduleHeader =>
      simp only
      split <;> exact ⟨by simp [itemNode], rfl⟩
    | blockBegin | blockEnd | field | other => exact ⟨by simp [itemNode], rfl⟩
  obtain ⟨noDefinition, content⟩ := item
  refine ⟨⟨fun defines => absurd defines noDefinition, fun _ _ => ?_⟩, ?_⟩
  · rw [content]
    have code : (Text.codeLine (Text.trim (Text.neatLine (Text.trim line)))).code =
        Text.trim (Text.neat (Text.codeLine (Text.trim line)).code) := by
      rw [Text.neatLine, Layout.trim_beside, Text.code_remarked source.hides.neat source.isNoted]
    have neat : Text.trim (Text.neat (Text.codeLine (Text.trim line)).code) =
        Text.neat (Text.codeLine (Text.trim line)).code := by
      obtain ⟨t', -, trimmed⟩ := Text.reblanked_neat (Text.codeLine (Text.trim line)).code
      rw [trimmed, Text.trim_trim]
    rw [LineKind.ofLine]
    split
    · simp
    · rw [code, neat]
      refine Text.codeKind_neat fun defines => kind ?_
      rw [isRemark] at noRemark
      rw [LineKind.ofLine, noRemark, if_neg (by simp), defines]
  · rw [Node.start, if_neg noDefinition, content, Text.head?_neatLine noRemark]

structure ItemRead (before : Reader) (line : Text) (rest : List Text) (node : Node) (count : Nat)
    (after : Reader) : Prop where
  aside : Node.Comments false after.setAside [] false
  /-- The item, whatever follows it, as long as no brace follows where none is on the next line. -/
  isItem : ∀ later : List Node, (after.inBlock = false → bracesNext (rest.drop count) = false →
    Node.bracesNext later = false) → node.IsItem later
  starts : before.inBlock = false → node.start = (Text.trim line).head?
  blank : before.inBlock = false → (Text.trim line).head? = none →
    count = 0 ∧ after.inBlock = false

variable {number count : Nat} {line : Text} {rest : List Text} {before after : Reader}
  {node : Node} {held : Text} {state : Bool}

theorem itemRead_readDefinition
    (read : Reading.Yields (readDefinition limits number line rest) (before.counted.pass line)
      (node, count) after)
    (settled : before.setAside = []) (defines : LineKind.ofLine before.inBlock line =
      .typeDefinition)
    (source : Text.SourceLines before.inBlock (line :: rest) held state) :
    ItemRead before line rest node count after := by
  have noRemark := isRemark_of_ofLine defines (by decide)
  obtain ⟨outside, first, second, rfl, code, later⟩ := source.of_code noRemark
  have passed := inBlock_pass noRemark outside
  rw [outside] at defines
  obtain ⟨-, -, -, -, aside, outside', -⟩ :=
    itemBears_readDefinition read settled passed code defines later
  obtain ⟨defined, kind, name, ends⟩ :=
    defined_readDefinition read settled passed code defines later
  obtain ⟨c, more, named, solid⟩ := defined.name.starts
  have starts : node.start = (Text.trim line).head? := by
    rw [Node.start, if_pos kind, ← name, named, Text.head?_trim solid]
    rfl
  refine ⟨aside, fun items onward => ⟨fun _ => ⟨defined, fun plain => ?_⟩, fun other => ?_⟩,
    fun _ => starts, fun _ none => ?_⟩
  · exact (ends plain).imp_right (onward outside')
  · exact absurd kind other
  · rw [← name, named] at none
    cases none

theorem lineItem_of_isRemark {reader : Reader} (number : Nat)
    (remark : isRemark reader.inBlock line = true) :
    reader.lineItem number line =
      (Node.ofComment line reader.inBlock reader.level number, reader.pass line) := by
  unfold lineItem
  rw [(LineKind.ofLine_eq_comment reader.inBlock line).mpr remark]

theorem itemRead_lineItem (item : before.counted.lineItem number line = (node, after))
    (settled : before.setAside = [])
    (noDefinition : LineKind.ofLine before.inBlock line ≠ .typeDefinition)
    (source : Text.SourceLines before.inBlock (line :: rest) held state) :
    ItemRead before line rest node 0 after := by
  obtain ⟨-, -, same, passed⟩ := Tally.lineItem_kept blind before.counted number line
  rw [item] at same passed
  have passed : after.inBlock = LineKind.blockAfter before.inBlock line := passed
  have aside : Node.Comments false after.setAside [] false := by
    rw [show after.setAside = [] from same.trans settled]
    exact .done
  have blank : before.inBlock = false → (Text.trim line).head? = none →
      0 = 0 ∧ after.inBlock = false := by
    intro outside none
    have blank : Text.isBlankText line = true := by
      rw [← Text.isBlankText_trim, List.head?_eq_none_iff.mp none]
      rfl
    rw [passed, Text.blockAfter_of_isBlankText blank, outside]
    exact ⟨rfl, rfl⟩
  by_cases remark : isRemark before.inBlock line = true
  · obtain ⟨rfl, -⟩ := Prod.mk.inj (item.symm.trans (lineItem_of_isRemark number remark))
    refine ⟨aside, fun later _ => Node.isItem_of_comment rfl later, fun outside => ?_, blank⟩
    rw [show before.counted.inBlock = false from outside, Node.start,
      if_neg (by simp [Node.ofComment])]
    exact congrArg List.head? (Text.trim_trimStart line)
  · have noRemark : isRemark before.inBlock line = false := by simpa using remark
    obtain ⟨outside, first, second, rfl, code, later⟩ := source.of_code noRemark
    rw [outside] at noDefinition
    have known := fun items => @lineItem_isItem before.counted line number outside noDefinition _
      code.toIsCode items
    rw [item] at known
    exact ⟨aside, fun items _ => (known items).1, fun _ => (known []).2, blank⟩

theorem itemRead_readItem
    (read : Reading.Yields (readItem limits number line rest) before (node, count) after)
    (settled : before.setAside = [])
    (source : Text.SourceLines before.inBlock (line :: rest) held state) :
    ItemRead before line rest node count after := by
  rw [yields_readItem] at read
  obtain ⟨-, read⟩ := read
  split at read
  · rename_i defines
    exact itemRead_readDefinition read settled defines source
  · rename_i noDefinition
    obtain ⟨item, rfl⟩ := read
    exact itemRead_lineItem item settled noDefinition source

/-- The items of a schema, which start with a brace only if its lines do. -/
theorem areItems_itemsRun {before after : Reader} {number skip : Nat} {lines : List Text}
    {nodes : List Node} {held : Text} {state : Bool}
    (run : ItemsRun limits before number skip lines nodes after) (settled : before.setAside = [])
    (source : Text.SourceLines before.inBlock (lines.drop skip) held state) :
    Node.AreItems nodes ∧ (before.inBlock = false → bracesNext (lines.drop skip) = false →
      Node.bracesNext nodes = false) := by
  induction run generalizing held with
  | done reader number skip => exact ⟨.nil, fun _ _ => rfl⟩
  | skip later ih => exact ih settled source
  | @item before between after number count line rest node nodes read later ih =>
    obtain ⟨-, late, -, -, source'⟩ := series_readItem read settled source
    obtain ⟨items, onward⟩ := ih rfl source'
    obtain ⟨aside, isItem, starts, blank⟩ := itemRead_readItem read settled source
    refine ⟨.append_comments aside.kind (.cons (isItem nodes onward) items), ?_⟩
    intro outside unbraced
    cases first : between.setAside with
    | nil =>
      rw [List.drop_zero, bracesNext_cons] at unbraced
      rw [List.nil_append, Node.bracesNext, starts outside]
      cases head : (Text.trim line).head? with
      | some c => rwa [head] at unbraced
      | none =>
        obtain ⟨rfl, outside'⟩ := blank outside head
        rw [head] at unbraced
        exact onward outside' unbraced
    | cons comment others =>
      rw [first] at aside
      rw [List.cons_append, Node.bracesNext, aside.start]
      rfl

end Reader

end AsnLayout
