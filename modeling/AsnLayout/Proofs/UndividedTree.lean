import AsnLayout.Proofs.Forming
import AsnLayout.Proofs.UndividedBody

/-!
# Trees of undivided members

Where every line of a source closes its literals, and the assignment sign of every definition stands
outside of them, the code that is read for the group of a definition starts outside of literals and
closes its own.  No member of the tree lists another one then.
-/

set_option autoImplicit false

namespace AsnLayout

/-! ## Lines of a source -/

namespace Text

def ClosedLines (lines : List Text) : Prop :=
  ∀ line ∈ lines, (Quoting.after {} (codeLine (trim line)).code).inside = false

/-- The assignment sign of each definition stands outside of literals. -/
def AssignedLines (inBlock : Bool) : List Text → Prop
  | [] => True
  | line :: rest =>
    (LineKind.ofLine inBlock line = .typeDefinition →
      (Quoting.after {} (Reader.definitionSides line).1).inside = false) ∧
    AssignedLines (LineKind.blockAfter inBlock line) rest

instance AssignedLines.decidable (inBlock : Bool) : (lines : List Text) →
    Decidable (AssignedLines inBlock lines)
  | [] => inferInstanceAs (Decidable True)
  | line :: rest =>
    have := decidable (LineKind.blockAfter inBlock line) rest
    inferInstanceAs (Decidable ((LineKind.ofLine inBlock line = .typeDefinition →
      (Quoting.after {} (Reader.definitionSides line).1).inside = false) ∧
      AssignedLines (LineKind.blockAfter inBlock line) rest))

variable {line : Text} {lines : List Text}

theorem ClosedLines.head (closed : ClosedLines (line :: lines)) :
    (Quoting.after {} (codeLine (trim line)).code).inside = false :=
  closed line (List.mem_cons_self ..)

theorem ClosedLines.tail (closed : ClosedLines (line :: lines)) : ClosedLines lines :=
  fun line member => closed line (List.mem_cons_of_mem _ member)

/-- Behind a character of code the scan starts afresh. -/
theorem inside_after_cut {front back : Text} {c : Char}
    (outside : (Quoting.after {} front).exposes c = true) (plain : c ≠ '\\') :
    (Quoting.after {} (front ++ c :: back)).inside = (Quoting.after {} back).inside := by
  rw [Quoting.after_append, Quoting.after_cons, Quoting.next_of_exposes outside plain]

theorem inside_after_trim (t : Text) :
    (Quoting.after {} (trim t)).inside = (Quoting.after {} t).inside := by
  rw [trim, inside_after_trimEnd, after_trimStart]

end Text

namespace Reader

variable {line : Text} {type : TypeText} {node : Node}

/-! ## Definitions -/

/-- The lines of a type are joined by a space, which is code. -/
theorem closed_extend (closed : (Quoting.after {} type.code).inside = false) {code : CodeLine}
    (closed' : (Quoting.after {} code.code).inside = false) (count : Nat) :
    (Quoting.after {} (type.extend code count).code).inside = false := by
  change (Quoting.after {} (if type.code = [] then code.code
    else type.code ++ ' ' :: code.code)).inside = false
  split
  · exact closed'
  · have space : (Quoting.after {} type.code).exposes ' ' = true := by
      simp [Quoting.exposes, Quoting.isQuote, closed]
    rw [Text.inside_after_cut space (by decide), closed']

theorem closed_definitionSides {line : Text}
    (closed : (Quoting.after {} (Text.codeLine (Text.trim line)).code).inside = false)
    (assigned : (Quoting.after {} (definitionSides line).1).inside = false) :
    (Quoting.after {} (definitionSides line).2).inside = false := by
  revert assigned
  unfold definitionSides
  simp only
  cases found : Text.cutAt? Text.assignmentSign (Text.codeLine (Text.trim line)).code with
  | none => exact fun _ => rfl
  | some sides =>
    obtain ⟨before, behind⟩ := sides
    intro assigned
    have whole : (Text.codeLine (Text.trim line)).code = before ++ ':' :: ':' :: '=' :: behind := by
      rw [Text.eq_of_cutAt? found, List.append_assoc]
      rfl
    have shown : (Quoting.after {} before).exposes ':' = true := by
      simp only [Option.getD_some] at assigned
      simp [Quoting.exposes, Quoting.isQuote, assigned]
    rw [whole, Text.inside_after_cut shown (by decide)] at closed
    exact closed

theorem closed_firstType
    (closed : (Quoting.after {} (Text.codeLine (Text.trim line)).code).inside = false)
    (assigned : (Quoting.after {} (definitionSides line).1).inside = false) :
    (Quoting.after {} (firstType line).code).inside = false := by
  rw [firstType, Text.inside_after_trim]
  exact closed_definitionSides closed assigned

theorem undivided_startBody {limit : Int} {header first : Text} {progress : Body.Progress}
    (other : node.kind ≠ .field) (bare : node.children = [])
    (closed : (Quoting.after {} type.code).inside = false)
    (shape : shapeOf type.code = .opened header first)
    (started : Body.start (openedNode node type header) limit first = .ok progress) :
    progress.Undivided := by
  obtain ⟨front, whole, opens, -, -⟩ := shapeOf_eq_opened _ _ _ shape
  rw [whole, Text.findExposed?_brace_eq_some] at opens
  rw [whole, Text.inside_after_cut opens.1 (by decide)] at closed
  exact Body.undivided_start started other bare closed

/-! ## Items -/

theorem undivided_lineItem {reader after : Reader} {number : Nat}
    (item : reader.lineItem number line = (node, after)) : node.Everywhere Node.Undivided := by
  unfold lineItem at item
  simp only at item
  split at item
  · cases item
    exact Node.undivided_ofComment ..
  · split at item <;>
    · cases item
      exact Node.undivided_of_bare (by simp [itemNode]) rfl
  all_goals
    cases item
    exact Node.undivided_of_bare (by simp [itemNode]) rfl

/-! ## Trees -/

theorem of_undivided {progress : Body.Progress} (undivided : progress.Undivided) :
    progress.Of (fun body => ∃ q, body.Undivided q ∧ q.inside = false)
      (·.Everywhere Node.Undivided) := by
  cases undivided with
  | more undivided closed => exact ⟨_, undivided, closed⟩
  | closed all => exact all

/-- Lines that close their literals, and whose assignment signs stand outside of them, form undivided
members. -/
theorem forms_undivided (limit : Int) :
    Forms limit (fun inBlock lines => Text.ClosedLines lines ∧ Text.AssignedLines inBlock lines)
      (fun type => (Quoting.after {} type.code).inside = false)
      (fun body => ∃ q, body.Undivided q ∧ q.inside = false) (·.Everywhere Node.Undivided)
      (·.Everywhere Node.Undivided) where
  tail lines := ⟨lines.1.tail, lines.2.2⟩
  remark _ _ _ _ := Node.undivided_ofComment ..
  begins lines defines := closed_firstType lines.1.head (lines.2.1 defines)
  extend lines _ _ closed count := closed_extend closed lines.1.head count
  single _ _ _ _ _ _ := ⟨fun _ => Node.undivided_of_bare (by simp [plainNode, definitionNode]) rfl,
    fun _ _ _ _ => Node.undivided_of_bare (by simp [inlineNode, definitionNode]) rfl⟩
  start _ _ _ closed _ _ _ _ _ shape started :=
    of_undivided (undivided_startBody (by simp [definitionNode]) rfl closed shape started)
  readComment _ _ _ body _ :=
    let ⟨q, undivided, closed⟩ := body
    ⟨q, undivided.readComment .., closed⟩
  readLine lines _ _ body _ _ read :=
    let ⟨_, undivided, closed⟩ := body
    of_undivided (Body.undivided_readLine read undivided closed lines.1.head)
  lineItem _ item := undivided_lineItem item
  ofNode all := all

end Reader

/-! ## Main result -/

theorem Node.Everywhere.mono {test weaker : Node → Prop} {node : Node}
    (implies : ∀ node, test node → weaker node) (all : node.Everywhere test) :
    node.Everywhere weaker := by
  induction all with
  | intro here below ih => exact .intro (implies _ here) ih

theorem Node.Undivided.ofChild {node : Node} (undivided : node.Undivided)
    (field : node.isField = true) (single : node.spansLines = false) :
    Item.ofChild node = [.member node.content node.openingComment] := by
  simp [Item.ofChild, field, single, undivided field single, Item.ofSegments]

/-- The reader and the cutter of lists agree on members.  If every line of a source closes its
literals, and the assignment signs of its definitions stand outside of them, each member of its tree
lists itself and no other, and is laid out as one item. -/
theorem members_ofText (text : Text) (options : Options) (root : Node)
    (read : Node.ofText text options = .ok root)
    (closed : ∀ line ∈ Text.lines text,
      (Quoting.after {} (Text.codeLine (Text.trim line)).code).inside = false)
    (assigned : Text.AssignedLines false (Text.lines text)) :
    root.Everywhere fun node => node.isField = true → node.spansLines = false →
      Text.members node.content = [node.content] ∧
        Item.ofChild node = [.member node.content node.openingComment] := by
  obtain ⟨nodes, after, run, rfl⟩ := (Reader.ofText_eq_ok text options root).mp read
  have below := (Reader.forms_undivided options.maxDepth).itemsRun run ⟨closed, assigned⟩ rfl
  have all : Node.Everywhere Node.Undivided
      { kind := .root, name := "root".toList, children := nodes } :=
    .intro (Node.undivided_of_kind (by simp)) below
  exact all.mono fun node undivided field single =>
    ⟨undivided field single, undivided.ofChild field single⟩

/-- A literal with an assignment sign, a member over three lines with a quote in its comment, a
bracket that closes nothing, and a group in a group. -/
theorem members_ofText_nested_group :
    let source : Text := ("A ::= SET \x7b a \"x, ::= \x7b\", b (0 -- \"\n,\n1), c ],\nd SET \x7b\n" ++
      "e E \x7bf, g\x7d (\"\\\",\")\n\x7d\n\x7d").toList
    ∃ root, Node.ofText source {} = .ok root ∧
      root.Everywhere fun node => node.isField = true → node.spansLines = false →
        Text.members node.content = [node.content] ∧
          Item.ofChild node = [.member node.content node.openingComment] := by
  intro source
  have success : (Node.ofText source {}).toOption.isSome = true := by decide +kernel
  cases read : Node.ofText source {} with
  | error fault =>
    rw [read] at success
    cases success
  | ok root =>
    exact ⟨root, rfl, members_ofText source {} root read (by decide +kernel) (by decide +kernel)⟩

/-- An assignment sign in a literal cuts the literal in two; the member behind its second half is
read inside of a literal, and lists two. -/
theorem members_ofText_sign_in_literal :
    let source : Text := "x \"::=\" \" SEQUENCE \x7b \"a\n\"x, y\"\n\x7d".toList
    (∀ line ∈ Text.lines source,
      (Quoting.after {} (Text.codeLine (Text.trim line)).code).inside = false) ∧
    ∃ root, Node.ofText source {} = .ok root ∧ ∃ definition ∈ root.children,
      ∃ node ∈ definition.children, node.isField = true ∧ node.spansLines = false ∧
        2 ≤ (Text.members node.content).length := by
  intro source
  refine ⟨by decide +kernel, ?_⟩
  have found : (Node.ofText source {}).toOption.any (fun root => root.children.any fun definition =>
      definition.children.any fun node => node.isField && !node.spansLines &&
        2 ≤ (Text.members node.content).length) = true := by decide +kernel
  cases read : Node.ofText source {} with
  | error fault =>
    rw [read] at found
    cases found
  | ok root =>
    rw [read, Except.toOption, Option.any_some] at found
    obtain ⟨definition, isItem, below⟩ := List.any_eq_true.mp found
    obtain ⟨node, isMember, here⟩ := List.any_eq_true.mp below
    simp only [Bool.and_eq_true, decide_eq_true_eq, Bool.not_eq_true'] at here
    exact ⟨root, rfl, definition, isItem, node, isMember, here.1.1, here.1.2, here.2⟩

end AsnLayout
