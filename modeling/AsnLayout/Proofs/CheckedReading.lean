import AsnLayout.Proofs.Lockstep

/-!
# Reading with checked accesses

Here a schema is read by a reader that looks up everything it needs: the brace at a position, the
innermost group of a stack, the first word of a text.  A look-up that finds nothing is a lapse,
which is told apart from a fault of the schema.  No schema makes this reader lapse, and it has the
same result as the reader that does without such look-ups.
-/

set_option autoImplicit false

namespace AsnLayout

inductive Lapse where
  | brace (error : Text.MatchError)
  | group
  | word
  | member
  | header
  deriving DecidableEq, Repr

inductive Failure where
  | fault (fault : Fault)
  | lapse (lapse : Lapse)
  deriving DecidableEq, Repr

abbrev Checked := Except Failure

abbrev CheckedReading := ExceptT Failure (StateM Reader)

namespace Checked

variable {α β : Type}

def ofResult : Except Fault α → Checked α := Except.mapError .fault

def ofReading : Reading α → CheckedReading α := ExceptT.adapt .fault

/-! ## Look-ups -/

def firstWord (t : Text) : Checked Text :=
  match Text.words t with
  | [] => .error (.lapse .word)
  | word :: _ => .ok word

def closerOf (t : Text) (index : Nat) : Checked (Option Nat) :=
  (Text.closerOf t index).mapError fun error => .lapse (.brace error)

def innermost : List OpenGroup → Checked (OpenGroup × List OpenGroup)
  | [] => .error (.lapse .group)
  | top :: below => .ok (top, below)

/-! ## Bodies -/

inductive Progress where
  | more (stack : List OpenGroup)
  | closed (node : Node)
  deriving Repr

/-- Ends the member whose text has been read; a new member is named by its first word. -/
def endMember (group : OpenGroup) (number : Nat) : Checked OpenGroup :=
  let text := Text.memberForm group.text
  if group.pending || text = [] then .ok (group.endMember number)
  else (firstWord text).map fun _ => group.endMember number

def close (group : OpenGroup) (number : Nat) : Checked OpenGroup :=
  if group.structured then endMember group number else .ok (group.keepLine none number)

/-- Opens the inner group whose header has been read; it is named by the first word of that. -/
def enterGroup (body : Body) (limit : Int) (number : Nat) : Checked Body :=
  let header := Text.neat body.top.text
  if body.top.pending || header = [] then ofResult (body.enterGroup limit number)
  else firstWord header >>= fun _ => ofResult (body.enterGroup limit number)

def readCode (limit : Int) (comment : Option Text) (number : Nat) (line : Text) (index : Nat)
    (q : Quoting) (body : Body) : Text → Checked Progress
  | [] =>
    let ended := body.endLine comment number
    .ok (.more (ended.top :: ended.below))
  | c :: rest => do
    let top := body.top
    if !q.exposes c then
      readCode limit comment number line (index + 1) (q.next c) { body with top := top.take c } rest
    else if c = '}' ∧ top.brackets = 0 then
      let closed ← close top number
      if body.below = [] then
        return .closed (← ofResult (Body.closeDefinition closed.node rest comment number))
      else
        let (outer, below) ← innermost body.below
        let body := { top := outer.adopt closed.node, below, anchor := .member }
        readCode limit comment number line (index + 1) (q.next c) body rest
    else if c = '{' ∧ top.brackets = 0 ∧ top.structured then
      match ← closerOf line index with
      | none =>
        let body ← enterGroup body limit number
        readCode limit comment number line (index + 1) (q.next c) body rest
      | some _ =>
        let body := { body with top := top.takeCode c }
        readCode limit comment number line (index + 1) (q.next c) body rest
    else if c = ',' ∧ top.brackets = 0 ∧ top.structured then
      let ended ← endMember top number
      let anchor := if top.endsMember then .member else body.anchor
      readCode limit comment number line (index + 1) (q.next c) { body with top := ended, anchor }
        rest
    else
      let body := { body with top := top.takeCode c }
      readCode limit comment number line (index + 1) (q.next c) body rest

def readLine (stack : List OpenGroup) (limit : Int) (line : CodeLine) (number : Nat) :
    Checked Progress := do
  let (top, below) ← innermost stack
  let body : Body := { top, below }
  readCode limit line.comment number line.code 0 {} body.startLine line.code

def readComment (stack : List OpenGroup) (line : Text) (blockLine : Bool) (number : Nat) :
    Checked (List OpenGroup) := do
  let (top, below) ← innermost stack
  let body : Body := { top, below }
  let read := body.readComment line blockLine number
  return read.top :: read.below

def start (node : Node) (limit : Int) (first : Text) : Checked Progress :=
  if limit ≤ 0 then .error (.fault ⟨.tooDeep limit, some node.line⟩)
  else if Text.isBlankText first then .ok (.more [{ node }])
  else
    let top : OpenGroup := { node := { node with openingComment := none } }
    readCode limit node.openingComment node.line first 0 {} { top, anchor := .opening } first

/-! ## Definitions -/

def shapeOf (code : Text) : Checked Reader.TypeShape :=
  match Text.findExposed? code (· = '{') with
  | none => .ok .plain
  | some brace => do
    let header := Text.neat (code.take brace)
    match ← closerOf code brace with
    | none => return .opened header (code.drop (brace + 1))
    | some close =>
      if 0 < Text.braceBalance code then return .unbalanced
      else if Text.braceBalance code < 0 || !(GroupKind.ofHeader header).isStructured then
        return .plain
      else return .inline header ((code.take close).drop (brace + 1)) (code.drop (close + 1))

def readBody (limits : Limits) (definition : Node) (stack : List OpenGroup) (number : Nat) :
    List Text → CheckedReading (Node × Nat)
  | [] => throw (.fault ⟨.unmatchedBrace definition.name, some definition.line⟩)
  | line :: rest => do
    ofReading (Reader.countLine limits number)
    let inBlock := (← get).inBlock
    modify (·.pass line)
    match LineKind.ofLine inBlock line with
    | .comment =>
      let stack ← readComment stack line inBlock number
      let (node, count) ← readBody limits definition stack (number + 1) rest
      return (node, count + 1)
    | .moduleHeader | .blockEnd | .typeDefinition =>
      throw (.fault ⟨.unterminated definition.name definition.line, some number⟩)
    | _ =>
      if Text.isBlankText line then
        let (node, count) ← readBody limits definition stack (number + 1) rest
        return (node, count + 1)
      else
        match ← readLine stack limits.depth (Text.codeLine (Text.trim line)) number with
        | .closed node => return (node, 1)
        | .more stack =>
          let (node, count) ← readBody limits definition stack (number + 1) rest
          return (node, count + 1)

def readGroup (limits : Limits) (number : Nat) (rest : List Text) (node : Node)
    (type : Reader.TypeText) : CheckedReading (Node × Nat) := do
  match ← shapeOf type.code with
  | .plain => return (Reader.plainNode node type, type.count)
  | .opened header first =>
    match ← start (Reader.openedNode node type header) limits.depth first with
    | .closed node => return (node, type.count)
    | .more stack =>
      let (node, count) ← readBody limits (Reader.openedNode node type header) stack
        (number + 1 + type.count) (rest.drop type.count)
      return (node, type.count + count)
  | .inline header inside trailer =>
    return (Reader.inlineNode node type header inside trailer, type.count)
  | .unbalanced => throw (.fault ⟨.unbalancedType node.name, some number⟩)

def readDefinition (limits : Limits) (number : Nat) (line : Text) (rest : List Text) :
    CheckedReading (Node × Nat) :=
  if Reader.definitionName line = [] then throw (.fault ⟨.unnamedDefinition, some number⟩)
  else do
    let type ← ofReading (Reader.readType limits number (Reader.firstType line) rest)
    let node := Reader.definitionNode (← get) number line type
    readGroup limits number rest node type

/-! ## Items -/

/-- Reads the item that starts on a line; the header of a module is named by its first word. -/
def readItem (limits : Limits) (number : Nat) (line : Text) (rest : List Text) :
    CheckedReading (Node × Nat) := do
  ofReading (Reader.countLine limits number)
  let reader ← get
  if LineKind.ofLine reader.inBlock line = .typeDefinition then
    set (reader.pass line)
    readDefinition limits number line rest
  else
    if LineKind.ofLine reader.inBlock line = .moduleHeader then discard (firstWord line)
    let (node, later) := reader.lineItem number line
    set later
    return (node, 0)

def readItems (limits : Limits) (number skip : Nat) : List Text → CheckedReading (List Node)
  | [] => return []
  | line :: rest =>
    match skip with
    | skip + 1 => readItems limits (number + 1) skip rest
    | 0 => do
      let (node, count) ← readItem limits number line rest
      let setAside ← ofReading Reader.takeSetAside
      let later ← readItems limits (number + 1) count rest
      return setAside ++ node :: later

def ofText (text : Text) (options : Options) : Checked Node :=
  let lines := Text.lines text
  let limits := Limits.ofOptions options lines.length
  ((do
    let children ← readItems limits 1 0 lines
    return { kind := .root, name := "root".toList, children } :
      CheckedReading Node).run.run {}).1

/-! ## Look-ups that succeed -/

end Checked

namespace Text

theorem words_ne_nil {t : Text} (seen : isBlankText t = false) : words t ≠ [] := by
  induction t with
  | nil => cases seen
  | cons c rest ih =>
    cases blank : isBlank c with
    | true =>
      have later : isBlankText rest = false := by simpa [isBlankText, blank] using seen
      exact fun none => ih later ((words_append_blank blank [] rest).symm.trans none)
    | false =>
      obtain ⟨first, later, cut⟩ := List.exists_cons_of_ne_nil (List.splitOnP_ne_nil isBlank rest)
      rw [words, List.splitOnP_cons_eq_if_modifyHead, if_neg (by simp [blank]), cut]
      simp

theorem isBlankText_trim_of_ne_nil {t : Text} (filled : trim t ≠ []) :
    isBlankText (trim t) = false := by
  by_contra blank
  refine filled ?_
  rw [← trim_trim, trim_of_blank (by simpa using blank)]

theorem isBlankText_memberForm {t : Text} (filled : memberForm t ≠ []) :
    isBlankText (memberForm t) = false := by
  have last := List.rdropWhile_last_not (fun c => c = ',' || isBlank c) (neat t) filled
  rw [Bool.eq_false_iff]
  intro blank
  have isBlank := List.all_eq_true.mp blank _ (List.getLast_mem filled)
  exact last (Bool.or_eq_true_iff.mpr (.inr isBlank))

theorem isBlankText_of_moduleHeader {inBlock : Bool} {line : Text}
    (header : LineKind.ofLine inBlock line = .moduleHeader) : isBlankText line = false := by
  by_contra blank
  have none : trim line = [] := trim_of_blank (by simpa using blank)
  unfold LineKind.ofLine at header
  rw [none] at header
  split at header
  · cases header
  · revert header
    decide

theorem drop_take_close (t : Text) (brace close : Nat) :
    (t.take (close + (brace + 1))).drop (brace + 1) = (t.drop (brace + 1)).take close := by
  rw [List.drop_take, Nat.add_sub_cancel]

theorem drop_behind_close (t : Text) (brace close : Nat) :
    t.drop (close + (brace + 1) + 1) = (t.drop (brace + 1)).drop (close + 1) := by
  rw [List.drop_drop]
  congr 1
  omega

end Text

namespace Checked

variable {α β : Type}

@[simp]
theorem ofResult_ok (a : α) : ofResult (.ok a) = .ok a := rfl

@[simp]
theorem ofResult_error (fault : Fault) :
    ofResult (.error fault : Except Fault α) = .error (.fault fault) := rfl

theorem ok_bind (a : α) (next : α → Checked β) : (.ok a : Checked α) >>= next = next a := rfl

theorem ofResult_bind (first : Except Fault α) (next : α → Except Fault β) :
    ofResult (first >>= next) = ofResult first >>= fun a => ofResult (next a) := by
  cases first <;> rfl

theorem firstWord_of_seen {t : Text} (seen : Text.isBlankText t = false) :
    firstWord t = .ok (Text.firstWord t) := by
  obtain ⟨word, others, found⟩ := List.exists_cons_of_ne_nil (Text.words_ne_nil seen)
  rw [firstWord, Text.firstWord, found]
  rfl

theorem closerOf_brace (front rest : Text) :
    closerOf (front ++ '{' :: rest) front.length =
      .ok ((Text.groupEnd? rest).map (· + (front.length + 1))) := by
  simp [closerOf, Text.closerOf, Except.mapError]

/-- A brace that was found by a scan of the text can be looked up in it. -/
theorem closerOf_found {text : Text} {brace : Nat}
    (found : Text.findExposed? text (· = '{') = some brace) :
    closerOf text brace =
      .ok ((Text.groupEnd? (text.drop (brace + 1))).map (· + (brace + 1))) := by
  obtain ⟨front, c, back, rfl, rfl, isBrace⟩ := Text.findExposed?_eq_some text _ brace found
  rw [decide_eq_true_eq] at isBrace
  subst isBrace
  have inside : (front ++ '{' :: back).drop (front.length + 1) = back := by simp
  rw [closerOf_brace, inside]

theorem endMember_eq (group : OpenGroup) (number : Nat) :
    endMember group number = .ok (group.endMember number) := by
  unfold endMember
  simp only
  split
  · rfl
  · rename_i named
    have filled : Text.memberForm group.text ≠ [] := by
      simp only [Bool.or_eq_true, decide_eq_true_eq, not_or] at named
      exact named.2
    rw [firstWord_of_seen (Text.isBlankText_memberForm filled)]
    rfl

theorem close_eq (group : OpenGroup) (number : Nat) :
    close group number = .ok (group.close number) := by
  rw [close, OpenGroup.close, endMember_eq]
  split <;> rfl

theorem enterGroup_eq (body : Body) (limit : Int) (number : Nat) :
    enterGroup body limit number = ofResult (body.enterGroup limit number) := by
  unfold enterGroup
  simp only
  split
  · rfl
  · rename_i named
    have filled : Text.neat body.top.text ≠ [] := by
      simp only [Bool.or_eq_true, decide_eq_true_eq, not_or] at named
      exact named.2
    have word : firstWord (Text.neat body.top.text) = _ :=
      firstWord_of_seen (Text.isBlankText_trim_of_ne_nil filled)
    rw [word]
    rfl

def ofProgress : Body.Progress → Progress
  | .more body => .more (body.top :: body.below)
  | .closed node => .closed node

theorem readCode_eq (limit : Int) (comment : Option Text) (number : Nat) (front : Text)
    (q : Quoting) (body : Body) (rest : Text) :
    readCode limit comment number (front ++ rest) front.length q body rest =
      (ofResult (Body.readCode limit comment number q body rest)).map ofProgress := by
  induction rest generalizing front q body with
  | nil => rfl
  | cons c rest ih =>
    have next := ih (front ++ [c])
    rw [List.append_assoc, List.length_append, List.singleton_append, List.length_singleton] at next
    rw [readCode, Body.readCode]
    simp only [next]
    split
    · rfl
    · split
      · rw [close_eq, ok_bind]
        cases below : body.below with
        | nil =>
          rw [if_pos rfl]
          cases Body.closeDefinition (body.top.close number).node rest comment number <;> rfl
        | cons outer below =>
          rw [if_neg (by simp)]
          rfl
      · split
        · rename_i opens
          obtain ⟨rfl, outside, structured⟩ := opens
          rw [closerOf_brace, ok_bind]
          cases found : Text.groupEnd? rest with
          | none =>
            rw [if_pos ⟨rfl, outside, structured, rfl⟩, enterGroup_eq]
            cases body.enterGroup limit number <;> rfl
          | some close =>
            have noComma : ¬('{' = ',' ∧ body.top.brackets = 0 ∧ body.top.structured = true) :=
              fun comma => absurd comma.1 (by decide)
            rw [if_neg (by simp), if_neg noComma]
            rfl
        · rename_i other
          have stays : ¬(c = '{' ∧ body.top.brackets = 0 ∧ body.top.structured = true ∧
              Text.groupEnd? rest = none) :=
            fun opens => other ⟨opens.1, opens.2.1, opens.2.2.1⟩
          rw [if_neg stays]
          split
          · rw [endMember_eq, ok_bind]
            rfl
          · rfl

theorem readLine_eq (body : Body) (limit : Int) (line : CodeLine) (number : Nat) :
    readLine (body.top :: body.below) limit line number =
      (ofResult (body.readLine limit line number)).map ofProgress :=
  readCode_eq limit line.comment number [] {} body.startLine line.code

theorem readComment_eq (body : Body) (line : Text) (blockLine : Bool) (number : Nat) :
    readComment (body.top :: body.below) line blockLine number =
      .ok ((body.readComment line blockLine number).top ::
        (body.readComment line blockLine number).below) := by
  simp only [readComment, innermost, ok_bind, Body.readComment]
  split <;> rfl

theorem start_eq (node : Node) (limit : Int) (first : Text) :
    start node limit first = (ofResult (Body.start node limit first)).map ofProgress := by
  unfold start Body.start
  split
  · rfl
  · split
    · rfl
    · exact readCode_eq limit _ _ [] {} _ first

theorem shapeOf_eq (code : Text) : shapeOf code = .ok (Reader.shapeOf code) := by
  unfold shapeOf Reader.shapeOf
  cases found : Text.findExposed? code (· = '{') with
  | none => rfl
  | some brace =>
    simp only [closerOf_found found, ok_bind]
    cases Text.groupEnd? (code.drop (brace + 1)) with
    | none => rfl
    | some close =>
      simp only [Option.map_some, Text.drop_take_close, Text.drop_behind_close]
      split
      · rfl
      · split <;> rfl

/-! ## Runs of the reader -/

theorem ofReading_bind (first : Reading α) (next : α → Reading β) :
    ofReading (first >>= next) = ofReading first >>= fun a => ofReading (next a) := by
  funext reader
  delta ofReading ExceptT.adapt
  simp only [bind, ExceptT.bind, ExceptT.mk, StateT.bind, ExceptT.bindCont, Functor.map, StateT.map]
  rcases first reader with ⟨fault | a, later⟩
  · rfl
  · rfl

theorem ofReading_get : ofReading get = get := rfl

theorem ofReading_set (reader : Reader) : ofReading (set reader) = set reader := rfl

theorem ofReading_modify (change : Reader → Reader) :
    ofReading (modify change) = modify change := rfl

theorem ofReading_lift (result : Except Fault α) :
    ofReading (liftM result) = (liftM (ofResult result) : CheckedReading α) := by
  cases result <;> rfl

theorem readBody_eq (limits : Limits) (definition : Node) (body : Body) (number : Nat)
    (lines : List Text) :
    readBody limits definition (body.top :: body.below) number lines =
      ofReading (Reader.readBody limits definition body number lines) := by
  induction lines generalizing body number with
  | nil => rfl
  | cons line rest ih =>
    rw [readBody, Reader.readBody]
    simp only [ofReading_bind, ofReading_get, ofReading_modify]
    refine bind_congr fun _ => bind_congr fun reader => bind_congr fun _ => ?_
    have goOn : ∀ body : Body,
        (readBody limits definition (body.top :: body.below) (number + 1) rest >>=
          fun read => pure (read.1, read.2 + 1)) =
        ofReading (Reader.readBody limits definition body (number + 1) rest >>=
          fun read => pure (read.1, read.2 + 1)) := by
      intro body
      rw [ih, ofReading_bind]
      rfl
    generalize LineKind.ofLine reader.inBlock line = kind
    cases kind with
    | comment =>
      rw [readComment_eq]
      exact goOn (body.readComment line reader.inBlock number)
    | moduleHeader | blockEnd | typeDefinition => rfl
    | blockBegin | field | other =>
      simp only
      split
      · exact goOn body
      · rw [readLine_eq]
        cases body.readLine limits.depth (Text.codeLine (Text.trim line)) number with
        | error fault => rfl
        | ok progress =>
          cases progress with
          | more body => exact goOn body
          | closed node => rfl

theorem readGroup_eq (limits : Limits) (number : Nat) (rest : List Text) (node : Node)
    (type : Reader.TypeText) :
    readGroup limits number rest node type =
      ofReading (Reader.readGroup limits number rest node type) := by
  rw [readGroup, shapeOf_eq, Reader.readGroup]
  cases Reader.shapeOf type.code with
  | plain | inline | unbalanced => rfl
  | opened header first =>
    show (liftM (start _ _ _) >>= fun progress => _ : CheckedReading (Node × Nat)) = _
    rw [start_eq]
    simp only [ofReading_bind, ofReading_lift]
    cases Body.start (Reader.openedNode node type header) limits.depth first with
    | error fault => rfl
    | ok progress =>
      cases progress with
      | closed node => rfl
      | more body =>
        show readBody _ _ (body.top :: body.below) _ _ >>= _ = ofReading (_ >>= _)
        rw [readBody_eq, ofReading_bind]
        rfl

theorem readDefinition_eq (limits : Limits) (number : Nat) (line : Text) (rest : List Text) :
    readDefinition limits number line rest =
      ofReading (Reader.readDefinition limits number line rest) := by
  unfold readDefinition Reader.readDefinition
  split
  · rfl
  · simp only [ofReading_bind, ofReading_get, readGroup_eq]

theorem readItem_eq (limits : Limits) (number : Nat) (line : Text) (rest : List Text) :
    readItem limits number line rest = ofReading (Reader.readItem limits number line rest) := by
  unfold readItem Reader.readItem
  simp only [ofReading_bind, ofReading_get]
  refine bind_congr fun _ => bind_congr fun reader => ?_
  split
  · simp only [ofReading_bind, ofReading_set, readDefinition_eq]
  · split
    · rename_i header
      rw [firstWord_of_seen (Text.isBlankText_of_moduleHeader header)]
      rfl
    · rfl

theorem readItems_eq (limits : Limits) (number skip : Nat) (lines : List Text) :
    readItems limits number skip lines =
      ofReading (Reader.readItems limits number skip lines) := by
  induction lines generalizing number skip with
  | nil => rfl
  | cons line rest ih =>
    cases skip with
    | succ skip => exact ih (number + 1) skip
    | zero =>
      rw [readItems, Reader.readItems]
      simp only [ofReading_bind, readItem_eq, ih]
      rfl

/-- No schema makes the checked reader lapse, and it reads the same tree. -/
theorem ofText_eq (text : Text) (options : Options) :
    ofText text options = ofResult (Node.ofText text options) := by
  have run : ∀ limits lines, (readItems limits 1 0 lines >>= fun children =>
      pure { kind := .root, name := "root".toList, children } : CheckedReading Node) =
        ofReading (Reader.readAll limits lines) := by
    intro limits lines
    rw [Reader.readAll, ofReading_bind, readItems_eq]
    rfl
  unfold ofText Node.ofText
  simp only [run]
  rfl

end Checked

end AsnLayout
