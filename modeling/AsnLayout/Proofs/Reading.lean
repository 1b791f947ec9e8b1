import AsnLayout.Tree.Reader

/-!
# Runs of the reader

What a reader that succeeds has done, line by line.  A body, a type that goes on over lines and the
items of a schema each have a relation with one constructor for each way to take the next line; the
reader succeeds with a result exactly if the relation holds of it.
-/

set_option autoImplicit false

namespace AsnLayout

/-! ## Steps that succeed -/

namespace Reading

/-- A step succeeds with a result, and leaves the reader in the state `after`. -/
def Yields {α : Type} (step : Reading α) (before : Reader) (result : α) (after : Reader) : Prop :=
  step.run.run before = (.ok result, after)

@[simp]
theorem yields_pure {α : Type} (a result : α) (before after : Reader) :
    Yields (pure a) before result after ↔ a = result ∧ before = after := by
  constructor
  · intro success
    cases success
    exact ⟨rfl, rfl⟩
  · rintro ⟨rfl, rfl⟩
    rfl

@[simp]
theorem yields_bind {α β : Type} (step : Reading α) (next : α → Reading β) (before after : Reader)
    (result : β) :
    Yields (step >>= next) before result after ↔
      ∃ a between, Yields step before a between ∧ Yields (next a) between result after := by
  unfold Yields
  rw [ExceptT.run_bind, StateT.run_bind]
  cases first : step.run.run before with
  | mk outcome between =>
    cases outcome with
    | error fault =>
      constructor
      · intro success
        cases success
      · rintro ⟨a, later, success, _⟩
        cases success
    | ok a =>
      constructor
      · intro success
        exact ⟨a, between, rfl, success⟩
      · rintro ⟨a, later, success, rest⟩
        cases success
        exact rest

@[simp]
theorem yields_get (before result after : Reader) :
    Yields get before result after ↔ before = result ∧ before = after := by
  constructor
  · intro success
    cases success
    exact ⟨rfl, rfl⟩
  · rintro ⟨rfl, rfl⟩
    rfl

@[simp]
theorem yields_modify (change : Reader → Reader) (before after : Reader) (result : PUnit) :
    Yields (modify change) before result after ↔ change before = after := by
  constructor
  · intro success
    cases success
    rfl
  · rintro rfl
    rfl

@[simp]
theorem yields_set (state before after : Reader) (result : PUnit) :
    Yields (set state) before result after ↔ state = after := by
  constructor
  · intro success
    cases success
    rfl
  · rintro rfl
    rfl

@[simp]
theorem yields_throw {α : Type} (fault : Fault) (before after : Reader) (result : α) :
    Yields (throw fault) before result after ↔ False := by
  constructor
  · intro success
    cases success
  · exact False.elim

@[simp]
theorem yields_lift {α : Type} (x : Except Fault α) (before after : Reader) (result : α) :
    Yields (liftM x) before result after ↔ x = .ok result ∧ before = after := by
  constructor
  · intro success
    cases success
    exact ⟨rfl, rfl⟩
  · rintro ⟨rfl, rfl⟩
    rfl

end Reading

/-! ## The code of a line -/

namespace Body

inductive Step (limit : Int) (number : Nat) (q : Quoting) : Body → Char → Text → Body → Prop where
  | hidden {body : Body} {c : Char} {rest : Text} (covered : q.exposes c = false) :
      Step limit number q body c rest { body with top := body.top.take c }
  | leave {top outer : OpenGroup} {below : List OpenGroup} {anchor : Anchor} {rest : Text}
      (code : q.exposes '}' = true) (settled : top.brackets = 0) :
      Step limit number q { top, below := outer :: below, anchor } '}' rest
        { top := outer.adopt (top.close number).node, below, anchor := .member }
  | enter {body next : Body} {rest : Text} (code : q.exposes '{' = true)
      (settled : body.top.brackets = 0) (structured : body.top.structured = true)
      (leftOpen : Text.groupEnd? rest = none) (entered : body.enterGroup limit number = .ok next) :
      Step limit number q body '{' rest next
  | comma {body : Body} {rest : Text} (code : q.exposes ',' = true)
      (settled : body.top.brackets = 0) (structured : body.top.structured = true) :
      Step limit number q body ',' rest (body.endMember number)
  | keep {body : Body} {c : Char} {rest : Text} (code : q.exposes c = true)
      (noClose : ¬(c = '}' ∧ body.top.brackets = 0))
      (noGroup : ¬(c = '{' ∧ body.top.brackets = 0 ∧ body.top.structured ∧
        Text.groupEnd? rest = none))
      (noComma : ¬(c = ',' ∧ body.top.brackets = 0 ∧ body.top.structured)) :
      Step limit number q body c rest { body with top := body.top.takeCode c }

/-- The code of a line is taken in step by step, up to its end or to the end of the definition. -/
inductive LineRun (limit : Int) (comment : Option Text) (number : Nat) :
    Quoting → Body → Text → Progress → Prop where
  | finish {q : Quoting} {body : Body} :
      LineRun limit comment number q body [] (.more (body.endLine comment number))
  | close {q : Quoting} {top : OpenGroup} {anchor : Anchor} {rest : Text} {node : Node}
      (code : q.exposes '}' = true) (settled : top.brackets = 0)
      (closed : closeDefinition (top.close number).node rest comment number = .ok node) :
      LineRun limit comment number q { top, below := [], anchor } ('}' :: rest) (.closed node)
  | step {q : Quoting} {body next : Body} {c : Char} {rest : Text} {progress : Progress}
      (taken : Step limit number q body c rest next)
      (later : LineRun limit comment number (q.next c) next rest progress) :
      LineRun limit comment number q body (c :: rest) progress

theorem enterGroup_eq_ok {body next : Body} {limit : Int} {number : Nat} :
    body.enterGroup limit number = .ok next ↔
      body.top.pending = false ∧ (body.below.length + 1 : Int) < limit ∧
        { top := { node := body.top.groupNode number }
          below := body.top.withoutHeader :: body.below
          anchor := .opening } = next := by
  unfold enterGroup
  cases body.top.pending with
  | true => simp
  | false => by_cases room : limit ≤ body.below.length + 1 <;> simp [room, ← Int.not_le]

theorem closeDefinition_eq_ok {node closed : Node} {rest : Text} {comment : Option Text}
    {number : Nat} : closeDefinition node rest comment number = .ok closed ↔
      Text.braceBalance rest = 0 ∧
        { node with trailer := Text.neat rest, closingComment := comment } = closed := by
  unfold closeDefinition
  by_cases balanced : Text.braceBalance rest = 0 <;> simp [balanced]

theorem lineRun_of_readCode (limit : Int) (comment : Option Text) (number : Nat) (code : Text)
    (q : Quoting) (body : Body) (progress : Progress)
    (read : readCode limit comment number q body code = .ok progress) :
    LineRun limit comment number q body code progress := by
  induction code generalizing q body with
  | nil =>
    cases read
    exact .finish
  | cons c rest ih =>
    simp only [readCode] at read
    split at read
    · rename_i covered
      exact .step (.hidden (by simpa using covered)) (ih _ _ read)
    rename_i shown
    have shown : q.exposes c = true := by simpa using shown
    split at read
    · rename_i closes
      obtain ⟨rfl, settled⟩ := closes
      obtain ⟨top, below, anchor⟩ := body
      cases below with
      | nil =>
        cases closed : closeDefinition (top.close number).node rest comment number with
        | error fault => simp [closed, Except.map] at read
        | ok node =>
          simp only [closed, Except.map, Except.ok.injEq] at read
          rw [← read]
          exact .close shown settled closed
      | cons outer below => exact .step (.leave shown settled) (ih _ _ read)
    rename_i noClose
    split at read
    · rename_i opens
      obtain ⟨rfl, settled, structured, leftOpen⟩ := opens
      split at read
      · cases read
      · rename_i next entered
        exact .step (.enter shown settled structured leftOpen entered) (ih _ _ read)
    rename_i noGroup
    split at read
    · rename_i ends
      obtain ⟨rfl, settled, structured⟩ := ends
      exact .step (.comma shown settled structured) (ih _ _ read)
    · rename_i noComma
      exact .step (.keep shown noClose noGroup noComma) (ih _ _ read)

theorem lineRun_of_start {node : Node} {limit : Int} {first : Text} {progress : Progress}
    (started : start node limit first = .ok progress) :
    (Text.isBlankText first = true ∧ .more { top := { node } } = progress) ∨
      LineRun limit node.openingComment node.line {}
        { top := { node := { node with openingComment := none } }, anchor := .opening } first
        progress := by
  unfold start at started
  split at started
  · cases started
  split at started
  · rename_i blank
    exact .inl ⟨blank, Except.ok.inj started⟩
  · exact .inr (lineRun_of_readCode _ _ _ _ _ _ _ started)

end Body

namespace Reader

open Reading

def counted (reader : Reader) : Reader := { reader with linesRead := reader.linesRead + 1 }

def MayRead (limits : Limits) (reader : Reader) : Prop := (reader.linesRead + 1 : Int) ≤ limits.lines

@[simp]
theorem yields_countLine (limits : Limits) (number : Nat) (before after : Reader) (result : Unit) :
    Yields (countLine limits number) before result after ↔
      MayRead limits before ∧ before.counted = after := by
  simp only [countLine, yields_bind, yields_modify, yields_get, MayRead]
  constructor
  · rintro ⟨_, _, rfl, _, _, ⟨rfl, rfl⟩, rest⟩
    split at rest
    · exact absurd rest (by simp)
    · rename_i few
      simp only [yields_pure] at rest
      refine ⟨?_, rest.2⟩
      simp only [] at few
      omega
  · rintro ⟨few, rfl⟩
    refine ⟨(), _, rfl, _, _, ⟨rfl, rfl⟩, ?_⟩
    rw [if_neg]
    · simp [counted]
    · simp only []
      omega

/-! ## The next line of code -/

def isRemark (inBlock : Bool) (line : Text) : Bool :=
  inBlock || Text.isLineComment line || Text.startsBlock line

/-- The next line of code is reached over blank lines and comments, which are put aside. -/
inductive CodeRun (limits : Limits) :
    Reader → Nat → List Text → CodeLine → Nat → Reader → Prop where
  | comment {reader : Reader} {number : Nat} {line : Text} {rest : List Text} {code : CodeLine}
      {count : Nat} {after : Reader} (room : MayRead limits reader)
      (isComment : isRemark reader.inBlock line = true)
      (later : CodeRun limits ((reader.counted.putAside line number).pass line) (number + 1) rest
        code count after) :
      CodeRun limits reader number (line :: rest) code (count + 1) after
  | blank {reader : Reader} {number : Nat} {line : Text} {rest : List Text} {code : CodeLine}
      {count : Nat} {after : Reader} (room : MayRead limits reader)
      (noComment : isRemark reader.inBlock line = false) (isBlank : Text.isBlankText line = true)
      (later : CodeRun limits reader.counted (number + 1) rest code count after) :
      CodeRun limits reader number (line :: rest) code (count + 1) after
  | code {reader : Reader} {number : Nat} {line : Text} {rest : List Text}
      (room : MayRead limits reader) (noComment : isRemark reader.inBlock line = false)
      (noBlank : Text.isBlankText line = false)
      (noSign : Text.contains line Text.assignmentSign = false) :
      CodeRun limits reader number (line :: rest) (Text.codeLine (Text.trim line)) 1 reader.counted

theorem yields_readNextCode (limits : Limits) (definition number : Nat) (lines : List Text)
    (before after : Reader) (code : CodeLine) (count : Nat) :
    Yields (readNextCode limits definition number lines) before (code, count) after ↔
      CodeRun limits before number lines code count after := by
  induction lines generalizing number before count with
  | nil =>
    simp only [readNextCode, yields_throw, false_iff]
    intro run
    cases run
  | cons line rest ih =>
    simp only [readNextCode, yields_bind, yields_get]
    constructor
    · rintro ⟨_, _, ⟨rfl, rfl⟩, success⟩
      split at success
      · rename_i isComment
        simp only [yields_bind, yields_countLine, yields_modify, yields_pure] at success
        obtain ⟨_, _, ⟨room, rfl⟩, _, _, rfl, ⟨code', count'⟩, _, later, same, rfl⟩ := success
        cases same
        exact .comment room isComment ((ih _ _ _).mp later)
      · rename_i noComment
        have noComment : isRemark before.inBlock line = false := Bool.eq_false_iff.mpr noComment
        split at success
        · rename_i isBlank
          simp only [yields_bind, yields_countLine, yields_pure] at success
          obtain ⟨_, _, ⟨room, rfl⟩, ⟨code', count'⟩, _, later, same, rfl⟩ := success
          cases same
          exact .blank room noComment isBlank ((ih _ _ _).mp later)
        · rename_i noBlank
          split at success
          · exact absurd success (by simp)
          · rename_i noSign
            simp only [yields_bind, yields_countLine, yields_pure] at success
            obtain ⟨_, _, ⟨room, rfl⟩, same, rfl⟩ := success
            cases same
            exact .code room noComment (by simpa using noBlank) (by simpa using noSign)
    · intro run
      refine ⟨before, before, ⟨rfl, rfl⟩, ?_⟩
      cases run with
      | comment room isComment later =>
        rw [isRemark] at isComment
        rw [if_pos isComment]
        simp only [yields_bind, yields_countLine, yields_modify, yields_pure]
        exact ⟨(), _, ⟨room, rfl⟩, (), _, rfl, (code, _), _, (ih _ _ _).mpr later, rfl, rfl⟩
      | blank room noComment isBlank later =>
        rw [isRemark] at noComment
        rw [if_neg (by simp [noComment]), if_pos isBlank]
        simp only [yields_bind, yields_countLine, yields_pure]
        exact ⟨(), _, ⟨room, rfl⟩, (code, _), _, (ih _ _ _).mpr later, rfl, rfl⟩
      | code room noComment noBlank noSign =>
        rw [isRemark] at noComment
        rw [if_neg (by simp [noComment]), if_neg (by simp [noBlank]), if_neg (by simp [noSign])]
        simp only [yields_bind, yields_countLine, yields_pure]
        exact ⟨(), _, ⟨room, rfl⟩, trivial, rfl⟩

/-! ## Types -/

def TypeText.extend (type : TypeText) (line : CodeLine) (count : Nat) : TypeText where
  code := if type.code = [] then line.code else type.code ++ ' ' :: line.code
  comment := bothComments type.comment line.comment
  count := type.count + count

theorem yields_continueType (limits : Limits) (definition : Nat) (type result : TypeText)
    (rest : List Text) (before after : Reader) :
    Yields (continueType limits definition type rest) before result after ↔
      ∃ line count, CodeRun limits before (definition + 1 + type.count) (rest.drop type.count)
        line count after ∧ type.extend line count = result := by
  simp only [continueType, yields_bind, yields_pure]
  constructor
  · rintro ⟨⟨line, count⟩, _, success, same, rfl⟩
    exact ⟨line, count, (yields_readNextCode ..).mp success, same⟩
  · rintro ⟨line, count, run, same⟩
    exact ⟨(line, count), after, (yields_readNextCode ..).mpr run, same, rfl⟩

/-- Reading a type takes two steps: to its first line of code, and to its opening brace. -/
theorem yields_readType (limits : Limits) (definition : Nat) (type result : TypeText)
    (rest : List Text) (before after : Reader) :
    Yields (readType limits definition type rest) before result after ↔
      ∃ first between,
        (if type.code = [] then
          ∃ line count, CodeRun limits before (definition + 1 + type.count)
            (rest.drop type.count) line count between ∧ type.extend line count = first
        else first = type ∧ between = before) ∧
        (if !hasBrace first.code && bracesNext (rest.drop first.count) then
          ∃ line count, CodeRun limits between (definition + 1 + first.count)
            (rest.drop first.count) line count after ∧ first.extend line count = result
        else result = first ∧ after = between) := by
  have second : ∀ (first : TypeText) (between : Reader),
      Yields (if (!hasBrace first.code && bracesNext (rest.drop first.count)) = true then
          continueType limits definition first rest else pure first) between result after ↔
        if (!hasBrace first.code && bracesNext (rest.drop first.count)) = true then
          ∃ line count, CodeRun limits between (definition + 1 + first.count)
            (rest.drop first.count) line count after ∧ first.extend line count = result
        else result = first ∧ after = between := by
    intro first between
    split
    · exact yields_continueType ..
    · simp only [yields_pure]
      constructor
      · rintro ⟨rfl, rfl⟩
        exact ⟨rfl, rfl⟩
      · rintro ⟨rfl, rfl⟩
        exact ⟨rfl, rfl⟩
  unfold readType
  by_cases empty : type.code = []
  · simp only [if_pos empty, yields_bind, yields_continueType, second]
  · simp only [if_neg empty, yields_bind, yields_pure, second]
    constructor
    · rintro ⟨first, between, ⟨rfl, rfl⟩, later⟩
      exact ⟨_, _, ⟨rfl, rfl⟩, later⟩
    · rintro ⟨first, between, ⟨rfl, rfl⟩, later⟩
      exact ⟨_, _, ⟨rfl, rfl⟩, later⟩

/-! ## Bodies -/

def mayStandInBody : LineKind → Bool
  | .blockBegin | .field | .other => true
  | _ => false

inductive BodyRun (limits : Limits) : Reader → Body → Nat → List Text → Node → Nat → Reader → Prop
  where
  | comment {reader : Reader} {body : Body} {number : Nat} {line : Text} {rest : List Text}
      {node : Node} {count : Nat} {after : Reader} (room : MayRead limits reader)
      (isComment : LineKind.ofLine reader.inBlock line = .comment)
      (later : BodyRun limits (reader.counted.pass line)
        (body.readComment line reader.inBlock number) (number + 1) rest node count after) :
      BodyRun limits reader body number (line :: rest) node (count + 1) after
  | blank {reader : Reader} {body : Body} {number : Nat} {line : Text} {rest : List Text}
      {node : Node} {count : Nat} {after : Reader} (room : MayRead limits reader)
      (kind : mayStandInBody (LineKind.ofLine reader.inBlock line) = true)
      (isBlank : Text.isBlankText line = true)
      (later : BodyRun limits (reader.counted.pass line) body (number + 1) rest node count after) :
      BodyRun limits reader body number (line :: rest) node (count + 1) after
  | code {reader : Reader} {body next : Body} {number : Nat} {line : Text} {rest : List Text}
      {node : Node} {count : Nat} {after : Reader} (room : MayRead limits reader)
      (kind : mayStandInBody (LineKind.ofLine reader.inBlock line) = true)
      (noBlank : Text.isBlankText line = false)
      (read : body.readLine limits.depth (Text.codeLine (Text.trim line)) number = .ok (.more next))
      (later : BodyRun limits (reader.counted.pass line) next (number + 1) rest node count after) :
      BodyRun limits reader body number (line :: rest) node (count + 1) after
  | close {reader : Reader} {body : Body} {number : Nat} {line : Text} {rest : List Text}
      {node : Node} (room : MayRead limits reader)
      (kind : mayStandInBody (LineKind.ofLine reader.inBlock line) = true)
      (noBlank : Text.isBlankText line = false)
      (read : body.readLine limits.depth (Text.codeLine (Text.trim line)) number =
        .ok (.closed node)) :
      BodyRun limits reader body number (line :: rest) node 1 (reader.counted.pass line)

private def lineStep (limits : Limits) (definition : Node) (body : Body) (number : Nat)
    (line : Text) (rest : List Text) : Reading (Node × Nat) := do
  if Text.isBlankText line then
    let (node, count) ← readBody limits definition body (number + 1) rest
    return (node, count + 1)
  else
    match ← body.readLine limits.depth (Text.codeLine (Text.trim line)) number with
    | .closed node => return (node, 1)
    | .more body =>
      let (node, count) ← readBody limits definition body (number + 1) rest
      return (node, count + 1)

private theorem yields_behind {read : Reading (Node × Nat)} {run : Nat → Prop} {reader after : Reader}
    {node : Node} (behind : ∀ count, Yields read reader (node, count) after ↔ run count)
    (count : Nat) :
    Yields (do
      let (node, count) ← read
      return (node, count + 1)) reader (node, count) after ↔
    ∃ count', run count' ∧ count' + 1 = count := by
  simp only [yields_bind, yields_pure]
  constructor
  · rintro ⟨⟨node', count'⟩, _, later, same, rfl⟩
    cases same
    exact ⟨count', (behind _).mp later, rfl⟩
  · rintro ⟨count', later, rfl⟩
    exact ⟨(node, count'), after, (behind _).mpr later, rfl, rfl⟩

section

variable {limits : Limits} {definition node : Node} {number : Nat} {rest : List Text}
  {after : Reader}
  (behind : ∀ (next : Body) (reader : Reader) (count : Nat),
    Yields (readBody limits definition next (number + 1) rest) reader (node, count) after ↔
      BodyRun limits reader next (number + 1) rest node count after)

include behind

private theorem yields_lineStep (body : Body) (line : Text) (reader : Reader) (count : Nat) :
    Yields (lineStep limits definition body number line rest) reader (node, count) after ↔
      if Text.isBlankText line then
        ∃ count', BodyRun limits reader body (number + 1) rest node count' after ∧
          count' + 1 = count
      else ∃ progress,
        body.readLine limits.depth (Text.codeLine (Text.trim line)) number = .ok progress ∧
        match progress with
        | .closed node' => node' = node ∧ 1 = count ∧ reader = after
        | .more next => ∃ count',
            BodyRun limits reader next (number + 1) rest node count' after ∧
              count' + 1 = count := by
  unfold lineStep
  split
  · exact yields_behind (behind body reader) count
  · rw [yields_bind]
    simp only [yields_lift]
    constructor
    · rintro ⟨progress, _, ⟨read, rfl⟩, later⟩
      refine ⟨progress, read, ?_⟩
      cases progress with
      | closed node' => simpa [and_assoc] using later
      | more next => exact (yields_behind (behind next _) count).mp later
    · rintro ⟨progress, read, later⟩
      refine ⟨progress, _, ⟨read, rfl⟩, ?_⟩
      cases progress with
      | closed node' => simpa [and_assoc] using later
      | more next => exact (yields_behind (behind next _) count).mpr later

private theorem bodyRun_of_lineStep {body : Body} {line : Text} {before : Reader} {count : Nat}
    (room : MayRead limits before)
    (kind : mayStandInBody (LineKind.ofLine before.inBlock line) = true)
    (stepped : Yields (lineStep limits definition body number line rest)
      (before.counted.pass line) (node, count) after) :
    BodyRun limits before body number (line :: rest) node count after := by
  rw [yields_lineStep behind] at stepped
  split at stepped
  · rename_i isBlank
    obtain ⟨count', later, rfl⟩ := stepped
    exact .blank room kind isBlank later
  · rename_i noBlank
    have noBlank := Bool.eq_false_iff.mpr noBlank
    obtain ⟨progress, read, later⟩ := stepped
    cases progress with
    | closed node' =>
      obtain ⟨rfl, rfl, rfl⟩ := later
      exact .close room kind noBlank read
    | more next =>
      obtain ⟨count', later, rfl⟩ := later
      exact .code room kind noBlank read later

/-- The first line of a run through a body is a comment, or a line of code that is stepped over. -/
private theorem lineStep_of_bodyRun {body : Body} {line : Text} {before : Reader} {count : Nat}
    (run : BodyRun limits before body number (line :: rest) node count after) :
    LineKind.ofLine before.inBlock line = .comment ∧
        (∃ count', BodyRun limits (before.counted.pass line)
          (body.readComment line before.inBlock number) (number + 1) rest node count' after ∧
          count' + 1 = count) ∨
      mayStandInBody (LineKind.ofLine before.inBlock line) = true ∧
        Yields (lineStep limits definition body number line rest) (before.counted.pass line)
          (node, count) after := by
  cases run with
  | comment _ isComment later => exact .inl ⟨isComment, _, later, rfl⟩
  | blank _ kind isBlank later =>
    refine .inr ⟨kind, (yields_lineStep behind ..).mpr ?_⟩
    rw [if_pos isBlank]
    exact ⟨_, later, rfl⟩
  | code _ kind noBlank read later =>
    refine .inr ⟨kind, (yields_lineStep behind ..).mpr ?_⟩
    rw [if_neg (by simp [noBlank])]
    exact ⟨_, read, _, later, rfl⟩
  | close _ kind noBlank read =>
    refine .inr ⟨kind, (yields_lineStep behind ..).mpr ?_⟩
    rw [if_neg (by simp [noBlank])]
    exact ⟨_, read, rfl, rfl, rfl⟩

end

theorem yields_readBody (limits : Limits) (definition : Node) (body : Body) (number : Nat)
    (lines : List Text) (before after : Reader) (node : Node) (count : Nat) :
    Yields (readBody limits definition body number lines) before (node, count) after ↔
      BodyRun limits before body number lines node count after := by
  induction lines generalizing body number before count with
  | nil =>
    simp only [readBody, yields_throw, false_iff]
    intro run
    cases run
  | cons line rest ih =>
    have behind := fun (next : Body) (reader : Reader) => ih next (number + 1) reader
    simp only [readBody, yields_bind, yields_countLine, yields_get, yields_modify]
    constructor
    · rintro ⟨_, _, ⟨room, rfl⟩, _, _, ⟨rfl, rfl⟩, _, _, rfl, success⟩
      split at success
      · rename_i isComment
        obtain ⟨count', later, rfl⟩ := (yields_behind (behind _ _) _).mp success
        exact .comment room isComment later
      · exact absurd success (by simp)
      · exact absurd success (by simp)
      · exact absurd success (by simp)
      · rename_i noComment noModule noEnd noDefinition
        refine bodyRun_of_lineStep behind room ?_ success
        cases kind : LineKind.ofLine before.inBlock line with
        | comment => exact absurd kind noComment
        | moduleHeader => exact absurd kind noModule
        | blockEnd => exact absurd kind noEnd
        | typeDefinition => exact absurd kind noDefinition
        | blockBegin => rfl
        | field => rfl
        | other => rfl
    · intro run
      have ready : MayRead limits before := by cases run <;> assumption
      refine ⟨(), _, ⟨ready, rfl⟩, _, _, ⟨rfl, rfl⟩, (), _, rfl, ?_⟩
      rw [show before.counted.inBlock = before.inBlock from rfl]
      rcases lineStep_of_bodyRun behind run with ⟨isComment, later⟩ | ⟨kind, stepped⟩
      · simp only [isComment]
        exact (yields_behind (behind _ _) _).mpr later
      · split <;> first | exact stepped | simp_all [mayStandInBody]

/-! ## Definitions -/

def GroupRun (limits : Limits) (number : Nat) (rest : List Text) (node : Node) (type : TypeText)
    (before : Reader) (result : Node) (count : Nat) (after : Reader) : Prop :=
  match shapeOf type.code with
  | .plain => plainNode node type = result ∧ type.count = count ∧ before = after
  | .opened header first => ∃ progress,
      Body.start (openedNode node type header) limits.depth first = .ok progress ∧
      match progress with
      | .closed closed => closed = result ∧ type.count = count ∧ before = after
      | .more body => ∃ later, BodyRun limits before body (number + 1 + type.count)
          (rest.drop type.count) result later after ∧ type.count + later = count
  | .inline header inside trailer =>
    inlineNode node type header inside trailer = result ∧ type.count = count ∧ before = after
  | .unbalanced => False

theorem yields_readGroup (limits : Limits) (number : Nat) (rest : List Text) (node : Node)
    (type : TypeText) (before after : Reader) (result : Node) (count : Nat) :
    Yields (readGroup limits number rest node type) before (result, count) after ↔
      GroupRun limits number rest node type before result count after := by
  unfold readGroup GroupRun
  cases shapeOf type.code with
  | plain => simp [and_assoc]
  | unbalanced => simp
  | inline header inside trailer => simp [and_assoc]
  | opened header first =>
    simp only [yields_bind, yields_lift]
    constructor
    · rintro ⟨progress, _, ⟨started, rfl⟩, later⟩
      refine ⟨progress, started, ?_⟩
      cases progress with
      | closed closed => simpa [and_assoc] using later
      | more body =>
        simp only [yields_bind, yields_pure] at later
        obtain ⟨⟨node', later⟩, _, run, same, rfl⟩ := later
        cases same
        exact ⟨later, (yields_readBody ..).mp run, rfl⟩
    · rintro ⟨progress, started, later⟩
      refine ⟨progress, _, ⟨started, rfl⟩, ?_⟩
      cases progress with
      | closed closed => simpa [and_assoc] using later
      | more body =>
        obtain ⟨later, run, rfl⟩ := later
        simp only [yields_bind, yields_pure]
        exact ⟨(result, later), after, (yields_readBody ..).mpr run, rfl, rfl⟩

theorem yields_readDefinition (limits : Limits) (number : Nat) (line : Text) (rest : List Text)
    (before after : Reader) (node : Node) (count : Nat) :
    Yields (readDefinition limits number line rest) before (node, count) after ↔
      definitionName line ≠ [] ∧ ∃ type between,
        Yields (readType limits number (firstType line) rest) before type between ∧
        GroupRun limits number rest (definitionNode between number line type) type between node
          count after := by
  unfold readDefinition
  split
  · rename_i unnamed
    simp [unnamed]
  · rename_i named
    simp only [yields_bind, yields_get, yields_readGroup]
    constructor
    · rintro ⟨type, between, read, _, _, ⟨rfl, rfl⟩, run⟩
      exact ⟨named, type, between, read, run⟩
    · rintro ⟨_, type, between, read, run⟩
      exact ⟨type, between, read, between, between, ⟨rfl, rfl⟩, run⟩

/-! ## Items -/

theorem yields_readItem (limits : Limits) (number : Nat) (line : Text) (rest : List Text)
    (before after : Reader) (node : Node) (count : Nat) :
    Yields (readItem limits number line rest) before (node, count) after ↔
      MayRead limits before ∧
        if LineKind.ofLine before.inBlock line = .typeDefinition then
          Yields (readDefinition limits number line rest) (before.counted.pass line) (node, count)
            after
        else before.counted.lineItem number line = (node, after) ∧ 0 = count := by
  have sameBlock : before.counted.inBlock = before.inBlock := rfl
  simp only [readItem, yields_bind, yields_countLine, yields_get]
  by_cases defines : LineKind.ofLine before.inBlock line = .typeDefinition
  · rw [if_pos defines]
    constructor
    · rintro ⟨_, _, ⟨room, rfl⟩, _, _, ⟨rfl, rfl⟩, success⟩
      rw [sameBlock, if_pos defines] at success
      simp only [yields_bind, yields_set] at success
      obtain ⟨_, _, rfl, success⟩ := success
      exact ⟨room, success⟩
    · rintro ⟨room, success⟩
      refine ⟨(), _, ⟨room, rfl⟩, _, _, ⟨rfl, rfl⟩, ?_⟩
      rw [sameBlock, if_pos defines]
      simp only [yields_bind, yields_set]
      exact ⟨⟨⟩, _, rfl, success⟩
  · rw [if_neg defines]
    constructor
    · rintro ⟨_, _, ⟨room, rfl⟩, _, _, ⟨rfl, rfl⟩, success⟩
      rw [sameBlock, if_neg defines] at success
      simp only [yields_bind, yields_set, yields_pure] at success
      obtain ⟨_, _, rfl, same, rfl⟩ := success
      cases same
      exact ⟨room, rfl, rfl⟩
    · rintro ⟨room, same, rfl⟩
      refine ⟨(), _, ⟨room, rfl⟩, _, _, ⟨rfl, rfl⟩, ?_⟩
      rw [sameBlock, if_neg defines, same]
      simp only [yields_bind, yields_set, yields_pure]
      exact ⟨⟨⟩, _, rfl, trivial, rfl⟩

/-- The items of a schema are read one after the other.  The first `skip` lines belong to the item
before. -/
inductive ItemsRun (limits : Limits) : Reader → Nat → Nat → List Text → List Node → Reader → Prop
  where
  | done (reader : Reader) (number skip : Nat) : ItemsRun limits reader number skip [] [] reader
  | skip {before after : Reader} {number skip : Nat} {line : Text} {rest : List Text}
      {nodes : List Node} (later : ItemsRun limits before (number + 1) skip rest nodes after) :
      ItemsRun limits before number (skip + 1) (line :: rest) nodes after
  | item {before between after : Reader} {number count : Nat} {line : Text} {rest : List Text}
      {node : Node} {nodes : List Node}
      (read : Yields (readItem limits number line rest) before (node, count) between)
      (later : ItemsRun limits { between with setAside := [] } (number + 1) count rest nodes
        after) :
      ItemsRun limits before number 0 (line :: rest) (between.setAside ++ node :: nodes) after

theorem itemsRun_skip {limits : Limits} {before after : Reader} {number count : Nat}
    {lines : List Text} {nodes : List Node} :
    ItemsRun limits before number count lines nodes after ↔
      ItemsRun limits before (number + count) 0 (lines.drop count) nodes after := by
  induction count generalizing number lines with
  | zero => rfl
  | succ count ih =>
    cases lines with
    | nil =>
      constructor
      · intro run
        cases run
        exact .done _ _ _
      · intro run
        cases run
        exact .done _ _ _
    | cons line rest =>
      have behind : ItemsRun limits before (number + 1) count rest nodes after ↔
          ItemsRun limits before (number + (count + 1)) 0 (rest.drop count) nodes after := by
        rw [ih, Nat.add_assoc, Nat.add_comm 1 count]
      rw [List.drop_succ_cons, ← behind]
      constructor
      · intro run
        cases run with
        | skip later => exact later
      · exact .skip

theorem yields_readItems (limits : Limits) (number skip : Nat) (lines : List Text)
    (before after : Reader) (nodes : List Node) :
    Yields (readItems limits number skip lines) before nodes after ↔
      ItemsRun limits before number skip lines nodes after := by
  induction lines generalizing number skip before nodes with
  | nil =>
    simp only [readItems, yields_pure]
    constructor
    · rintro ⟨rfl, rfl⟩
      exact .done _ _ _
    · intro run
      cases run
      exact ⟨rfl, rfl⟩
  | cons line rest ih =>
    cases skip with
    | succ skip =>
      simp only [readItems, ih]
      constructor
      · intro run
        exact .skip run
      · intro run
        cases run with
        | skip later => exact later
    | zero =>
      simp only [readItems, takeSetAside, yields_bind, yields_get, yields_modify, yields_pure]
      constructor
      · rintro ⟨⟨node, count⟩, between, read, _, _,
          ⟨_, _, ⟨rfl, rfl⟩, _, _, rfl, rfl, rfl⟩, others, _, later, rfl, rfl⟩
        exact .item read ((ih ..).mp later)
      · intro run
        cases run with
        | item read later =>
          exact ⟨(_, _), _, read, _, _, ⟨_, _, ⟨rfl, rfl⟩, ⟨⟩, _, rfl, rfl, rfl⟩, _, _,
            (ih ..).mpr later, rfl, rfl⟩

/-- A schema has a tree exactly if all its items can be read. -/
theorem ofText_eq_ok (text : Text) (options : Options) (root : Node) :
    Node.ofText text options = .ok root ↔
      ∃ nodes after, ItemsRun (Limits.ofOptions options (Text.lines text).length) {} 1 0
          (Text.lines text) nodes after ∧
        root = { kind := .root, name := "root".toList, children := nodes } := by
  have all : Node.ofText text options = .ok root ↔ ∃ after,
      Yields (readAll (Limits.ofOptions options (Text.lines text).length) (Text.lines text)) {}
        root after := by
    unfold Node.ofText Yields
    constructor
    · intro success
      refine ⟨_, Prod.ext success rfl⟩
    · rintro ⟨after, success⟩
      exact congrArg Prod.fst success
  simp only [all, readAll, yields_bind, yields_pure, yields_readItems]
  constructor
  · rintro ⟨_, nodes, after, run, rfl, rfl⟩
    exact ⟨nodes, _, run, rfl⟩
  · rintro ⟨nodes, after, run, rfl⟩
    exact ⟨_, nodes, after, run, rfl, rfl⟩

end Reader

end AsnLayout
