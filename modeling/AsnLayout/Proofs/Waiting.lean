import AsnLayout.Proofs.Pairing
import AsnLayout.Proofs.QuotedBody

/-!
# What a body waits for

A body that is being read waits for closing brackets: those of the text of its innermost group, and
one brace for each open group.  Reading paired code leaves what is waited for as it is, and neither
enters nor leaves a group.
-/

set_option autoImplicit false

namespace AsnLayout

/-! ## What decides how code is read -/

/-- What a body goes by when it reads code, the text of its innermost group apart. -/
structure Body.Stance where
  structured : Bool
  brackets : Nat
  pending : Bool
  below : List OpenGroup

namespace Body

variable {limit : Int} {comment : Option Text} {number : Nat} {q : Quoting} {body next : Body}

def stance (body : Body) : Stance :=
  ⟨body.top.structured, body.top.brackets, body.top.pending, body.below⟩

theorem stance_anchorComment (body : Body) (comment : Text) (number : Nat) :
    (body.anchorComment comment number).stance = body.stance := by
  unfold anchorComment OpenGroup.commentLast
  simp only
  split
  · rfl
  · rfl
  · split <;> rfl

theorem stance_endLine (body : Body) (comment : Option Text) (number : Nat) :
    (body.endLine comment number).stance = body.stance := by
  unfold endLine
  simp only
  split
  · unfold OpenGroup.keepLine
    simp only
    split <;> rfl
  cases structured : body.top.structured with
  | true =>
    simp only [if_true]
    cases comment with
    | none => rfl
    | some comment =>
      simp only
      split
      · exact stance_anchorComment ..
      · rfl
  | false =>
    simp only [Bool.false_eq_true, if_false]
    cases comment with
    | none => rfl
    | some comment =>
      simp only
      split
      · exact stance_anchorComment ..
      · rfl

theorem text_endLine (structured : body.top.structured = true) (comment : Option Text)
    (number : Nat) : (body.endLine comment number).top.text = body.top.text := by
  unfold endLine
  simp only [structured, Bool.not_true, Bool.false_and, Bool.false_eq_true, if_false, if_true]
  cases comment with
  | none => rfl
  | some comment =>
    simp only
    split
    · exact (body.anchorComment_frame comment number).1
    · rfl

theorem text_endLine_of_unstructured (unstructured : body.top.structured = false)
    (comment : Option Text) (number : Nat) : (body.endLine comment number).top.text = [] := by
  unfold endLine
  simp only [unstructured, Bool.not_false, Bool.true_and, Bool.false_eq_true, if_false]
  split
  · rw [OpenGroup.keepLine_eq]
  · cases comment with
    | none => rfl
    | some comment => exact (anchorComment_frame _ comment number).1

theorem below_endLine (body : Body) (comment : Option Text) (number : Nat) :
    (body.endLine comment number).below = body.below :=
  congrArg Stance.below (body.stance_endLine comment number)

theorem stance_readComment (body : Body) (line : Text) (inBlock : Bool) (number : Nat) :
    (body.readComment line inBlock number).stance = body.stance := by
  unfold readComment
  simp only
  split <;> rfl

theorem below_readComment (body : Body) (line : Text) (inBlock : Bool) (number : Nat) :
    (body.readComment line inBlock number).below = body.below :=
  congrArg Stance.below (body.stance_readComment line inBlock number)

theorem text_readComment (body : Body) (line : Text) (inBlock : Bool) (number : Nat) :
    (body.readComment line inBlock number).top.text = body.top.text := by
  unfold readComment
  simp only
  split <;> rfl

theorem stance_endMember (body : Body) (number : Nat) :
    (body.endMember number).stance = { body.stance with pending := false } := by
  rw [endMember, body.top.endMember_eq number]
  rfl

theorem text_endMember (body : Body) (number : Nat) : (body.endMember number).top.text = [] := by
  rw [endMember, body.top.endMember_eq number]

/-! ## Code that neither enters nor leaves a group -/

/-- The body with code taken into the text of its innermost group, in which brackets are then
open. -/
def typed (body : Body) (code : Text) (brackets : Nat) : Body :=
  { body with top := { body.top with text := body.top.text ++ code, brackets } }

theorem typed_typed (body : Body) (front back : Text) (brackets brackets' : Nat) :
    (body.typed front brackets).typed back brackets' = body.typed (front ++ back) brackets' := by
  simp [typed]

/-- Whether code is cut at no comma that would end a member of the innermost group. -/
def KeepsWhole (body : Body) (q : Quoting) (code : Text) : Prop :=
  body.top.structured = true →
    Text.commasInside body.top.brackets (q.signs Text.isDivider code) = true

/-- Reading code takes a body to another one without entering or leaving a group.  The brackets that
the code leaves open or closes are counted, and the code is all that is taken if no comma cuts it. -/
structure Runs (limit : Int) (comment : Option Text) (number : Nat) (q : Quoting) (body : Body)
    (code : Text) (next : Body) : Prop where
  read : ∀ rest, readCode limit comment number q body (code ++ rest) =
    readCode limit comment number (q.after code) next rest
  below : next.below = body.below
  structured : next.top.structured = body.top.structured
  pending : next.top.pending = true → body.top.pending = true
  typed : body.KeepsWhole q code → next = body.typed code next.top.brackets

theorem Runs.text {code : Text} (runs : Runs limit comment number q body code next)
    (uncut : Text.commasInside body.top.brackets (q.signs Text.isDivider code) = true) :
    next.top.text = body.top.text ++ code := by
  rw [runs.typed fun _ => uncut]
  rfl

theorem Runs.unpending {code : Text} (runs : Runs limit comment number q body code next)
    (free : body.top.pending = false) : next.top.pending = false := by
  rw [Bool.eq_false_iff]
  intro isPending
  rw [runs.pending isPending] at free
  cases free

theorem runs_nil : Runs limit comment number q body [] body where
  read _ := rfl
  below := rfl
  structured := rfl
  pending := id
  typed _ := by simp [Body.typed]

theorem readCode_keep {c : Char} {rest : Text} (shown : q.exposes c = true)
    (noClose : ¬(c = '}' ∧ body.top.brackets = 0))
    (noGroup : ¬(c = '{' ∧ body.top.brackets = 0 ∧ body.top.structured = true ∧
      Text.groupEnd? rest = none))
    (noComma : ¬(c = ',' ∧ body.top.brackets = 0 ∧ body.top.structured = true)) :
    readCode limit comment number q body (c :: rest) =
      readCode limit comment number (q.next c) { body with top := body.top.takeCode c } rest := by
  rw [readCode]
  simp only [shown, Bool.not_true, Bool.false_eq_true, if_false]
  rw [if_neg noClose, if_neg noGroup, if_neg noComma]

theorem readCode_enter {rest : Text} (shown : q.exposes '{' = true)
    (settled : body.top.brackets = 0) (structured : body.top.structured = true)
    (leftOpen : Text.groupEnd? rest = none) (entered : body.enterGroup limit number = .ok next) :
    readCode limit comment number q body ('{' :: rest) =
      readCode limit comment number (q.next '{') next rest := by
  rw [readCode]
  simp [shown, settled, structured, leftOpen, entered]

theorem Runs.cons {c : Char} {code : Text} {between : Body}
    (later : Runs limit comment number (q.next c) between code next)
    (step : ∀ rest, readCode limit comment number q body (c :: (code ++ rest)) =
      readCode limit comment number (q.next c) between (code ++ rest))
    (below : between.below = body.below)
    (structured : between.top.structured = body.top.structured)
    (pending : between.top.pending = true → body.top.pending = true)
    (typed : body.KeepsWhole q (c :: code) →
      between = body.typed [c] between.top.brackets ∧ between.KeepsWhole (q.next c) code) :
    Runs limit comment number q body (c :: code) next where
  read rest := (step rest).trans (later.read rest)
  below := later.below.trans below
  structured := later.structured.trans structured
  pending isPending := pending (later.pending isPending)
  typed uncut := by
    obtain ⟨here, there⟩ := typed uncut
    rw [later.typed there, here, typed_typed]
    rfl

theorem Runs.hidden {c : Char} {code : Text} (shown : q.exposes c = false)
    (later : Runs limit comment number (q.next c) { body with top := body.top.take c } code next) :
    Runs limit comment number q body (c :: code) next := by
  refine later.cons (fun back => ?_) rfl rfl id fun uncut => ?_
  · rw [readCode]
    simp [shown]
  · refine ⟨rfl, fun structured => ?_⟩
    have uncut := uncut structured
    rwa [Quoting.signs_cons, shown, Bool.false_and, if_neg (by simp), List.nil_append] at uncut

/-- A character that neither enters nor leaves a group nor ends a member, and the code behind it. -/
theorem Runs.kept {c : Char} {code : Text} (shown : q.exposes c = true)
    (noClose : ¬(c = '}' ∧ body.top.brackets = 0))
    (noGroup : ∀ back, ¬(c = '{' ∧ body.top.brackets = 0 ∧ body.top.structured = true ∧
      Text.groupEnd? (code ++ back) = none))
    (noComma : ¬(c = ',' ∧ body.top.brackets = 0 ∧ body.top.structured = true))
    (later : Runs limit comment number (q.next c) { body with top := body.top.takeCode c } code
      next) : Runs limit comment number q body (c :: code) next := by
  refine later.cons (fun back => readCode_keep shown noClose (noGroup back) noComma) rfl rfl id
    fun uncut => ?_
  refine ⟨rfl, fun structured => ?_⟩
  have uncut := uncut structured
  rw [Quoting.signs_cons, shown, Bool.true_and] at uncut
  exact Text.commasInside_step uncut

theorem Runs.ended {code : Text} (shown : q.exposes ',' = true) (settled : body.top.brackets = 0)
    (structured : body.top.structured = true)
    (later : Runs limit comment number (q.next ',') (body.endMember number) code next) :
    Runs limit comment number q body (',' :: code) next := by
  have ended := body.stance_endMember number
  simp only [stance, Stance.mk.injEq] at ended
  obtain ⟨sameKind, -, free, -⟩ := ended
  refine later.cons (fun back => ?_) rfl sameKind (by simp [free]) fun uncut => ?_
  · rw [readCode]
    simp [shown, settled, structured]
  · have uncut := uncut structured
    rw [Quoting.signs_cons, shown, settled] at uncut
    cases uncut

theorem brackets_takeCode {group : OpenGroup} {inner inner' : List Char} {c : Char}
    (step : Text.nest inner (if isBracket c then [c] else []) = some inner')
    (within : inner.length ≤ group.brackets) :
    inner'.length ≤ (group.takeCode c).brackets ∧
      (group.takeCode c).brackets + inner.length = group.brackets + inner'.length := by
  obtain ⟨closer, opens, rfl⟩ | ⟨noOpener, closes, rfl⟩ | ⟨noOpener, noCloser, rfl⟩ :=
    Text.nest_step_cases step
  · have counted : (group.takeCode c).brackets = group.brackets + 1 := by
      simp [OpenGroup.takeCode, opens]
    rw [counted, List.length_cons]
    omega
  · have counted : (group.takeCode c).brackets = group.brackets - 1 := by
      simp [OpenGroup.takeCode, noOpener, closes]
    rw [List.length_cons] at within ⊢
    omega
  · have counted : (group.takeCode c).brackets = group.brackets := by
      simp [OpenGroup.takeCode, noOpener, noCloser]
    omega

/-- Code whose brackets nest is read without entering or leaving a group, where the group counts
brackets anyway or every brace is closed again. -/
theorem exists_runs {code : Text} {inner left : List Char}
    (within : inner.length ≤ body.top.brackets)
    (nested : Text.nest inner (q.brackets code) = some left)
    (closed : body.top.structured = true → inner.length = body.top.brackets → '}' ∉ left) :
    ∃ next, Runs limit comment number q body code next ∧
      next.top.brackets + inner.length = body.top.brackets + left.length := by
  induction code generalizing q body inner with
  | nil =>
    cases nested
    exact ⟨body, runs_nil, rfl⟩
  | cons c rest ih =>
    rw [Quoting.brackets_cons] at nested
    cases shown : q.exposes c with
    | false =>
      rw [shown, Bool.false_and, if_neg (by simp), List.nil_append] at nested
      obtain ⟨next, runs, count⟩ :=
        @ih (q.next c) { body with top := body.top.take c } inner within nested closed
      exact ⟨next, runs.hidden shown, count⟩
    | true =>
      rw [shown, Bool.true_and, Text.nest_append] at nested
      obtain ⟨inner', step, nested⟩ := Option.bind_eq_some_iff.mp nested
      by_cases comma : c = ',' ∧ body.top.brackets = 0 ∧ body.top.structured = true
      · obtain ⟨rfl, settled, structured⟩ := comma
        cases step
        have ended := body.stance_endMember number
        simp only [stance, Stance.mk.injEq] at ended
        obtain ⟨sameKind, sameCount, -⟩ := ended
        rw [← sameKind, ← sameCount] at closed
        rw [← sameCount] at within ⊢
        obtain ⟨next, runs, count⟩ :=
          @ih (q.next ',') (body.endMember number) inner within nested closed
        exact ⟨next, runs.ended shown settled structured, count⟩
      · obtain ⟨within', count⟩ := brackets_takeCode step within
        have closed' : body.top.structured = true →
            inner'.length = (body.top.takeCode c).brackets → '}' ∉ left :=
          fun structured same => closed structured (by omega)
        obtain ⟨next, runs, count'⟩ :=
          @ih (q.next c) { body with top := body.top.takeCode c } inner' within' nested closed'
        refine ⟨next, runs.kept shown ?_ ?_ comma, by simp only at count'; omega⟩
        · rintro ⟨rfl, settled⟩
          obtain rfl : inner = [] := List.length_eq_zero_iff.mp (by omega)
          cases step
        · -- The brace is closed again before the code ends.
          rintro back ⟨rfl, settled, structured, leftOpen⟩
          obtain rfl : inner = [] := List.length_eq_zero_iff.mp (by omega)
          cases step
          rw [Quoting.next_of_exposes shown (by decide)] at nested
          exact Text.groupEnd?_ne_none nested (closed structured settled.symm) leftOpen

/-! ## Brackets waited for -/

/-- The closing brackets that a body waits for, from the inside out: those of the text being read,
and a brace for each open group. -/
structure Waits (body : Body) (waiting : List Char) : Prop where
  stack : ∃ inner, inner.length = body.top.brackets ∧
    waiting = inner ++ List.replicate (body.below.length + 1) '}'
  below : ∀ group ∈ body.below, group.structured = true ∧ group.brackets = 0

variable {waiting inner left rest outer : List Char}

theorem Waits.of_stance (waits : body.Waits waiting) (same : next.stance = body.stance) :
    next.Waits waiting := by
  simp only [stance, Stance.mk.injEq] at same
  obtain ⟨-, brackets, -, below⟩ := same
  obtain ⟨stack, structured⟩ := waits
  rw [← brackets, ← below] at stack
  rw [← below] at structured
  exact ⟨stack, structured⟩

theorem Waits.exists_base (waits : body.Waits (inner ++ rest))
    (within : inner.length ≤ body.top.brackets) :
    ∃ base, base.length + inner.length = body.top.brackets ∧
      rest = base ++ List.replicate (body.below.length + 1) '}' := by
  obtain ⟨⟨stack, size, same⟩, -⟩ := waits
  rcases List.append_eq_append_iff.mp same with ⟨base, rfl, rfl⟩ | ⟨base, rfl, cut⟩
  · refine ⟨base, ?_, rfl⟩
    rw [List.length_append] at size
    omega
  · rw [List.length_append] at within
    have none : base = [] := List.length_eq_zero_iff.mp (by omega)
    subst none
    exact ⟨[], by simpa using size, by simpa using cut.symm⟩

theorem Waits.within (waits : body.Waits (inner ++ rest)) (absent : '}' ∉ inner) :
    inner.length ≤ body.top.brackets := by
  obtain ⟨⟨stack, size, same⟩, -⟩ := waits
  rcases List.append_eq_append_iff.mp same with ⟨base, rfl, -⟩ | ⟨base, rfl, cut⟩
  · rw [← size, List.length_append]
    omega
  · have none : base = [] := by
      rw [List.eq_nil_iff_forall_not_mem]
      intro c member
      have brace : c = '}' := List.eq_of_mem_replicate (cut ▸ List.mem_append_left _ member)
      subst brace
      exact absent (List.mem_append_right _ member)
    rw [none, List.append_nil, size]

theorem Waits.of_runs {code : Text} (waits : body.Waits (inner ++ rest))
    (runs : Runs limit comment number q body code next) (within : inner.length ≤ body.top.brackets)
    (count : next.top.brackets + inner.length = body.top.brackets + left.length) :
    next.Waits (left ++ rest) := by
  obtain ⟨base, size, rfl⟩ := waits.exists_base within
  refine ⟨⟨left ++ base, ?_, ?_⟩, ?_⟩
  · rw [List.length_append]
    omega
  · rw [runs.below, List.append_assoc]
  · rw [runs.below]
    exact waits.below

/-! ## Between two lines -/

/-- A body between two lines that waits for closing brackets.  If it is ready, a new member may
start: no group has closed since the last comma, and there is no text before the member. -/
structure Rests (body : Body) (waiting : List Char) (ready : Bool) : Prop where
  waits : body.Waits waiting
  settled : body.top.structured = false ∨ body.top.brackets ≠ 0 → body.top.pending = false
  free : ready = true → body.top.pending = false
  fresh : ready = true → body.top.structured = true → body.top.brackets = 0 → body.top.text = []

/-- A body between two lines of a group that is kept as it is: it waits for the brackets that the
lines have opened, and no brace enters a group. -/
structure Counts (body : Body) (inner rest : List Char) : Prop where
  waits : body.Waits (inner ++ rest)
  within : inner.length ≤ body.top.brackets
  deep : body.top.structured = true → inner.length < body.top.brackets
  free : body.top.pending = false

variable {ready : Bool}

theorem Rests.weaken (rests : body.Rests waiting true) (ready : Bool) : body.Rests waiting ready :=
  ⟨rests.waits, rests.settled, fun _ => rests.free rfl, fun _ => rests.fresh rfl⟩

theorem Rests.unready (rests : body.Rests waiting ready) : body.Rests waiting false :=
  ⟨rests.waits, rests.settled, nofun,
    nofun⟩

theorem Counts.rests (counting : body.Counts [] rest) : body.Rests rest false :=
  ⟨counting.waits, fun _ => counting.free, nofun,
    nofun⟩

theorem Rests.of_stance (rests : body.Rests waiting ready) (same : next.stance = body.stance)
    (text : body.top.structured = true → body.top.text = [] → next.top.text = []) :
    next.Rests waiting ready := by
  have waits := rests.waits.of_stance same
  simp only [stance, Stance.mk.injEq] at same
  obtain ⟨structured, brackets, pending, -⟩ := same
  refine ⟨waits, ?_, ?_, ?_⟩
  · rw [structured, brackets, pending]
    exact rests.settled
  · rw [pending]
    exact rests.free
  · rw [structured, brackets]
    exact fun isReady isStructured settled =>
      text isStructured (rests.fresh isReady isStructured settled)

theorem Counts.of_stance (counting : body.Counts inner rest) (same : next.stance = body.stance) :
    next.Counts inner rest := by
  have waits := counting.waits.of_stance same
  simp only [stance, Stance.mk.injEq] at same
  obtain ⟨structured, brackets, pending, -⟩ := same
  refine ⟨waits, ?_, ?_, ?_⟩
  · rw [brackets]
    exact counting.within
  · rw [structured, brackets]
    exact counting.deep
  · rw [pending]
    exact counting.free

theorem Rests.startLine (rests : body.Rests waiting ready) : body.startLine.Rests waiting ready :=
  rests.of_stance rfl fun _ empty => by simp [Body.startLine, empty]

theorem Rests.endLine (rests : body.Rests waiting ready) (comment : Option Text) (number : Nat) :
    (body.endLine comment number).Rests waiting ready :=
  rests.of_stance (stance_endLine ..) fun structured empty => by
    rw [text_endLine structured, empty]

theorem Rests.readComment (rests : body.Rests waiting ready) (line : Text) (inBlock : Bool)
    (number : Nat) : (body.readComment line inBlock number).Rests waiting ready :=
  rests.of_stance (stance_readComment ..) fun _ empty => by rw [text_readComment, empty]

theorem Counts.readComment (counting : body.Counts inner rest) (line : Text) (inBlock : Bool)
    (number : Nat) : (body.readComment line inBlock number).Counts inner rest :=
  counting.of_stance (stance_readComment ..)

/-! ## Members -/

theorem Rests.run {code : Text} (rests : body.Rests waiting ready)
    (paired : Text.nest [] (q.brackets code) = some []) :
    ∃ next, Runs limit comment number q body code next ∧ next.Rests waiting false := by
  obtain ⟨next, runs, count⟩ := @exists_runs limit comment number q body code [] []
    (Nat.zero_le _) paired fun _ _ => List.not_mem_nil
  refine ⟨next, runs, @Waits.of_runs limit comment number q body next [] [] waiting code
    rests.waits runs (Nat.zero_le _) count, ?_, nofun,
    nofun⟩
  rw [List.length_nil, Nat.add_zero, Nat.add_zero] at count
  rw [runs.structured, count]
  exact fun counts => runs.unpending (rests.settled counts)

theorem Rests.comma (rests : body.Rests waiting ready) (shown : q.exposes ',' = true) :
    ∃ next, (∀ rest, readCode limit comment number q body (',' :: rest) =
        readCode limit comment number (q.next ',') next rest) ∧ next.Rests waiting true := by
  by_cases ends : body.top.brackets = 0 ∧ body.top.structured = true
  · obtain ⟨settled, structured⟩ := ends
    have ended := body.stance_endMember number
    simp only [stance, Stance.mk.injEq] at ended
    obtain ⟨-, sameCount, free, -⟩ := ended
    refine ⟨body.endMember number, fun rest => ?_, ⟨?_, rests.waits.below⟩, fun _ => free,
      fun _ => free, fun _ _ _ => text_endMember ..⟩
    · rw [readCode]
      simp [shown, settled, structured]
    · rw [sameCount]
      exact rests.waits.stack
  · have kept : (body.top.takeCode ',').brackets = body.top.brackets := rfl
    have free : body.top.pending = false := by
      refine rests.settled ?_
      by_cases structured : body.top.structured = true
      · exact .inr fun settled => ends ⟨settled, structured⟩
      · exact .inl (by simpa using structured)
    refine ⟨{ body with top := body.top.takeCode ',' }, fun rest => readCode_keep shown (by simp)
      (by simp) (fun same => ends same.2), ⟨rests.waits.stack, rests.waits.below⟩, fun _ => free,
      fun _ => free, fun _ structured settled => absurd ⟨settled, structured⟩ ends⟩

theorem Counts.run {code : Text} (counting : body.Counts inner rest)
    (nested : Text.nest inner (q.brackets code) = some left) :
    ∃ next, Runs limit comment number q body code next ∧ next.Counts left rest := by
  have within := counting.within
  obtain ⟨next, runs, count⟩ := @exists_runs limit comment number q body code inner left within
    nested fun structured same => absurd (counting.deep structured) (by omega)
  refine ⟨next, runs, counting.waits.of_runs runs within count, by omega, ?_,
    runs.unpending counting.free⟩
  rw [runs.structured]
  intro structured
  have deep := counting.deep structured
  omega

/-! ## Groups -/

theorem Waits.enter (waits : body.Waits waiting) (free : body.top.pending = false)
    (settled : body.top.brackets = 0) (structured : body.top.structured = true)
    (shown : q.exposes '{' = true) (room : (waiting.count '}' : Int) < limit) :
    ∃ next, readCode limit comment number q body ['{'] =
        readCode limit comment number (q.next '{') next [] ∧
      next.Rests ('}' :: waiting) true ∧
      ((GroupKind.ofHeader (Text.neat body.top.text)).isStructured = false →
        next.Counts [] ('}' :: waiting)) := by
  obtain ⟨⟨inner, size, rfl⟩, below⟩ := waits
  obtain rfl : inner = [] := List.length_eq_zero_iff.mp (by omega)
  rw [List.nil_append, List.count_replicate_self] at room
  let next : Body :=
    { top := { node := body.top.groupNode number }
      below := body.top.withoutHeader :: body.below
      anchor := .opening }
  have entered : body.enterGroup limit number = .ok next := by
    rw [enterGroup, free, if_neg (by simp), if_neg (by omega)]
  have waits : next.Waits ('}' :: ([] ++ List.replicate (body.below.length + 1) '}')) :=
    ⟨⟨[], rfl, rfl⟩, List.forall_mem_cons.mpr ⟨⟨structured, settled⟩, below⟩⟩
  refine ⟨next, readCode_enter shown settled structured rfl entered,
    ⟨waits, fun _ => rfl, fun _ => rfl, fun _ _ _ => rfl⟩,
    fun unstructured => ⟨waits, Nat.zero_le _, fun isStructured => ?_, rfl⟩⟩
  have same : next.top.structured = false := unstructured
  rw [same] at isStructured
  cases isStructured

theorem Waits.countOpener (waits : body.Waits waiting) (free : body.top.pending = false)
    (counts : ¬(body.top.brackets = 0 ∧ body.top.structured = true))
    (shown : q.exposes '{' = true) :
    ∃ next, readCode limit comment number q body ['{'] =
        readCode limit comment number (q.next '{') next [] ∧
      next.Rests ('}' :: waiting) true ∧ next.Counts [] ('}' :: waiting) := by
  have counted : (body.top.takeCode '{').brackets = body.top.brackets + 1 := rfl
  obtain ⟨⟨inner, size, stack⟩, below⟩ := waits
  have waits : Waits { body with top := body.top.takeCode '{' } ('}' :: waiting) := by
    refine ⟨⟨'}' :: inner, ?_, by rw [stack]; rfl⟩, below⟩
    rw [counted, ← size]
    rfl
  refine ⟨{ body with top := body.top.takeCode '{' },
    readCode_keep shown (by simp) (fun same => counts ⟨same.2.1, same.2.2.1⟩) (by simp),
    ⟨waits, fun _ => free, fun _ => free, fun _ _ settled => ?_⟩,
    ⟨waits, Nat.zero_le _, fun _ => ?_, free⟩⟩
  · rw [counted] at settled
    cases settled
  · rw [counted]
    exact Nat.succ_pos _

/-- The brace behind a header opens a group, or counts in one that is open. -/
theorem Rests.enter {header : Text} (rests : body.Rests waiting true)
    (nested : Text.nest [] (q.brackets header) = some outer) (absent : '}' ∉ outer)
    (shown : (q.after header).exposes '{' = true) (room : (waiting.count '}' : Int) < limit) :
    ∃ next, readCode limit comment number q body (header ++ ['{']) =
        readCode limit comment number {} next [] ∧
      next.Rests ('}' :: (outer ++ waiting)) true ∧
      ((GroupKind.ofHeader (Text.neat header)).isStructured = false →
        Text.commasInside 0 (q.signs Text.isDivider header) = true →
        next.Counts [] ('}' :: (outer ++ waiting))) := by
  obtain ⟨between, runs, count⟩ := @exists_runs limit comment number q body header [] outer
    (Nat.zero_le _) nested fun _ _ => absent
  have waits := @Waits.of_runs limit comment number q body between [] outer waiting header
    rests.waits runs (Nat.zero_le _) count
  have free := runs.unpending (rests.free rfl)
  rw [runs.read, ← Quoting.next_of_exposes shown (by decide)]
  by_cases enters : between.top.brackets = 0 ∧ between.top.structured = true
  · obtain ⟨settled, structured⟩ := enters
    have room : ((outer ++ waiting).count '}' : Int) < limit := by
      rwa [List.count_append, List.count_eq_zero_of_not_mem absent, Nat.zero_add]
    obtain ⟨next, read, later, counts⟩ :=
      @Waits.enter limit comment number _ between _ waits free settled structured shown room
    refine ⟨next, read, later, fun unstructured uncut => counts ?_⟩
    have size : body.top.brackets = 0 := by
      rw [List.length_nil] at count
      omega
    rwa [runs.text (by rwa [size]), rests.fresh rfl (runs.structured ▸ structured) size]
  · obtain ⟨next, read, later, counts⟩ :=
      @Waits.countOpener limit comment number _ between _ waits free enters shown
    exact ⟨next, read, later, fun _ _ => counts⟩

theorem Rests.leaveGroup {tail : Text} (rests : body.Rests ('}' :: (outer ++ waiting)) ready)
    (settled : body.top.brackets = 0) (absent : '}' ∉ outer) (inside : waiting ≠ [])
    (nested : Text.nest outer (Text.brackets tail) = some []) :
    ∃ next, (∀ rest, readCode limit comment number {} body ('}' :: (tail ++ rest)) =
        readCode limit comment number (Quoting.after {} tail) next rest) ∧
      next.Rests waiting false := by
  obtain ⟨⟨inner, size, stack⟩, below⟩ := rests.waits
  obtain rfl : inner = [] := List.length_eq_zero_iff.mp (by omega)
  simp only [List.nil_append, List.replicate_succ, List.cons.injEq, true_and] at stack
  have braces : ∀ c ∈ outer ++ waiting, c = '}' := by
    rw [stack]
    exact fun c member => List.eq_of_mem_replicate member
  obtain rfl : outer = [] := List.eq_nil_iff_forall_not_mem.mpr fun c member =>
    absent (braces c (List.mem_append_left _ member) ▸ member)
  obtain ⟨top, around, anchor⟩ := body
  cases around with
  | nil => exact absurd stack inside
  | cons group later =>
    obtain ⟨structured, level⟩ := below group (List.mem_cons_self ..)
    let left : Body :=
      { top := group.adopt (top.close number).node, below := later, anchor := .member }
    obtain ⟨next, runs, count⟩ := @exists_runs limit comment number {} left tail [] []
      (Nat.zero_le _) nested fun _ _ => List.not_mem_nil
    have sameCount : next.top.brackets = group.brackets := count
    have sameKind : next.top.structured = group.structured := runs.structured
    refine ⟨next, fun rest => ?_, ⟨⟨[], (sameCount.trans level).symm, ?_⟩, ?_⟩, ?_, nofun, nofun⟩
    · rw [readCode]
      have settled : top.brackets = 0 := settled
      simp only [show Quoting.exposes {} '}' = true from rfl, settled]
      exact runs.read rest
    · rw [runs.below]
      exact stack
    · rw [runs.below]
      exact fun group member => below group (List.mem_cons_of_mem _ member)
    · rw [sameKind, sameCount, structured, level]
      simp

theorem Rests.countCloser {tail : Text} (rests : body.Rests ('}' :: (outer ++ waiting)) ready)
    (counts : body.top.brackets ≠ 0) (absent : '}' ∉ outer)
    (nested : Text.nest outer (Text.brackets tail) = some []) :
    ∃ next, (∀ rest, readCode limit comment number {} body ('}' :: (tail ++ rest)) =
        readCode limit comment number (Quoting.after {} tail) next rest) ∧
      next.Rests waiting false := by
  have counted : (body.top.takeCode '}').brackets = body.top.brackets - 1 := rfl
  have free := rests.settled (.inr counts)
  have waits : Waits { body with top := body.top.takeCode '}' } (outer ++ waiting) := by
    obtain ⟨⟨inner, size, stack⟩, below⟩ := rests.waits
    cases inner with
    | nil => exact absurd size.symm counts
    | cons first inner =>
      refine ⟨⟨inner, ?_, (List.cons.inj stack).2⟩, below⟩
      rw [counted, ← size]
      rfl
  have within := waits.within absent
  obtain ⟨next, runs, count⟩ := @exists_runs limit comment number {} _ tail outer []
    within nested fun _ _ => List.not_mem_nil
  refine ⟨next, fun rest => ?_, waits.of_runs runs within count,
    fun _ => runs.unpending free, nofun, nofun⟩
  rw [readCode_keep rfl (fun same => counts same.2) (by simp) (by simp)]
  exact runs.read rest

/-- The brace before a trailer closes the group that it was opened for. -/
theorem Rests.leave {tail : Text} (rests : body.Rests ('}' :: (outer ++ waiting)) ready)
    (absent : '}' ∉ outer) (inside : waiting ≠ [])
    (nested : Text.nest outer (Text.brackets tail) = some []) :
    ∃ next, (∀ rest, readCode limit comment number {} body ('}' :: (tail ++ rest)) =
        readCode limit comment number (Quoting.after {} tail) next rest) ∧
      next.Rests waiting false := by
  by_cases leaves : body.top.brackets = 0
  · exact rests.leaveGroup leaves absent inside nested
  · exact rests.countCloser leaves absent nested

/-- The brace before a trailer ends a definition that waits for nothing else. -/
theorem Rests.exists_closed {tail : Text} (rests : body.Rests ['}'] ready)
    (balanced : Text.braceBalance tail = 0) :
    ∃ node, readCode limit comment number {} body ('}' :: tail) = .ok (.closed node) := by
  obtain ⟨⟨inner, size, stack⟩, -⟩ := rests.waits
  have sizes := congrArg List.length stack
  simp only [List.length_append, List.length_replicate, List.length_cons, List.length_nil] at sizes
  have settled : body.top.brackets = 0 := by omega
  have last : body.below = [] := List.length_eq_zero_iff.mp (by omega)
  have closed : closeDefinition (body.top.close number).node tail comment number =
      .ok { (body.top.close number).node with
        trailer := Text.neat tail, closingComment := comment } := by
    rw [closeDefinition, if_pos balanced]
  refine ⟨{ (body.top.close number).node with
    trailer := Text.neat tail, closingComment := comment }, ?_⟩
  rw [readCode]
  simp only [settled, last, closed]
  rfl

end Body

end AsnLayout
