import AsnLayout.Proofs.Canonical

/-!
# The limit on nested groups

Two places stop groups that are nested too deep: the reader counts the groups that are open behind a
line, and the layout counts the groups that it expands.  Which groups go which way depends on where
the lines break.  A tree that is read at all is the same tree under any higher limit, so together the
two places stop a definition exactly where its groups are deeper than the limit.
-/

set_option autoImplicit false

namespace AsnLayout

/-! ## Outcomes under two limits -/

/-- The outcome under a lower limit is the same as under a higher one, unless the limit stops it. -/
def Curbed {α : Type} (limit : Int) (strict loose : Except Fault α) : Prop :=
  strict = loose ∨ ∃ line, strict = .error ⟨.tooDeep limit, line⟩

namespace Body

variable {limit limit' : Int}

theorem curbed_enterGroup (lower : limit ≤ limit') (body : Body) (number : Nat) :
    Curbed limit (body.enterGroup limit number) (body.enterGroup limit' number) := by
  unfold enterGroup
  split
  · exact .inl rfl
  · by_cases full : limit ≤ body.below.length + 1
    · exact .inr ⟨_, if_pos full⟩
    · exact .inl (by rw [if_neg full, if_neg fun full' => full (lower.trans full')])

theorem curbed_readCode (lower : limit ≤ limit') (comment : Option Text) (number : Nat) (q : Quoting)
    (body : Body) (code : Text) :
    Curbed limit (readCode limit comment number q body code)
      (readCode limit' comment number q body code) := by
  induction code generalizing q body with
  | nil => exact .inl rfl
  | cons c rest ih =>
    simp only [readCode]
    split
    · exact ih _ _
    split
    · cases body.below with
      | nil => exact .inl rfl
      | cons outer below => exact ih _ _
    split
    · rcases curbed_enterGroup lower body number with same | ⟨line, stopped⟩
      · rw [same]
        cases body.enterGroup limit' number with
        | error fault => exact .inl rfl
        | ok entered => exact ih _ _
      · rw [stopped]
        exact .inr ⟨line, rfl⟩
    split
    · exact ih _ _
    · exact ih _ _

theorem curbed_start (lower : limit ≤ limit') (node : Node) (first : Text) :
    Curbed limit (start node limit first) (start node limit' first) := by
  unfold start
  by_cases none : limit ≤ 0
  · exact .inr ⟨_, if_pos none⟩
  rw [if_neg none, if_neg fun none' => none (lower.trans none')]
  split
  · exact .inl rfl
  · exact curbed_readCode lower _ _ _ _ _

end Body

/-! ## Steps of the reader under two limits -/

namespace Reading

variable {α β : Type} {limit : Int}

def CurbedStep (limit : Int) (strict loose : Reading α) : Prop :=
  ∀ before, strict.run.run before = loose.run.run before ∨
    ∃ line after, strict.run.run before = (.error ⟨.tooDeep limit, line⟩, after)

theorem CurbedStep.refl (step : Reading α) : CurbedStep limit step step := fun _ => .inl rfl

theorem curbed_lift {strict loose : Except Fault α} (curbed : Curbed limit strict loose) :
    CurbedStep limit (liftM strict : Reading α) (liftM loose) := by
  intro before
  rcases curbed with same | ⟨line, stopped⟩
  · exact .inl (by rw [same])
  · exact .inr ⟨line, before, by rw [stopped]; rfl⟩

theorem CurbedStep.bind {strict loose : Reading α} {next next' : α → Reading β}
    (first : CurbedStep limit strict loose) (later : ∀ a, CurbedStep limit (next a) (next' a)) :
    CurbedStep limit (strict >>= next) (loose >>= next') := by
  intro before
  simp only [ExceptT.run_bind, StateT.run_bind]
  rcases first before with same | ⟨line, after, stopped⟩
  · rw [same]
    cases loose.run.run before with
    | mk outcome between =>
      cases outcome with
      | error fault => exact .inl rfl
      | ok a => exact later a between
  · rw [stopped]
    exact .inr ⟨line, after, rfl⟩

end Reading

namespace Reader

open Reading

variable {lines depth depth' : Int}

/-- No group is open while a type is read up to its brace. -/
theorem readNextCode_depth (depth depth' : Int) (definition number : Nat) (rest : List Text) :
    readNextCode ⟨lines, depth⟩ definition number rest =
      readNextCode ⟨lines, depth'⟩ definition number rest := by
  induction rest generalizing number with
  | nil => rfl
  | cons line later ih =>
    simp only [readNextCode, ih]
    rfl

theorem readType_depth (depth depth' : Int) (definition : Nat) (type : TypeText) (rest : List Text) :
    readType ⟨lines, depth⟩ definition type rest = readType ⟨lines, depth'⟩ definition type rest := by
  have onward : ∀ type, continueType ⟨lines, depth⟩ definition type rest =
      continueType ⟨lines, depth'⟩ definition type rest := by
    intro type
    simp only [continueType, readNextCode_depth depth depth']
  simp only [readType, onward]

variable (lower : depth ≤ depth')

include lower

theorem curbed_readBody (definition : Node) (body : Body) (number : Nat) (rest : List Text) :
    CurbedStep depth (readBody ⟨lines, depth⟩ definition body number rest)
      (readBody ⟨lines, depth'⟩ definition body number rest) := by
  induction rest generalizing body number with
  | nil => exact .refl _
  | cons line later ih =>
    have onward : ∀ body, CurbedStep depth
        (do let read ← readBody ⟨lines, depth⟩ definition body (number + 1) later
            return (read.1, read.2 + 1))
        (do let read ← readBody ⟨lines, depth'⟩ definition body (number + 1) later
            return (read.1, read.2 + 1)) :=
      fun body => (ih body (number + 1)).bind fun _ => .refl _
    simp only [readBody]
    refine (CurbedStep.refl _).bind fun _ => (CurbedStep.refl _).bind fun reader => ?_
    refine (CurbedStep.refl _).bind fun _ => ?_
    split
    · exact onward _
    · exact .refl _
    · exact .refl _
    · exact .refl _
    · split
      · exact onward _
      · refine (curbed_lift (Body.curbed_readCode lower _ _ _ _ _)).bind fun progress => ?_
        cases progress with
        | closed node => exact .refl _
        | more body => exact onward body

theorem curbed_readGroup (number : Nat) (rest : List Text) (node : Node) (type : TypeText) :
    CurbedStep depth (readGroup ⟨lines, depth⟩ number rest node type)
      (readGroup ⟨lines, depth'⟩ number rest node type) := by
  unfold readGroup
  cases shapeOf type.code with
  | plain => exact .refl _
  | opened header first =>
    refine (curbed_lift (Body.curbed_start lower _ first)).bind fun progress => ?_
    cases progress with
    | closed node => exact .refl _
    | more body => exact (curbed_readBody lower _ body _ _).bind fun _ => .refl _
  | inline header inside trailer => exact .refl _
  | unbalanced => exact .refl _

theorem curbed_readItem (number : Nat) (line : Text) (rest : List Text) :
    CurbedStep depth (readItem ⟨lines, depth⟩ number line rest)
      (readItem ⟨lines, depth'⟩ number line rest) := by
  unfold readItem
  refine (CurbedStep.refl _).bind fun _ => (CurbedStep.refl _).bind fun reader => ?_
  split
  · refine (CurbedStep.refl _).bind fun _ => ?_
    unfold readDefinition
    split
    · exact .refl _
    rw [readType_depth depth depth']
    exact (CurbedStep.refl _).bind fun type => (CurbedStep.refl _).bind fun reader =>
      curbed_readGroup lower number rest _ type
  · exact .refl _

theorem curbed_readItems (number skip : Nat) (rest : List Text) :
    CurbedStep depth (readItems ⟨lines, depth⟩ number skip rest)
      (readItems ⟨lines, depth'⟩ number skip rest) := by
  induction rest generalizing number skip with
  | nil => exact .refl _
  | cons line later ih =>
    cases skip with
    | succ skip => exact ih (number + 1) skip
    | zero =>
      simp only [readItems]
      exact (curbed_readItem lower number line later).bind fun item => (CurbedStep.refl _).bind
        fun _ => (ih (number + 1) item.2).bind fun _ => .refl _

end Reader

/-- A schema has the same tree, or the same fault, as under a higher limit, unless its groups are
nested too deep. -/
theorem Node.curbed_ofText (text : Text) (options : Options) {limit : Int}
    (lower : options.maxDepth ≤ limit) :
    Curbed options.maxDepth (Node.ofText text options)
      (Node.ofText text { options with maxDepth := limit }) := by
  have curbed : Reading.CurbedStep options.maxDepth
      (Reader.readAll (Limits.ofOptions options (Text.lines text).length) (Text.lines text))
      (Reader.readAll (Limits.ofOptions { options with maxDepth := limit }
        (Text.lines text).length) (Text.lines text)) :=
    (Reader.curbed_readItems lower 1 0 (Text.lines text)).bind fun _ => .refl _
  rcases curbed {} with same | ⟨line, after, stopped⟩
  · exact .inl (congrArg Prod.fst same)
  · exact .inr ⟨line, congrArg Prod.fst stopped⟩

/-! ## Groups with members -/

mutual

def Member.isFilled : Member → Bool
  | .plain _ _ => true
  | .group _ _ members _ => !members.isEmpty && Member.areFilled members

def Member.areFilled : List Member → Bool
  | [] => true
  | member :: later => member.isFilled && Member.areFilled later

end

def Definition.isFilled (definition : Definition) : Bool :=
  !definition.members.isEmpty && Member.areFilled definition.members

theorem Member.reachAll_of_filled {members : List Member}
    (each : ∀ member ∈ members, member.isFilled = true → member.reach = member.depth + 1)
    (some : members ≠ []) (filled : Member.areFilled members = true) :
    Member.reachAll members = Member.depthAll members + 1 := by
  induction members with
  | nil => exact absurd rfl some
  | cons member later ih =>
    rw [Member.areFilled, Bool.and_eq_true] at filled
    have here := each member (List.mem_cons_self ..) filled.1
    rw [Member.reachAll, Member.depthAll, here]
    cases later with
    | nil => simp [Member.reachAll, Member.depthAll]
    | cons second others =>
      rw [ih (fun other inLater => each other (List.mem_cons_of_mem _ inLater))
        (List.cons_ne_nil _ _) filled.2]
      omega

theorem Member.reach_of_filled (member : Member) (filled : member.isFilled = true) :
    member.reach = member.depth + 1 := by
  induction member using Member.induct with
  | plain first more => rfl
  | group front word members back ih =>
    simp only [Member.isFilled, Bool.and_eq_true, Bool.not_eq_true', List.isEmpty_eq_false_iff]
      at filled
    rw [Member.reach, Member.depth, Member.reachAll_of_filled ih filled.1 filled.2]

/-- The levels of the layout of a filled definition are its nested groups. -/
theorem Definition.reach_of_filled {definition : Definition} (filled : definition.isFilled = true) :
    definition.reach = definition.depth := by
  simp only [Definition.isFilled, Bool.and_eq_true, Bool.not_eq_true', List.isEmpty_eq_false_iff]
    at filled
  exact Member.reachAll_of_filled (fun member _ => member.reach_of_filled) filled.1 filled.2

/-! ## Definitions that are nested too deep -/

theorem layNodes_of_deep {nodes : List Node} {definitions : List Definition}
    (laid : Laid nodes definitions) (options : Options)
    (deep : ∃ definition ∈ definitions, options.maxDepth.toNat < definition.reach) :
    Layout.layNodes options nodes = .error ⟨.tooDeep options.maxDepth, none⟩ := by
  induction laid with
  | nil =>
    obtain ⟨definition, member, -⟩ := deep
    cases member
  | blank isBlank _ ih =>
    rw [Layout.layNodes, isBlank, ih deep]
    rfl
  | @definition node nodes first later laysOut _ ih =>
    rw [Layout.layNodes, laysOut]
    by_cases fits : first.reach ≤ options.maxDepth.toNat
    · obtain ⟨definition, member, deeper⟩ := deep
      have behind : ∃ definition ∈ later, options.maxDepth.toNat < definition.reach := by
        rcases List.mem_cons.mp member with rfl | inLater
        · exact absurd fits (Nat.not_le.mpr deeper)
        · exact ⟨definition, inLater, deeper⟩
      rw [if_pos fits, ih behind]
      rfl
    · rw [if_neg fits]
      rfl

namespace Definition

variable {definition : Definition} {source : Text} {options : Options}

theorem exists_toText_of_spelled (spelled : Spelled [definition] source)
    (positive : 1 ≤ options.iterationFactor) (fits : definition.depth ≤ options.maxDepth) :
    ∃ text, (do (← Node.ofText source options).toText options) = .ok text := by
  have fitsAll : ∀ other ∈ [definition], (other.depth : Int) ≤ options.maxDepth := by simpa using fits
  obtain ⟨nodes, laid, read⟩ := exists_ofText_of_spelled spelled fitsAll positive
  obtain ⟨pieces, laidOut, -⟩ := rows_of_laid laid options fitsAll options.indentWidth
  refine ⟨Piece.assemble options.indentWidth pieces, ?_⟩
  rw [bind_of_ok read, Node.toText]
  exact bind_of_ok laidOut _

/-- Where the reader lets a group pass that is too deep, the layout stops at it. -/
theorem toText_of_deep (filled : definition.isFilled = true) (spelled : Spelled [definition] source)
    (positive : 1 ≤ options.iterationFactor) (deep : options.maxDepth < definition.depth) :
    ∃ line, (do (← Node.ofText source options).toText options) =
      .error ⟨.tooDeep options.maxDepth, line⟩ := by
  rcases Node.curbed_ofText source options (Int.le_of_lt deep) with same | ⟨line, stopped⟩
  · obtain ⟨nodes, laid, read⟩ := @exists_ofText_of_spelled _ _
      { options with maxDepth := definition.depth } spelled (by simp) positive
    have reach := reach_of_filled filled
    have positiveDepth : 0 < definition.depth := Nat.succ_pos _
    have stopped := layNodes_of_deep laid options ⟨definition, List.mem_cons_self .., by omega⟩
    refine ⟨none, ?_⟩
    rw [same, bind_of_ok read, Node.toText, stopped]
    rfl
  · refine ⟨line, ?_⟩
    rw [stopped]
    rfl

end Definition

/-- However the lines of a definition break, it has no layout exactly if its groups are nested deeper
than the limit. -/
theorem toText_fails_iff_too_deep (definition : Definition) (source : Text) (options : Options)
    (filled : definition.isFilled = true) (spelled : Definition.Spelled [definition] source)
    (positive : 1 ≤ options.iterationFactor) :
    ((∃ fault, (do (← Node.ofText source options).toText options) = .error fault) ↔
      options.maxDepth < definition.depth) ∧
    ∀ fault, (do (← Node.ofText source options).toText options) = .error fault →
      fault.cause = .tooDeep options.maxDepth := by
  by_cases deep : options.maxDepth < definition.depth
  · obtain ⟨line, stopped⟩ := Definition.toText_of_deep filled spelled positive deep
    refine ⟨⟨fun _ => deep, fun _ => ⟨_, stopped⟩⟩, ?_⟩
    intro fault failed
    cases stopped.symm.trans failed
    rfl
  · obtain ⟨text, success⟩ := Definition.exists_toText_of_spelled spelled positive (Int.not_lt.mp deep)
    have never : ∀ fault, (do (← Node.ofText source options).toText options) ≠ .error fault := by
      intro fault failed
      cases success.symm.trans failed
    exact ⟨⟨fun ⟨fault, failed⟩ => absurd failed (never fault), fun below => absurd below deep⟩,
      fun fault failed => absurd failed (never fault)⟩

/-- The outer groups stay open behind their lines and the innermost one does not, so the reader stops
at none of them under a limit of two. -/
theorem toText_fails_iff_too_deep_broken_lines :
    let word (text : String) (valid : isAtom text.toList = true) : Atom := ⟨text.toList, valid⟩
    let definition : Definition := ⟨word "T" (by decide), by decide, ⟨.sequence, by decide⟩,
      [.group [word "a" (by decide)] ⟨.choice, by decide⟩
        [.group [word "b" (by decide)] ⟨.set, by decide⟩ [.plain (word "x" (by decide)) []] []] []]⟩
    let source : Text := [] ++ "T ::= SEQUENCE \x7b\n a CHOICE \x7b\n b SET \x7b x \x7d\n\x7d \x7d".toList
    let toText (options : Options) := do (← Node.ofText source options).toText options
    definition.isFilled = true ∧ Definition.Spelled [definition] source ∧
      (∃ fault, toText { maxDepth := 2 } = .error fault) ∧
      ¬∃ fault, toText { maxDepth := 3 } = .error fault := by
  intro word definition source toText
  have filled : definition.isFilled = true := by decide
  have spelled : Definition.Spelled [definition] source := by
    refine .last (by decide) ((definition.spelledBy_iff _).mpr ⟨" ".toList,
      " SEQUENCE \x7b\n a CHOICE \x7b\n b SET \x7b x \x7d\n\x7d \x7d".toList, ?_, by decide, ?_⟩)
    · decide +kernel
    · decide +kernel
  refine ⟨filled, spelled, ?_, ?_⟩
  · exact (toText_fails_iff_too_deep definition source { maxDepth := 2 } filled spelled
      (by decide)).1.mpr (by decide)
  · exact fun failed => absurd ((toText_fails_iff_too_deep definition source { maxDepth := 3 } filled
      spelled (by decide)).1.mp failed) (by decide)

end AsnLayout
