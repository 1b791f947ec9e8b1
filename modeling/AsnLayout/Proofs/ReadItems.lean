import AsnLayout.Proofs.Headings
import AsnLayout.Proofs.NeatLines

/-!
# Items as they were read

What the reader has made sure of about an item of a schema: a definition has a name, a type without
a group is whole and no brace follows it, and the group of any other definition is of the kind that
its header says.
-/

set_option autoImplicit false

namespace AsnLayout

/-! ## First characters -/

namespace Text

theorem head?_trim {c : Char} (solid : isBlank c = false) (t : Text) :
    (trim (c :: t)).head? = some c := by
  rw [trim, trimStart_of_not_blank solid]
  have ends := trimEnd_append_mark solid [] t
  rw [List.nil_append, List.nil_append] at ends
  rw [ends]
  rfl

theorem isBlank_of_head?_trim {c : Char} {t : Text} (head : (trim t).head? = some c) :
    isBlank c = false := by
  obtain ⟨rest, starts⟩ := List.head?_eq_some_iff.mp head
  obtain ⟨back, -, cut⟩ := exists_blank_trimEnd (trimStart t)
  rw [← trim, starts] at cut
  have first := List.head?_dropWhile_not isBlank t
  rw [show t.dropWhile isBlank = trimStart t from rfl, cut] at first
  simpa using first

/-- A text that starts with no blank keeps its first character when blanks are set anew. -/
theorem Reblanked.head?_trim {loose : Bool} {c : Char} {t t' : Text}
    (same : Reblanked loose (c :: t) t') (solid : isBlank c = false) :
    (trim t').head? = some c := by
  generalize whole : c :: t = s at same
  induction same with
  | nil => cases whole
  | keep d later ih =>
    cases whole
    exact Text.head?_trim solid _
  | blank blank later ih =>
    cases whole
    rw [blank] at solid
    cases solid
  | drop blank blank' later ih =>
    cases whole
    rw [blank] at solid
    cases solid
  | before isLoose mark later ih =>
    rw [trim_space_cons]
    exact ih whole
  | behind isLoose mark later ih =>
    cases whole
    exact Text.head?_trim solid _

theorem head?_neat {c : Char} (solid : isBlank c = false) (t : Text) :
    (neat (c :: t)).head? = some c := by
  obtain ⟨t', same, trimmed⟩ := reblanked_neat (c :: t)
  rw [trimmed]
  exact same.head?_trim solid

theorem prefix_memberForm (t : Text) : memberForm t <+: neat t :=
  ⟨_, List.rdropWhile_append_rtakeWhile ..⟩

theorem head?_memberForm {c : Char} {t : Text} (solid : isBlank c = false)
    (filled : memberForm (c :: t) ≠ []) : (memberForm (c :: t)).head? = some c := by
  obtain ⟨rest, cut⟩ := prefix_memberForm (c :: t)
  cases form : memberForm (c :: t) with
  | nil => exact absurd form filled
  | cons d later =>
    have head := head?_neat solid t
    rw [← cut, form] at head
    exact head

theorem head?_codeLine {line : Text} (noRemark : Reader.isRemark false line = false) :
    (codeLine (trim line)).code.head? = (trim line).head? := by
  unfold codeLine
  split
  · rfl
  · rename_i index found
    obtain ⟨front, rest, cut, size, -, -⟩ := Quoting.exists_of_commentIndex? found
    cases front with
    | nil =>
      have starts : isLineComment line = true := by
        rw [isLineComment, cut]
        rfl
      simp [Reader.isRemark, starts] at noRemark
    | cons c later =>
      have solid : isBlank c = false := isBlank_of_head?_trim (t := line) (by rw [cut]; rfl)
      have ends := trimEnd_append_mark solid [] later
      rw [List.nil_append, List.nil_append] at ends
      rw [cut, ← size, List.take_left, ends]
      rfl

theorem head?_of_isRemark {line : Text} (remark : Reader.isRemark false line = true) :
    (trim line).head? = some '-' := by
  have starts : ∀ c : Char, startsWith (trim line) ['-', c] = true →
      (trim line).head? = some '-' := by
    intro c starts
    obtain ⟨rest, start⟩ := List.isPrefixOf_iff_prefix.mp starts
    rw [← start]
    rfl
  rw [Reader.isRemark, Bool.false_or, Bool.or_eq_true] at remark
  exact remark.elim (starts '-') (starts '*')

end Text

namespace Reader

theorem bracesNext_of_head? {row : Text} {c : Char} (head : (Text.trim row).head? = some c)
    (rest : List Text) : bracesNext (row :: rest) = decide (c = '{') := by
  obtain ⟨later, starts⟩ := List.head?_eq_some_iff.mp head
  have solid := Text.isBlank_of_head?_trim head
  have seen : Text.isBlankText row = false := by
    rw [← Text.isBlankText_trim, starts]
    exact Text.isBlankText_cons later solid
  rw [bracesNext, seen, if_neg (by simp), starts]
  by_cases brace : c = '{'
  · simp [brace, Text.startsWith]
  · simp [Text.startsWith, List.isPrefixOf, Ne.symm brace, brace]

/-! ## Whole types -/

/-- Whether a type ends on its lines: no group is left open. -/
def isWhole (code : Text) : Bool :=
  match shapeOf code with
  | .plain | .inline _ _ _ => true
  | .opened _ _ | .unbalanced => false

theorem isSome_closeIndex?_brackets (q : Quoting) (nested : Nat) (t : Text) :
    (closeIndex? nested (q.marks t)).isSome =
      (closeIndex? nested ((q.brackets t).map (⟨·, true⟩))).isSome := by
  induction t generalizing q nested with
  | nil => rfl
  | cons c rest ih =>
    rw [Quoting.marks, Quoting.brackets_cons]
    by_cases bracket : (q.exposes c && isBracket c) = true
    · obtain ⟨shown, isBracket⟩ := Bool.and_eq_true_iff.mp bracket
      rw [if_pos bracket, List.singleton_append, List.map_cons, shown]
      cases nested <;>
      · simp only [closeIndex?]
        split
        · simp only [Option.isSome_map, ih]
        · split
          · simp only [Option.isSome_map, ih]
          · simp only [Option.isSome_map, ih]
    · have other : ∀ brace : Char, isBracket brace = true →
          Mark.is ⟨c, q.exposes c⟩ brace = false := by
        intro brace isBrace
        rw [Mark.is, Bool.eq_false_iff]
        intro both
        simp only [Bool.and_eq_true, decide_eq_true_eq] at both
        rw [both.1, both.2, isBrace] at bracket
        exact bracket rfl
      rw [if_neg bracket, List.nil_append]
      cases nested <;>
      · simp only [closeIndex?, other '{' rfl, other '}' rfl, Bool.false_eq_true, if_false,
          Option.isSome_map]
        exact ih _ _

theorem isWhole_eq (t : Text) : isWhole t =
    (decide ('{' ∉ Text.brackets t) ||
      (closeIndex? 0 ((((Text.brackets t).dropWhile (· ≠ '{')).tail).map (⟨·, true⟩))).isSome &&
        decide (Text.braceBalance t ≤ 0)) := by
  cases found : Text.findExposed? t (· = '{') with
  | none =>
    have absent : '{' ∉ Text.brackets t := by
      rw [← Text.hasBrace_iff, hasBrace, found]
      simp
    rw [isWhole, shapeOf, found]
    simp [absent]
  | some brace =>
    obtain ⟨front, c, back, rfl, rfl, isBrace⟩ := Text.findExposed?_eq_some _ _ _ found
    have isBrace : c = '{' := by simpa using isBrace
    subst isBrace
    obtain ⟨shown, absent⟩ := Text.findExposed?_brace_eq_some.mp found
    have cut : Text.brackets (front ++ '{' :: back) =
        Text.brackets front ++ '{' :: Text.brackets back := Text.brackets_cut shown (by decide)
    have behind : ((Text.brackets (front ++ '{' :: back)).dropWhile (· ≠ '{')).tail =
        Text.brackets back := by
      rw [cut, List.dropWhile_append_of_pos]
      · rfl
      · intro c member
        rw [decide_eq_true_eq]
        rintro rfl
        exact absent member
    have ends : (Text.groupEnd? back).isSome =
        (closeIndex? 0 ((Text.brackets back).map (⟨·, true⟩))).isSome :=
      isSome_closeIndex?_brackets {} 0 back
    have some : '{' ∈ Text.brackets (front ++ '{' :: back) := by simp [cut]
    have inside : (front ++ '{' :: back).drop (front.length + 1) = back := by simp
    rw [behind, ← ends, isWhole, shapeOf, found]
    simp only [inside, some, not_true_eq_false, decide_false, Bool.false_or]
    cases Text.groupEnd? back with
    | none => rfl
    | some close =>
      simp only [Option.isSome_some, Bool.true_and]
      by_cases positive : 0 < Text.braceBalance (front ++ '{' :: back)
      · simp [positive]
      · have small : Text.braceBalance (front ++ '{' :: back) ≤ 0 := Int.not_lt.mp positive
        rw [if_neg positive, decide_eq_true small]
        split
        · rfl
        · rfl
        · rename_i shape
          split at shape <;> cases shape
        · rename_i shape
          split at shape <;> cases shape

end Reader

/-! ## Names -/

namespace Text

structure IsName (name : Text) : Prop where
  starts : ∃ c rest, name = c :: rest ∧ isBlank c = false
  solid : ∃ c ∈ name, isBlank c = false ∧ c ≠ ','
  noSign : contains name assignmentSign = false

theorem contains_of_cutAt? {mark t before after : Text} (filled : mark ≠ [])
    (cut : cutAt? mark t = some (before, after)) : contains before mark = false := by
  induction t generalizing before with
  | nil => simp [cutAt?, filled] at cut
  | cons c rest ih =>
    rw [cutAt?] at cut
    split at cut
    · cases cut
      simp [contains, cutAt?, filled]
    · rename_i noStart
      obtain ⟨⟨front, back⟩, found, same⟩ := Option.map_eq_some_iff.mp cut
      cases same
      have later := ih found
      rw [contains, cutAt?, if_neg]
      · rw [contains] at later
        simpa using later
      · intro starts
        have short : c :: front <+: c :: rest :=
          ⟨mark ++ after, by rw [eq_of_cutAt? found]; simp⟩
        exact noStart (List.isPrefixOf_iff_prefix.mpr
          ((List.isPrefixOf_iff_prefix.mp starts).trans short))

theorem isName_memberForm {t : Text} (filled : memberForm t ≠ [])
    (absent : contains t assignmentSign = false) : IsName (memberForm t) := by
  have mark : assignmentSign ≠ [] := by decide
  refine ⟨?_, ?_, ?_⟩
  · obtain ⟨c, rest, form⟩ := List.exists_cons_of_ne_nil filled
    refine ⟨c, rest, form, ?_⟩
    obtain ⟨more, cut⟩ := prefix_memberForm t
    obtain ⟨t', -, trimmed⟩ := reblanked_neat t
    rw [form, trimmed] at cut
    exact @isBlank_of_head?_trim c t' (by rw [← cut]; rfl)
  · have last := List.rdropWhile_last_not (fun c => c = ',' || isBlank c) (neat t) filled
    simp only [Bool.or_eq_true, decide_eq_true_eq, not_or, Bool.not_eq_true] at last
    exact ⟨_, List.getLast_mem filled, last.2, last.1⟩
  · rw [Bool.eq_false_iff]
    intro holds
    have inNeat := ((contains_iff mark _).mp holds).trans (prefix_memberForm t).isInfix
    have kept := contains_neat absent
    rw [(contains_iff mark _).mpr inNeat] at kept
    cases kept

end Text

namespace Reader

theorem isName_definitionName {line : Text} (named : definitionName line ≠ [])
    (defines : LineKind.ofLine false line = .typeDefinition)
    (noRemark : isRemark false line = false) :
    Text.IsName (definitionName line) ∧ (definitionName line).head? = (Text.trim line).head? := by
  have holds := Tally.contains_of_typeDefinition false line defines
  rw [Text.contains, Option.isSome_iff_exists] at holds
  obtain ⟨⟨before, after⟩, cut⟩ := holds
  have name : definitionName line = Text.memberForm before := by
    rw [definitionName, definitionSides, cut]
    rfl
  rw [name] at named ⊢
  refine ⟨Text.isName_memberForm named (Text.contains_of_cutAt? (by decide) cut), ?_⟩
  have start := Text.head?_codeLine noRemark
  rw [Text.eq_of_cutAt? cut] at start
  cases before with
  | nil => exact absurd rfl named
  | cons c rest =>
    have solid := Text.isBlank_of_head?_trim start.symm
    exact (Text.head?_memberForm solid named).trans start

/-! ## Types -/

variable {limits : Limits}

theorem codeRun_seen {reader after : Reader} {number count : Nat} {lines : List Text}
    {line : CodeLine} (run : CodeRun limits reader number lines line count after) :
    Text.isBlankText line.code = false := by
  induction run with
  | comment room isComment later ih => exact ih
  | blank room noComment isBlank later ih => exact ih
  | @code reader number line rest room noComment noBlank noSign =>
    have outside : reader.inBlock = false := by
      simp only [isRemark, Bool.or_eq_false_iff] at noComment
      exact noComment.1.1
    rw [outside] at noComment
    have same := Text.head?_codeLine noComment
    cases start : Text.trim line with
    | nil =>
      rw [← Text.isBlankText_trim, start] at noBlank
      cases noBlank
    | cons c later =>
      rw [start] at same
      obtain ⟨more, code⟩ := List.head?_eq_some_iff.mp same
      have solid : Text.isBlank c = false :=
        @Text.isBlank_of_head?_trim c line (by rw [start]; rfl)
      rw [code]
      exact Text.isBlankText_cons more solid

theorem codeRun_brace {reader after : Reader} {number count : Nat} {lines : List Text}
    {line : CodeLine} (run : CodeRun limits reader number lines line count after)
    (outside : reader.inBlock = false) (braces : bracesNext lines = true) :
    ∃ rest, line.code = '{' :: rest := by
  induction run with
  | @comment reader number line rest code count after room isComment later ih =>
    rw [outside] at isComment
    rw [bracesNext_of_head? (Text.head?_of_isRemark isComment)] at braces
    cases braces
  | blank room noComment isBlank later ih =>
    rw [bracesNext, if_pos isBlank] at braces
    exact ih outside braces
  | @code reader number line rest room noComment noBlank noSign =>
    rw [bracesNext, if_neg (by simp [noBlank])] at braces
    rw [outside] at noComment
    obtain ⟨more, start⟩ := List.isPrefixOf_iff_prefix.mp braces
    refine List.head?_eq_some_iff.mp ?_
    rw [Text.head?_codeLine noComment, ← start]
    rfl

/-- A type that has been read has code, and a brace that follows it belongs to it. -/
theorem readType_ends {definition : Nat} {type result : TypeText} {rest : List Text}
    {before after : Reader} {state : Bool} {first second : Text}
    (read : Reading.Yields (readType limits definition type rest) before result after)
    (known : CodeRead before type.code type.comment (rest.drop type.count) state first second)
    (begun : type.code = [] ∨ Text.isBlankText type.code = false) :
    Text.isBlankText result.code = false ∧
      (hasBrace result.code = true ∨ bracesNext (rest.drop result.count) = false) := by
  rw [yields_readType] at read
  obtain ⟨middle, between, early, late⟩ := read
  have read : Text.isBlankText middle.code = false ∧ ∃ first' second', first ++ second =
      first' ++ second' ∧ CodeRead between middle.code middle.comment (rest.drop middle.count)
        state first' second' := by
    split at early
    · rename_i empty
      obtain ⟨line, count, run, rfl⟩ := early
      refine ⟨?_, codeRead_extend ⟨first, second, rfl, known⟩ run⟩
      simp only [TypeText.extend, empty, if_true]
      exact codeRun_seen run
    · rename_i filled
      obtain ⟨rfl, rfl⟩ := early
      exact ⟨begun.resolve_left filled, first, second, rfl, known⟩
  obtain ⟨seen, first', second', -, known⟩ := read
  split at late
  · rename_i braces
    obtain ⟨line, count, run, rfl⟩ := late
    have filled : middle.code ≠ [] := by
      intro empty
      rw [empty] at seen
      cases seen
    obtain ⟨more, starts⟩ := codeRun_brace run known.outside (Bool.and_eq_true_iff.mp braces).2
    have code : (middle.extend line count).code = middle.code ++ ' ' :: '{' :: more := by
      simp only [TypeText.extend, if_neg filled, starts]
    rw [code]
    refine ⟨?_, .inl ?_⟩
    · rw [Text.isBlankText_append, seen]
      rfl
    · have apart : Text.brackets (middle.code ++ ' ' :: '{' :: more) =
          Text.brackets middle.code ++ Text.brackets ('{' :: more) :=
        Text.signs_blank tellsApart_isBracket known.code.tame.closed (by decide)
      have brace : Text.brackets ('{' :: more) = '{' :: Text.brackets more :=
        @Text.brackets_cut '{' [] more rfl (by decide)
      rw [Text.hasBrace_iff, apart, brace]
      simp
  · rename_i whole
    obtain ⟨rfl, rfl⟩ := late
    refine ⟨seen, ?_⟩
    simp only [Bool.and_eq_true, Bool.not_eq_true', not_and, Bool.not_eq_true] at whole
    cases braced : hasBrace result.code with
    | true => exact .inl rfl
    | false => exact .inr (whole braced)

/-! ## Bodies -/

/-- A definition that has been read to its end has the header it began with, and the groups in it
are of the kinds that their headers say. -/
theorem titled_bodyRun {reader after : Reader} {body : Body} {number count : Nat}
    {lines : List Text} {node definition : Node} {held held' : Text} {state : Bool}
    (run : BodyRun limits reader body number lines node count after)
    (source : Text.SourceLines reader.inBlock lines held' state)
    (bears : body.Bears reader.inBlock [] held) (clean : body.Clean)
    (sound : body.Sound blind definition) (titled : body.Titled definition) :
    (Body.Progress.closed node).Titled definition := by
  induction run generalizing held held' with
  | @comment reader body number line rest node count after room isComment later ih =>
    have remark := (LineKind.ofLine_eq_comment reader.inBlock line).mp isComment
    obtain ⟨single, source'⟩ := source.of_remark remark
    exact ih source' (bears.readComment remark single number) (clean.readComment _ _ _)
      (Tally.body_readComment _ _ _ _ sound (fun _ => rfl)).2 (titled.readComment clean ..)
  | @blank reader body number line rest node count after room kind isBlank later ih =>
    have noRemark := isRemark_of_mayStandInBody kind
    obtain ⟨outside, source'⟩ := source.of_blank noRemark isBlank
    have same := inBlock_pass noRemark outside
    rw [outside] at bears
    rw [← same] at source' bears
    exact ih source' bears clean sound titled
  | @code reader body next number line rest node count after room kind noBlank read later ih =>
    have noRemark := isRemark_of_mayStandInBody kind
    obtain ⟨outside, first, second, rfl, code, source'⟩ := source.of_code noRemark
    have same := inBlock_pass noRemark outside
    rw [outside] at bears
    cases Body.titled_readLine read titled bears clean code.hides code.isNoted sound with
    | more titled' =>
      cases Body.bears_readLine read bears clean code.hides code.isNoted sound with
      | more bears' clean' =>
        rw [← same] at source' bears'
        exact ih source' bears' clean'
          (Tally.progress_readLine _ _ _ _ _ sound (fun _ => rfl) read).2 titled'
  | @close reader body number line rest node room kind noBlank read =>
    have noRemark := isRemark_of_mayStandInBody kind
    obtain ⟨outside, first, second, rfl, code, source'⟩ := source.of_code noRemark
    rw [outside] at bears
    exact Body.titled_readLine read titled bears clean code.hides code.isNoted sound

theorem titled_start {node : Node} {limit : Int} {code held held' : Text}
    {progress : Body.Progress} (started : Body.start node limit code = .ok progress)
    (defines : node.kind = .typeDefinition)
    (bare : node.children = [] ∧ node.trailer = [] ∧ node.closingComment = none)
    (kind : node.groupKind = some (GroupKind.ofHeader (node.header.getD [])))
    (header : Text.Hides (node.header.getD []) held) (noted : IsNoted node.openingComment)
    (hides : Text.Hides code held') : progress.Titled node := by
  have begins : ∀ (opened : Node) (anchor : Anchor), opened.kind = node.kind →
      opened.groupKind = node.groupKind → opened.header = node.header → opened.children = [] →
      anchor ≠ .member → Body.Titled node { top := { node := opened }, anchor } ∧
        OpenGroup.Lined { node := opened } := by
    intro opened anchor sameKind sameGroup sameHeader bare noMember
    have settled : Node.openBehind opened.children = 0 :=
      Node.openBehind_comments (by simp [bare])
    refine ⟨⟨⟨?_, Node.titled_of_kind ?_ bare, by simp, fun _ => .nil, fun _ => settled⟩, by simp,
      ?_, fun _ => noMember⟩, fun _ => settled.symm⟩
    · rw [sameGroup, sameHeader, kind]
    · simp [sameKind, defines]
    · rw [Body.headers, List.map_cons, sameHeader]
      exact List.suffix_refl _
  rcases Body.lineRun_of_start started with ⟨-, rfl⟩ | run
  · exact .more (begins node .nothing rfl rfl rfl bare.1 (by decide)).1
  · obtain ⟨begun, lined⟩ :=
      begins { node with openingComment := none } .opening rfl rfl rfl bare.1 (by decide)
    exact Body.titled_lineRun run begun lined rfl
      (@Body.bears_begin { node with openingComment := none } _ _ _ bare.1 header isNoted_none
        hides .opening)
      (Tally.sound_opened _ _ bare.2.1 bare.2.2 rfl (by simp)) noted

end Reader

/-! ## Definitions -/

/-- What the reader has made sure of about a definition. -/
structure Node.Defined (node : Node) : Prop where
  name : Text.IsName node.name
  form : Text.memberForm node.name = node.name
  neat : Text.neat (node.header.getD []) = node.header.getD []
  trailer : Text.neat node.trailer = node.trailer
  /-- A type that stays on its line ends there. -/
  plain : node.isPlain = true → Text.isBlankText (node.header.getD []) = false ∧
    Reader.shapeOf (node.header.getD []) = .plain
  group : node.isPlain = false → '{' ∉ Text.brackets (node.header.getD []) ∧
    node.groupKind = some (GroupKind.ofHeader (node.header.getD [])) ∧
    ∀ child ∈ node.children, child.Titled
  inline : node.isPlain = false → node.oneLine = some true →
    ∃ inside, node.inlineMembers = some (Text.members inside)
  lines : node.oneLine = some false → node.isStructured = false → node.Stepped

namespace Reader

variable {limits : Limits}

theorem isWhole_neat (t : Text) : isWhole (Text.neat t) = isWhole t := by
  rw [isWhole_eq, isWhole_eq, Text.braceBalance_eq, Text.braceBalance_eq, Text.brackets_neat]

theorem isWhole_trim (t : Text) : isWhole (Text.trim t) = isWhole t := by
  rw [isWhole_eq, isWhole_eq, Text.braceBalance_eq, Text.braceBalance_eq, Text.brackets_trim]

theorem shapeOf_brace {front back : Text}
    (opens : Text.findExposed? (front ++ '{' :: back) (· = '{') = some front.length) :
    shapeOf (front ++ '{' :: back) = match Text.groupEnd? back with
      | none => .opened (Text.neat front) back
      | some close =>
        if 0 < Text.braceBalance (front ++ '{' :: back) then .unbalanced
        else if Text.braceBalance (front ++ '{' :: back) < 0 ||
          !(GroupKind.ofHeader (Text.neat front)).isStructured then .plain
        else .inline (Text.neat front) (back.take close) (back.drop (close + 1)) := by
  have before : (front ++ '{' :: back).take front.length = front := by simp
  have behind : (front ++ '{' :: back).drop (front.length + 1) = back := by simp
  cases closes : Text.groupEnd? back with
  | none => simp only [shapeOf, opens, before, behind, closes]
  | some close => simp only [shapeOf, opens, before, behind, closes]

/-- A type without a group that is laid out has none when it is neat. -/
theorem shapeOf_neat {code : Text} (plain : shapeOf code = .plain) :
    shapeOf (Text.neat code) = .plain := by
  cases found : Text.findExposed? code (· = '{') with
  | none =>
    have none : hasBrace (Text.neat code) = false := by
      rw [Bool.eq_false_iff, ne_eq, Text.hasBrace_iff, Text.brackets_neat, ← Text.hasBrace_iff,
        hasBrace, found]
      simp
    rw [hasBrace, Option.isSome_eq_false_iff, Option.isNone_iff_eq_none] at none
    rw [shapeOf, none]
  | some brace =>
    obtain ⟨front, c, back, rfl, rfl, isBrace⟩ := Text.findExposed?_eq_some _ _ _ found
    obtain rfl : c = '{' := by simpa using isBrace
    have whole : isWhole (Text.neat (front ++ '{' :: back)) = true := by
      rw [isWhole_neat, isWhole, plain]
    obtain ⟨front', back', cut, opens, same⟩ := Text.exists_neat_brace found
    have balance : Text.braceBalance (front' ++ '{' :: back') =
        Text.braceBalance (front ++ '{' :: back) := by
      rw [← cut, Text.braceBalance_eq, Text.brackets_neat, ← Text.braceBalance_eq]
    have stays : ¬0 < Text.braceBalance (front ++ '{' :: back) ∧
        (decide (Text.braceBalance (front ++ '{' :: back) < 0) ||
          !(GroupKind.ofHeader (Text.neat front)).isStructured) = true := by
      rw [shapeOf_brace found] at plain
      split at plain
      · cases plain
      · split at plain
        · cases plain
        · rename_i few
          split at plain
          · rename_i stays
            exact ⟨few, stays⟩
          · cases plain
    rw [cut] at whole ⊢
    cases closes : Text.groupEnd? back' with
    | none =>
      rw [isWhole, shapeOf_brace opens, closes] at whole
      cases whole
    | some close =>
      simp only [shapeOf_brace opens, closes, balance, same]
      rw [if_neg stays.1, if_pos stays.2]

theorem not_mem_brackets_header {front rest : Text}
    (opens : Text.findExposed? (front ++ '{' :: rest) (· = '{') = some front.length) :
    '{' ∉ Text.brackets (Text.neat front) := by
  rw [Text.brackets_neat]
  exact (Text.findExposed?_brace_eq_some.mp opens).2

theorem defined_plainNode {type : TypeText} {node : Node} (bare : node.trailer = [])
    (isName : Text.IsName node.name) (form : Text.memberForm node.name = node.name)
    (seen : Text.isBlankText type.code = false) (shape : shapeOf type.code = .plain) :
    (plainNode node type).Defined := by
  have noGroup : (plainNode node type).isPlain = true := by
    simp [Node.isPlain, plainNode, Node.isStructured, GroupKind.isStructured]
  refine ⟨isName, form, Text.neat_neat _, ?_, fun _ => ?_, fun group => ?_, fun group => ?_,
    fun several => ?_⟩
  · rw [show (plainNode node type).trailer = [] from bare]
    rfl
  · rw [show (plainNode node type).header.getD [] = Text.neat type.code from rfl,
      Text.isBlankText_neat]
    exact ⟨seen, shapeOf_neat shape⟩
  · rw [noGroup] at group
    cases group
  · rw [noGroup] at group
    cases group
  · cases several

theorem defined_inlineNode {type : TypeText} {node : Node} {front rest inside trailer : Text}
    (bare : node.children = []) (isName : Text.IsName node.name)
    (form : Text.memberForm node.name = node.name)
    (opens : Text.findExposed? (front ++ '{' :: rest) (· = '{') = some front.length)
    (noPlain : (inlineNode node type (Text.neat front) inside trailer).isPlain ≠ true) :
    (inlineNode node type (Text.neat front) inside trailer).Defined := by
  refine ⟨isName, form, Text.neat_neat _, Text.neat_neat _, fun plain => absurd plain noPlain,
    fun _ => ⟨not_mem_brackets_header opens, rfl, ?_⟩, fun _ _ => ⟨inside, rfl⟩, fun several => ?_⟩
  · simp [inlineNode, bare]
  · cases several

/-- A definition whose group was left open on its first line keeps the header it began with, and the
groups in it are of the kinds that their headers say. -/
theorem titled_of_opened {number count : Nat} {rest : List Text} {before after : Reader}
    {type : TypeText} {node result : Node} {state : Bool} {header code : Text}
    {first second third : Text} {progress : Body.Progress}
    (run : match progress with
      | .closed closed => closed = result ∧ type.count = count ∧ before = after
      | .more body => ∃ later, BodyRun limits before body (number + 1 + type.count)
          (rest.drop type.count) result later after ∧ type.count + later = count)
    (started : Body.start (openedNode node type header) limits.depth code = .ok progress)
    (defines : node.kind = .typeDefinition)
    (bare : node.children = [] ∧ node.trailer = [] ∧ node.closingComment = none)
    (headerHides : Text.Hides header first) (codeHides : Text.Hides code second)
    (kind : (openedNode node type header).groupKind = some (GroupKind.ofHeader header))
    (outside : before.inBlock = false) (noted : IsNoted type.comment)
    (later : Text.SourceLines false (rest.drop type.count) third state) :
    (Body.Progress.closed result).Titled (openedNode node type header) ∧
      (Body.Progress.closed result).Sound blind (openedNode node type header) := by
  have sound : progress.Sound blind (openedNode node type header) :=
    (Tally.progress_start (openedNode node type header) _ _ progress bare (fun _ => rfl) started).2
  have titled := titled_start started defines bare kind headerHides noted codeHides
  cases progress with
  | closed closed =>
    obtain ⟨rfl, -, -⟩ := run
    exact ⟨titled, sound⟩
  | more body =>
    obtain ⟨more, bodyRun, -⟩ := run
    cases Body.bears_start started bare headerHides noted codeHides with
    | more bears clean =>
      cases titled with
      | more titled =>
        rw [← outside] at bears later
        exact ⟨titled_bodyRun bodyRun later bears clean sound titled,
          (Tally.text_bodyRun bodyRun (.inl fun _ _ => rfl) sound).2.1⟩

theorem defined_of_titled {node result : Node} {type : TypeText} {front rest : Text}
    (titled : (Body.Progress.closed result).Titled (openedNode node type (Text.neat front)))
    (sound : (Body.Progress.closed result).Sound blind (openedNode node type (Text.neat front)))
    (isName : Text.IsName node.name) (form : Text.memberForm node.name = node.name)
    (opens : Text.findExposed? (front ++ '{' :: rest) (· = '{') = some front.length) :
    result.Defined ∧ result.kind = node.kind ∧ result.name = node.name ∧
      result.isPlain ≠ true := by
  have same : result.head = (openedNode node type (Text.neat front)).head := sound
  simp only [Node.head, Prod.mk.injEq] at same
  obtain ⟨kind, name, several⟩ := same
  have noPlain : result.isPlain ≠ true := by simp [Node.isPlain, several, openedNode]
  cases titled with
  | closed header groupKind children lines balanced neat =>
    refine ⟨⟨?_, ?_, ?_, neat, fun plain => absurd plain noPlain, fun _ => ⟨?_, groupKind,
      children⟩, fun _ inline => ?_, lines⟩, kind, name, noPlain⟩
    · rw [name]
      exact isName
    · rw [name]
      exact form
    · rw [header]
      exact Text.neat_neat _
    · rw [header]
      exact not_mem_brackets_header opens
    · rw [several] at inline
      cases inline

/-- A definition that has been read, with the name it began with.  Where its type has no brace, none
is on the next line. -/
theorem defined_groupRun {number count : Nat} {rest : List Text} {before after : Reader}
    {type : TypeText} {node result : Node} {state : Bool} {first second : Text}
    (run : GroupRun limits number rest node type before result count after)
    (defines : node.kind = .typeDefinition)
    (bare : node.children = [] ∧ node.trailer = [] ∧ node.closingComment = none)
    (isName : Text.IsName node.name) (form : Text.memberForm node.name = node.name)
    (seen : Text.isBlankText type.code = false)
    (ends : hasBrace type.code = true ∨ bracesNext (rest.drop type.count) = false)
    (known : CodeRead before type.code type.comment (rest.drop type.count) state first second) :
    result.Defined ∧ result.kind = .typeDefinition ∧ result.name = node.name ∧
      (result.isPlain = true → hasBrace (result.header.getD []) = true ∨
        bracesNext (rest.drop count) = false) := by
  obtain ⟨outside, aside, code, noted, later⟩ := known
  unfold GroupRun at run
  split at run
  · rename_i shape
    obtain ⟨rfl, rfl, rfl⟩ := run
    refine ⟨defined_plainNode bare.2.1 isName form seen shape, defines, rfl,
      fun _ => ends.imp_left ?_⟩
    rw [show (plainNode node type).header.getD [] = Text.neat type.code from rfl,
      Text.hasBrace_iff, Text.hasBrace_iff, Text.brackets_neat]
    exact id
  · rename_i header inside shape
    obtain ⟨progress, started, run⟩ := run
    obtain ⟨front, back, rfl, headerHides, insideHides⟩ := code.shapeOf_opened shape
    obtain ⟨before, whole, opens, rfl, -⟩ := shapeOf_eq_opened _ _ _ shape
    rw [whole] at opens
    obtain ⟨titled, sound⟩ :=
      titled_of_opened run started defines bare headerHides insideHides rfl outside noted later
    obtain ⟨defined, kind, name, noPlain⟩ := defined_of_titled titled sound isName form opens
    exact ⟨defined, kind.trans defines, name, fun plain => absurd plain noPlain⟩
  · rename_i header inside trailer shape
    obtain ⟨rfl, rfl, rfl⟩ := run
    obtain ⟨front, whole, opens, rfl, -, structured⟩ := shapeOf_eq_inline _ _ _ _ shape
    rw [whole] at opens
    have noPlain : (inlineNode node type (Text.neat front) inside trailer).isPlain ≠ true := by
      simp [Node.isPlain, inlineNode, Node.isStructured, structured]
    exact ⟨defined_inlineNode bare.1 isName form opens noPlain, defines, rfl,
      fun plain => absurd plain noPlain⟩
  · exact run.elim

theorem defined_readDefinition {number count : Nat} {line : Text} {rest : List Text}
    {before after : Reader} {node : Node} {first held : Text} {state : Bool}
    (read : Reading.Yields (readDefinition limits number line rest) before (node, count) after)
    (settled : before.setAside = []) (outside : before.inBlock = false)
    (source : Text.IsSource line first) (defines : LineKind.ofLine false line = .typeDefinition)
    (later : Text.SourceLines false rest held state) :
    node.Defined ∧ node.kind = .typeDefinition ∧ node.name.head? = (Text.trim line).head? ∧
      (node.isPlain = true → hasBrace (node.header.getD []) = true ∨
        bracesNext (rest.drop count) = false) := by
  rw [yields_readDefinition] at read
  obtain ⟨named, type, between, readType, run⟩ := read
  obtain ⟨left, right, rfl, leftHides, rightHides⟩ :=
    source.hides.definitionSides (source.assigned defines)
  have known : CodeRead before (firstType line).code (firstType line).comment
      (rest.drop (firstType line).count) state right held :=
    ⟨outside, by rw [settled]; exact .done, rightHides.trim, source.isNoted, later⟩
  obtain ⟨typeHeld, behind, whole, read⟩ := codeRead_readType readType ⟨right, held, rfl, known⟩
  have begun : (firstType line).code = [] ∨ Text.isBlankText (firstType line).code = false := by
    cases blank : Text.isBlankText (definitionSides line).2 with
    | true => exact .inl (Text.trim_of_blank blank)
    | false => exact .inr (by rw [firstType, Text.isBlankText_trim, blank])
  obtain ⟨seen, ends⟩ := readType_ends readType known begun
  obtain ⟨isName, starts⟩ := isName_definitionName named defines source.noRemark
  have same : (definitionNode between number line type).name = definitionName line := by
    simp only [definitionNode]
  rw [← same] at isName starts
  obtain ⟨defined, kind, name, onward⟩ :=
    defined_groupRun run rfl ⟨rfl, rfl, rfl⟩ isName (Text.memberForm_memberForm _) seen ends read
  rw [← name] at starts
  exact ⟨defined, kind, starts, onward⟩

end Reader

end AsnLayout
