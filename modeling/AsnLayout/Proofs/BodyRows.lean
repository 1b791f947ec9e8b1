import AsnLayout.Proofs.QuotedLayout
import AsnLayout.Proofs.Waiting

/-!
# Rows of a body

A row of a layout that stands in a body is read as what it was laid out from: a member, the opening
or the closing of a group, or a line that is kept.  Rows lead a body from one state to another, so
that it is read to its end if the rows behind them are.
-/

set_option autoImplicit false

namespace AsnLayout

namespace Body

variable {limit : Int} {comment : Option Text} {number : Nat} {body next : Body}
  {waiting inner left rest outer : List Char} {ready : Bool}

/-! ## Lines -/

theorem Runs.readLine {code : Text} (runs : Runs limit comment number {} body.startLine code next) :
    body.readLine limit ⟨code, comment⟩ number = .ok (.more (next.endLine comment number)) := by
  have read := runs.read []
  rw [List.append_nil] at read
  exact read

theorem Rests.readMember {t held : Text} (rests : body.Rests waiting ready)
    (hides : Text.Hides t held) (paired : Text.nest [] (Text.brackets t) = some [])
    (comma : Bool) :
    ∃ next, body.readLine limit ⟨Text.trim (Layout.withComma t comma), comment⟩ number =
        .ok (.more next) ∧ next.Rests waiting comma := by
  cases comma with
  | false =>
    obtain ⟨next, runs, later⟩ := @Rests.run limit comment number {} body.startLine waiting ready
      (Text.trim t) rests.startLine ((congrArg _ (Text.brackets_trim t)).trans paired)
    exact ⟨_, runs.readLine, later.endLine ..⟩
  | true =>
    have trimmed : Text.trim (t ++ [',']) = Text.trimStart t ++ [','] := by
      rw [Text.trim, Text.trimStart_append_mark (by decide)]
      exact Text.trimEnd_append_mark (by decide) _ []
    have shown : (Quoting.after {} (Text.trimStart t)).exposes ',' = true := by
      simp [Quoting.exposes, Quoting.isQuote, hides.trimStart.tame.closed]
    obtain ⟨between, runs, here⟩ := @Rests.run limit comment number {} body.startLine waiting
      ready (Text.trimStart t) rests.startLine
        ((congrArg _ (Text.brackets_trimStart t)).trans paired)
    obtain ⟨next, step, later⟩ :=
      @Rests.comma limit comment number _ between waiting false here shown
    refine ⟨next.endLine comment number, ?_, later.endLine ..⟩
    rw [Layout.withComma, if_pos rfl, trimmed, Body.readLine, runs.read, step]
    rfl

/-- The row that opens a group has the signs and the words of its header before the brace. -/
theorem exists_trim_opener {header held : Text} (hides : Text.Hides header held) :
    ∃ front, Text.trim (Layout.opener header) = front ++ ['{'] ∧ Text.Hides front held ∧
      (∀ test, Text.TellsApart test → Text.signs test front = Text.signs test header) ∧
      (Text.Calm header → GroupKind.ofHeader (Text.neat front) = GroupKind.ofHeader header) := by
  obtain ⟨front, whole, fits, spaced⟩ : ∃ front,
      Text.trim (Layout.opener header) = Text.trimStart front ++ ['{'] ∧ Text.Hides front held ∧
      (front = header ∨ front = header ++ [' ']) := by
    unfold Layout.opener
    split
    · rename_i empty
      exact ⟨[], rfl, empty ▸ hides, .inl empty.symm⟩
    · refine ⟨header ++ [' '], ?_, hides.append_unmarked (by decide), .inr rfl⟩
      have split : header ++ [' ', '{'] = (header ++ [' ']) ++ ['{'] := by simp
      rw [Text.trim, split, Text.trimStart_append_mark (by decide)]
      exact Text.trimEnd_append_mark (by decide) _ []
  refine ⟨Text.trimStart front, whole, fits.trimStart, fun test apart => ?_, fun calm => ?_⟩
  · rw [Text.signs_trimStart apart]
    rcases spaced with rfl | rfl
    · rfl
    · rw [Text.signs_blank apart hides.tame.closed (by decide)]
      exact List.append_nil _
  · have words : Text.words (Text.trimStart front) = Text.words header := by
      rw [← Text.words_trim, Text.trim_trimStart, Text.words_trim]
      rcases spaced with rfl | rfl
      · rfl
      · rw [Text.words_append_blank (by decide)]
        exact List.append_nil _
    have calm' : Text.Calm front := by
      rcases spaced with rfl | rfl
      · exact calm
      · exact (Text.Calm.append_iff (by decide +kernel) (by decide)).mpr ⟨calm, .nil⟩
    have noSign : ¬Text.assignmentSign <:+: Text.trimStart front := fun holds =>
      (Text.contains_iff (by decide) front).not.mp (by simp [calm'.noSign])
        (holds.trans (List.dropWhile_suffix _).isInfix)
    rw [GroupKind.ofHeader, GroupKind.ofHeader, Text.lastWord, Text.lastWord,
      Text.words_neat noSign, words]

/-- A row that opens a group; where the group is not structured, its lines will be kept. -/
theorem Rests.readOpener {header held : Text} (rests : body.Rests waiting true)
    (hides : Text.Hides header held)
    (nested : Text.nest [] (Text.brackets header) = some outer) (absent : '}' ∉ outer)
    (room : (waiting.count '}' : Int) < limit) :
    ∃ next, body.readLine limit ⟨Text.trim (Layout.opener header), comment⟩ number =
        .ok (.more next) ∧ next.Rests ('}' :: (outer ++ waiting)) true ∧
      (Text.Calm header → (GroupKind.ofHeader header).isStructured = false →
        Text.isUncut header = true → next.Counts [] ('}' :: (outer ++ waiting))) := by
  obtain ⟨front, whole, fits, same, kind⟩ := exists_trim_opener hides
  have shown : (Quoting.after {} front).exposes '{' = true := by
    simp [Quoting.exposes, Quoting.isQuote, fits.tame.closed]
  obtain ⟨next, read, later, counts⟩ := @Rests.enter limit comment number {} body.startLine
    waiting outer front rests.startLine
    ((congrArg _ (same _ tellsApart_isBracket)).trans nested) absent shown room
  refine ⟨next.endLine comment number, ?_, later.endLine .., fun calm unstructured uncut => ?_⟩
  · rw [whole]
    exact read
  · refine (counts ?_ ?_).of_stance (stance_endLine ..)
    · rw [kind calm]
      exact unstructured
    · exact (congrArg _ (same _ Text.tellsApart_isDivider)).trans uncut

theorem exists_trim_closer {trailer held : Text} (hides : Text.Hides trailer held) (comma : Bool) :
    ∃ tail, Text.trim (Layout.closer trailer comma) = '}' :: Layout.withComma tail comma ∧
      Text.Hides tail held ∧ Text.brackets tail = Text.brackets trailer := by
  obtain ⟨tail, whole, fits, same⟩ : ∃ tail,
      Layout.closer trailer comma = '}' :: Layout.withComma tail comma ∧ Text.Hides tail held ∧
      Text.brackets tail = Text.brackets trailer := by
    rw [Layout.closer]
    by_cases empty : trailer = []
    · subst empty
      refine ⟨[], ?_, hides, rfl⟩
      cases comma <;> rfl
    · refine ⟨' ' :: trailer, ?_, ?_, ?_⟩
      · rw [if_neg empty]
        cases comma <;> rfl
      · exact Text.Hides.nil.space hides
      · exact @Text.signs_blank _ tellsApart_isBracket ' ' [] trailer rfl (by decide)
  have solid : Text.isBlank '}' = false := by decide
  rw [whole, Text.trim, Text.trimStart_of_not_blank solid]
  cases comma with
  | true =>
    refine ⟨tail, ?_, fits, same⟩
    exact Text.trimEnd_append_mark (by decide) ('}' :: tail) []
  | false =>
    refine ⟨Text.trimEnd tail, Text.trimEnd_append_mark solid [] tail,
      fits.trimEndBy (by decide), ?_⟩
    rw [Text.brackets_trimEnd, same]

theorem Rests.readCloser {trailer held : Text}
    (rests : body.Rests ('}' :: (outer ++ waiting)) ready) (hides : Text.Hides trailer held)
    (absent : '}' ∉ outer) (inside : waiting ≠ [])
    (nested : Text.nest outer (Text.brackets trailer) = some []) (comma : Bool) :
    ∃ next, body.readLine limit ⟨Text.trim (Layout.closer trailer comma), comment⟩ number =
        .ok (.more next) ∧ next.Rests waiting comma := by
  obtain ⟨tail, whole, fits, same⟩ := exists_trim_closer hides comma
  obtain ⟨between, read, here⟩ := @Rests.leave limit comment number body.startLine waiting outer
    ready tail rests.startLine absent inside (same ▸ nested)
  rw [whole, Body.readLine]
  cases comma with
  | false =>
    refine ⟨between.endLine comment number, ?_, here.endLine ..⟩
    have read := read []
    rw [List.append_nil] at read
    exact read
  | true =>
    have shown : (Quoting.after {} tail).exposes ',' = true := by
      simp [Quoting.exposes, Quoting.isQuote, fits.tame.closed]
    obtain ⟨next, step, later⟩ :=
      @Rests.comma limit comment number _ between waiting false here shown
    refine ⟨next.endLine comment number, ?_, later.endLine ..⟩
    exact (read [',']).trans (step [])

theorem Rests.readEnd {trailer held : Text} (rests : body.Rests ['}'] ready)
    (hides : Text.Hides trailer held) (balanced : Text.braceBalance trailer = 0) :
    ∃ node, body.readLine limit ⟨Text.trim (Layout.closer trailer false), comment⟩ number =
      .ok (.closed node) := by
  obtain ⟨tail, whole, -, same⟩ := exists_trim_closer hides false
  rw [whole]
  refine rests.startLine.exists_closed ?_
  rw [Layout.withComma, if_neg (by simp), Text.braceBalance_eq, same, ← Text.braceBalance_eq,
    balanced]

theorem Counts.readKept {t : Text} (counting : body.Counts inner rest)
    (nested : Text.nest inner (Text.brackets t) = some left) :
    ∃ next, body.readLine limit ⟨t, comment⟩ number = .ok (.more next) ∧
      next.Counts left rest := by
  have start : body.startLine.Counts inner rest := counting.of_stance rfl
  obtain ⟨next, runs, later⟩ := @Counts.run limit comment number {} body.startLine inner left rest
    t start nested
  exact ⟨_, runs.readLine, later.of_stance (stance_endLine ..)⟩

end Body

/-! ## Rows -/

namespace Layout

theorem trim_beside (code : Text) (comment : Option Text) :
    Text.trim (beside code comment) = Text.trim (remarked code comment) := by
  cases comment with
  | none => rfl
  | some note =>
    by_cases empty : note = []
    · simp [beside, remarked, empty]
    · by_cases none : code = []
      · simp only [beside, remarked, empty, none, if_true, if_false]
        exact (Text.trim_space_cons note).symm
      · simp [beside, remarked, empty, none]

end Layout

namespace Text

theorem codeLine_remarked {code held : Text} {comment : Option Text} (hides : Hides code held)
    (noted : IsNoted comment) :
    codeLine (trim (Layout.remarked code comment)) = ⟨trim code, comment⟩ := by
  cases comment with
  | none =>
    rw [Layout.remarked, codeLine, Quoting.commentIndex?_of_hasSign hides.trim.tame.noSign]
  | some note =>
    obtain ⟨⟨rest, rfl⟩, -, trimmed⟩ := noted note rfl
    have whole : Layout.remarked code (some ('-' :: '-' :: rest)) =
      code ++ ' ' :: '-' :: '-' :: rest := rfl
    have solid : isBlank '-' = false := by decide
    have ends : trimEnd ('-' :: '-' :: rest) = '-' :: '-' :: trimEnd rest :=
      trimEnd_append_mark solid ['-'] rest
    have kept : trimEnd rest = rest := by
      rw [trim, trimStart_of_not_blank solid, ends] at trimmed
      exact (List.cons.inj (List.cons.inj trimmed).2).2
    rw [whole]
    by_cases blank : isBlankText code = true
    · rw [trim_append_of_blank blank, trim_space_cons, trimmed, trim_of_blank blank]
      exact congrArg (CodeLine.mk [] <| some ·) trimmed
    · have tame := hides.trimStart.tame
      have split : trimStart code ++ ' ' :: '-' :: '-' :: rest =
          (trimStart code ++ [' ']) ++ '-' :: '-' :: rest := by simp
      have length : (trimStart code).length + 1 = (trimStart code ++ [' ']).length := by simp
      rw [trim_remarked (by simpa using blank), kept, codeLine,
        Quoting.commentIndex?_behind (Quoting.commentIndex?_of_hasSign tame.noSign) tame.closed]
      simp only [split, length, List.take_left, List.drop_left, trimmed]
      exact congrArg (CodeLine.mk · _) (List.rdropWhile_concat_pos _ _ _ (by decide))

theorem code_remarked {code held : Text} {comment : Option Text} (hides : Hides code held)
    (noted : IsNoted comment) :
    (codeLine (trim (Layout.remarked code comment))).code = trim code :=
  congrArg CodeLine.code (codeLine_remarked hides noted)

structure IsRow (row code : Text) (comment : Option Text) : Prop where
  noRemark : Reader.isRemark false row = false
  line : codeLine (trim row) = ⟨code, comment⟩

theorem IsRow.code {row code : Text} {comment : Option Text} (isRow : IsRow row code comment) :
    (codeLine (trim row)).code = code := congrArg CodeLine.code isRow.line

theorem isRow_remarked {row code held : Text} {comment : Option Text} (hides : Hides code held)
    (noted : IsNoted comment) (single : '\n' ∉ row) (seen : isBlankText code = false)
    (same : trim row = trim (Layout.remarked code comment)) : IsRow row (trim code) comment := by
  refine ⟨?_, by rw [same, codeLine_remarked hides noted]⟩
  cases comment with
  | none => exact (isCode_of_trim hides single same).noRemark
  | some note =>
    obtain ⟨⟨rest, rfl⟩, -⟩ := noted note rfl
    have same : trim row = trim (code ++ ' ' :: '-' :: '-' :: rest) := same
    rw [trim_remarked seen] at same
    refine (isCode_of_remarked hides.trimStart ?_ single same).noRemark
    intro empty
    rw [trimStart, trimStartBy, List.dropWhile_eq_nil_iff] at empty
    rw [isBlankText, Bool.eq_false_iff, ne_eq, List.all_eq_true] at seen
    exact seen empty

theorem IsRow.ofLine {row code : Text} {comment : Option Text} (isRow : IsRow row code comment) :
    LineKind.ofLine false row = codeKind code := by
  have same := isRow.code
  have noRemark := isRow.noRemark
  rw [Reader.isRemark] at noRemark
  rw [LineKind.ofLine, noRemark, if_neg (by simp), same]

theorem IsRow.mayStandInBody {row code : Text} {comment : Option Text}
    (isRow : IsRow row code comment) (calm : Calm code) :
    Reader.mayStandInBody (LineKind.ofLine false row) = true := by
  rw [isRow.ofLine]
  exact calm.mayStandInBody

theorem IsRow.inBlock_pass {row code : Text} {comment : Option Text}
    (isRow : IsRow row code comment) {reader : Reader} (block : reader.inBlock = false) :
    (reader.counted.pass row).inBlock = false :=
  (congrArg (LineKind.blockAfter · row) block).trans
    (LineKind.blockAfter_of_not_isRemark isRow.noRemark)

theorem IsRow.seen {row code : Text} {comment : Option Text} (isRow : IsRow row code comment)
    (seen : isBlankText code = false) : isBlankText row = false := by
  rw [Bool.eq_false_iff]
  intro blank
  have same := isRow.code
  rw [trim_of_blank blank] at same
  have none : code = [] := same.symm
  rw [none] at seen
  cases seen

end Text

/-! ## Rows in order -/

namespace Reader

/-- Rows lead a body from one state to another: it is read to its end if the lines behind the rows
are read to its end from the other state on. -/
def Leads (limits : Limits) (before : Bool) (start : Body → Prop) (rows : List Text) (after : Bool)
    (finish : Body → Prop) : Prop :=
  ∀ (reader : Reader) (body : Body) (number : Nat), reader.inBlock = before → start body →
    (reader.linesRead + rows.length : Int) ≤ limits.lines →
    ∃ (reader' : Reader) (body' : Body), reader'.inBlock = after ∧
      reader'.linesRead = reader.linesRead + rows.length ∧ finish body' ∧
      ∀ later node count last,
        BodyRun limits reader' body' (number + rows.length) later node count last →
        BodyRun limits reader body number (rows ++ later) node (count + rows.length) last

variable {limits : Limits} {before between after : Bool} {start middle finish : Body → Prop}
  {front back rows : List Text} {row : Text}

theorem leads_nil (same : ∀ body, start body → finish body) :
    Leads limits before start [] before finish :=
  fun reader body _ block begins _ =>
    ⟨reader, body, block, rfl, same body begins, fun _ _ _ _ later => later⟩

theorem Leads.append (first : Leads limits before start front between middle)
    (second : Leads limits between middle back after finish) :
    Leads limits before start (front ++ back) after finish := by
  intro reader body number block begins room
  rw [List.length_append] at room
  obtain ⟨reader', body', block', count', begins', onward⟩ :=
    first reader body number block begins (by omega)
  obtain ⟨reader'', body'', block'', count'', ends, onward'⟩ :=
    second reader' body' (number + front.length) block' begins' (by omega)
  refine ⟨reader'', body'', block'', ?_, ends, fun later node count last run => ?_⟩
  · rw [count'', count', List.length_append, Nat.add_assoc]
  · rw [List.length_append, ← Nat.add_assoc] at run
    rw [List.append_assoc, List.length_append, Nat.add_comm front.length, ← Nat.add_assoc]
    exact onward _ _ _ _ (onward' _ _ _ _ run)

theorem Leads.of_start (leads : Leads limits before middle rows after finish)
    (same : ∀ body, start body → middle body) : Leads limits before start rows after finish :=
  fun reader body number block begins room =>
    leads reader body number block (same body begins) room

theorem Leads.of_finish (leads : Leads limits before start rows after middle)
    (same : ∀ body, middle body → finish body) : Leads limits before start rows after finish := by
  have whole := leads.append (leads_nil same)
  rwa [List.append_nil] at whole

theorem leads_remark (remark : Text.IsRemark before row after)
    (kept : ∀ body number, start body → finish (body.readComment row before number)) :
    Leads limits before start [row] after finish := by
  obtain ⟨isRemark, -, behind⟩ := remark
  rintro reader body number rfl begins room
  refine ⟨reader.counted.pass row, _, behind, rfl, kept body number begins,
    fun later node count last run => .comment ?_ ?_ run⟩
  · rw [MayRead]
    simpa using room
  · exact (LineKind.ofLine_eq_comment ..).mpr isRemark

theorem leads_row {code : Text} {comment : Option Text} (isRow : Text.IsRow row code comment)
    (calm : Text.Calm code) (seen : Text.isBlankText code = false)
    (read : ∀ body number, start body → ∃ next,
      body.readLine limits.depth ⟨code, comment⟩ number = .ok (.more next) ∧ finish next) :
    Leads limits false start [row] false finish := by
  intro reader body number block begins room
  obtain ⟨next, taken, ends⟩ := read body number begins
  rw [← isRow.line] at taken
  refine ⟨reader.counted.pass row, next, ?_, rfl, ends,
    fun later node count last run => .code ?_ ?_ (isRow.seen seen) taken run⟩
  · exact isRow.inBlock_pass block
  · rw [MayRead]
    simpa using room
  · rw [block]
    exact isRow.mayStandInBody calm

theorem leads_idle {code : Text} {comment : Option Text} (noted : IsNoted comment)
    (single : '\n' ∉ row) (unseen : Text.isBlankText code = true)
    (same : Text.trim row = Text.trim (Layout.remarked code comment))
    (kept : ∀ body number, start body → start (body.readComment row false number)) :
    Leads limits false start [row] false start := by
  cases comment with
  | none =>
    have same : Text.trim row = Text.trim code := same
    have blank : Text.isBlankText row = true := by
      rw [← Text.isBlankText_trim, same, Text.isBlankText_trim, unseen]
    intro reader body number block begins room
    refine ⟨reader.counted.pass row, body, ?_, rfl, begins,
      fun later node count last run => .blank ?_ ?_ blank run⟩
    · exact (Text.blockAfter_of_isBlankText blank reader.inBlock).trans block
    · rw [MayRead]
      simpa using room
    · have noRemark : isRemark false row = false := Text.isRemark_of_isBlankText blank false
      rw [isRemark] at noRemark
      rw [block, LineKind.ofLine, noRemark, if_neg (by simp), same, Text.trim_of_blank unseen]
      decide +kernel
  | some note =>
    obtain ⟨⟨rest, rfl⟩, -⟩ := noted note rfl
    exact leads_remark (Text.isRemark_of_remarked unseen single same) kept

theorem bodyRun_close {code : Text} {comment : Option Text} {reader : Reader} {body : Body}
    {number : Nat} {node : Node} (isRow : Text.IsRow row code comment) (calm : Text.Calm code)
    (seen : Text.isBlankText code = false) (block : reader.inBlock = false)
    (room : (reader.linesRead + 1 : Int) ≤ limits.lines)
    (read : body.readLine limits.depth ⟨code, comment⟩ number = .ok (.closed node))
    (later : List Text) :
    BodyRun limits reader body number (row :: later) node 1 (reader.counted.pass row) ∧
      (reader.counted.pass row).inBlock = false := by
  rw [← isRow.line] at read
  refine ⟨.close room ?_ (isRow.seen seen) read, ?_⟩
  · rw [block]
    exact isRow.mayStandInBody calm
  · exact isRow.inBlock_pass block

end Reader

end AsnLayout
