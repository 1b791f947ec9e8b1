import AsnLayout.Proofs.Neatness
import AsnLayout.Proofs.QuotedTree
import AsnLayout.Proofs.Trail

/-!
# Literals in a body

While the body of a definition is read, its open groups bear what the code read so far hides, from
the outside in.  The text of the innermost group is closed as far as the line has been read: the
scan of the line stands where the scan of that text does.
-/

set_option autoImplicit false

namespace AsnLayout

/-! ## Open groups -/

namespace OpenGroup

/-- Whether a comment line waits for the end of a member. -/
def collects (group : OpenGroup) : Bool := group.structured && !Text.isBlankText group.text

/-- An open group bears what its header and its children hide; a block comment that is open has been
begun where the next comment line goes. -/
structure Bears (group : OpenGroup) (inBlock : Bool) (first second : Text) : Prop where
  keeps : group.node.KeepsLines
  header : Text.Hides (group.node.header.getD []) first
  opening : IsNoted group.node.openingComment
  children : Node.InSeries false group.node.children second (inBlock && !group.collects)
  comment : IsNoted group.comment
  waiting : Node.Comments false group.waiting [] (inBlock && group.collects)

variable {group : OpenGroup} {first second third : Text}

theorem Bears.retext (bears : group.Bears false first second) (text : Text)
    (brackets lineBrackets : Nat) :
    Bears { group with text, brackets, lineBrackets } false first second :=
  ⟨bears.keeps, bears.header, bears.opening, bears.children, bears.comment, bears.waiting⟩

theorem Bears.append (bears : group.Bears false first second) {nodes : List Node}
    (keeps : (group.append nodes).node.KeepsLines)
    (series : Node.InSeries false nodes third false) :
    (group.append nodes).Bears false first (second ++ third) :=
  ⟨keeps, bears.header, bears.opening, bears.children.append series, bears.comment, bears.waiting⟩

theorem bears_addComment {node : Node} {held comment : Text} (isField : node.isField = true)
    (bears : node.Bears held) (note : comment.IsNote) : (node.addComment comment).Bears held := by
  have noted := note.isNoted
  unfold Node.addComment
  cases bears with
  | member isField single content opening =>
    rw [if_neg (by simp [single])]
    exact .member isField single content (opening.both noted)
  | group spans keeps header opening children trailer closing =>
    rw [if_pos spans]
    exact .group spans keeps header opening children trailer (closing.both noted)
  | line kind content hides =>
    simp [Node.isField, kind] at isField

theorem Bears.commentLast (bears : group.Bears false first second) {comment : Text}
    (note : comment.IsNote) (number : Nat) :
    (group.commentLast comment number).Bears false first second := by
  unfold OpenGroup.commentLast
  split
  · rename_i some
    refine ⟨?_, bears.header, bears.opening, ?_, bears.comment, bears.waiting⟩
    · intro unstructured
      obtain ⟨child, member, isField⟩ := List.any_eq_true.mp some
      rw [bears.keeps unstructured child member] at isField
      cases isField
    · exact Node.series_modifyLastField (fun node held isField bears =>
        bears_addComment isField bears note) bears.children
  · have comments := note.comments group.level number
    have appended := bears.append (bears.keeps.append comments.isField) comments.series
    rwa [List.append_nil] at appended

theorem series_trailer {nodes : List Node} {trailer : Text} (trailing : blind.Trailing nodes)
    (series : Node.InSeries false nodes second false) (hides : Text.Hides trailer third) :
    Node.InSeries false (Node.modifyLastField (fun node => { node with trailer }) nodes)
      (second ++ third) false := by
  obtain ⟨front, inner, back, rfl, spans, noTrailer, -, behind⟩ := trailing
  rw [Node.modifyLastField_append _ front back inner (Tally.isField_of_spansLines spans)
    behind.any_isField]
  obtain ⟨between, early, late, rfl, before, after⟩ := series.split
  cases after with
  | comment isComment later => simp [Node.spansLines, Node.isField, isComment.kind] at spans
  | @code _ _ _ held held' bearing later =>
    have none : held' = [] := Node.held_of_kind (fun node member => (behind node member).1) later
    subst none
    cases bearing with
    | member isField single => simp [single] at spans
    | line kind => simp [Node.spansLines, Node.isField, kind] at spans
    | @group _ one two three _ keeps header opening children trailer' closing =>
      rw [noTrailer] at trailer'
      have empty : three = [] := trailer'.eq_nil
      subst empty
      have whole : Node.Bears { inner with trailer } (one ++ two ++ third) :=
        .group spans keeps header opening children hides closing
      have series := before.append (.code whole later)
      simpa using series

theorem Bears.withMember (bears : group.Bears false first second)
    (text : Text.Hides group.text third) (sound : group.Sound blind) (number : Nat) :
    Node.InSeries false (group.withMember number) (second ++ third) false := by
  have form := text.memberForm
  unfold OpenGroup.withMember
  simp only
  split
  · rename_i pending
    exact series_trailer (sound.trailing pending) bears.children form
  · split
    · rename_i empty
      rw [empty] at form
      rw [form.eq_nil, List.append_nil]
      exact bears.children
    · exact bears.children.append (.single_code (.member rfl rfl form isNoted_none))

theorem Bears.withRemark (bears : group.Bears false first second) {children : List Node}
    (series : Node.InSeries false children third false) (number : Nat) :
    Node.InSeries false (group.withRemark number children) third false := by
  unfold OpenGroup.withRemark
  split
  · exact series
  · rename_i comment found
    have note := bears.comment comment found
    split
    · exact Node.series_modifyLastField
        (fun node held isField bears => bears_addComment isField bears note) series
    · exact (note.comments group.level number).behind series

theorem Bears.endMember (bears : group.Bears false first second)
    (text : Text.Hides group.text third) (structured : group.structured = true)
    (sound : group.Sound blind) (number : Nat) :
    (group.endMember number).Bears false first (second ++ third) := by
  rw [endMember_eq]
  refine ⟨Node.keepsLines_of_structured structured, bears.header, bears.opening, ?_, isNoted_none,
    .done⟩
  exact Node.Comments.behind bears.waiting
    (bears.withRemark (bears.withMember text sound number) number)

theorem Bears.keepLine (bears : group.Bears false first second) (text : Text.Hides group.text third)
    {comment : Option Text} (noted : IsNoted comment) (number : Nat) :
    (group.keepLine comment number).Bears false first (second ++ third) := by
  have form := text.neat
  rw [keepLine_eq]
  split
  · rename_i empty
    rw [empty] at form
    rw [form.eq_nil]
    exact (bears.append (bears.keeps.append (by simp)) .done).retext [] _ _
  · rename_i filled
    have line : (group.lineNode (Text.neat group.text) comment number).Bears third :=
      .line rfl rfl form noted (Text.neat_neat _) filled
    have keeps := bears.keeps.append (List.forall_mem_singleton.mpr
      (show (group.lineNode (Text.neat group.text) comment number).isField = false from rfl))
    exact (bears.append keeps (.single_code line)).retext [] _ _

theorem Bears.close (bears : group.Bears false first second) (text : Text.Hides group.text third)
    (sound : group.Sound blind) (number : Nat) :
    (group.close number).Bears false first (second ++ third) := by
  unfold OpenGroup.close
  split
  · rename_i structured
    exact bears.endMember text structured sound number
  · exact bears.keepLine text isNoted_none number

theorem Bears.node (bears : group.Bears false first second)
    (unclosed : group.node.trailer = [] ∧ group.node.closingComment = none)
    (spans : group.node.spansLines = true) : group.node.Bears (first ++ second) := by
  have whole : group.node.Bears (first ++ second ++ []) :=
    .group spans bears.keeps bears.header bears.opening bears.children
      (by rw [unclosed.1]; exact .nil) (by rw [unclosed.2]; exact isNoted_none)
  rwa [List.append_nil] at whole

end OpenGroup

/-! ## Bodies -/

namespace Body

inductive Around : List OpenGroup → Text → Prop where
  | done : Around [] []
  | group {group : OpenGroup} {below : List OpenGroup} {outer first second : Text}
      (bears : group.Bears false first second) (later : Around below outer) :
      Around (group :: below) (outer ++ (first ++ second))

/-- What a body bears together with the rest of the line that is being read. -/
inductive Bears : Body → Bool → Text → Text → Prop where
  | intro {body : Body} {inBlock : Bool} {rest outer first second third : Text}
      (around : Around body.below outer) (top : body.top.Bears inBlock first second)
      (text : Text.Hides (body.top.text ++ rest) third) :
      Bears body inBlock rest (outer ++ (first ++ (second ++ third)))

def Clean (body : Body) : Prop := body.top.structured = false → body.top.text = []

inductive Progress.Bears : Progress → Text → Prop where
  | more {body : Body} {held : Text} (bears : body.Bears false [] held) (clean : body.Clean) :
      Progress.Bears (.more body) held
  | closed {node : Node} {first second third : Text} (keeps : node.KeepsLines)
      (header : Text.Hides (node.header.getD []) first) (opening : IsNoted node.openingComment)
      (children : Node.InSeries false node.children second false)
      (trailer : Text.Hides node.trailer third) (closing : IsNoted node.closingComment) :
      Progress.Bears (.closed node) (first ++ (second ++ third))

variable {limit : Int} {number : Nat} {q : Quoting} {body next : Body} {held : Text}
  {definition : Node}

/-- A character that neither opens nor closes a group or a member goes to the text. -/
theorem Bears.take {c : Char} {rest : Text} (bears : body.Bears false (c :: rest) held)
    (brackets : Nat) :
    Bears { body with top := { body.top.take c with brackets } } false rest held := by
  obtain ⟨around, top, text⟩ := bears
  rw [← List.singleton_append, ← List.append_assoc] at text
  exact .intro around (top.retext (body.top.text ++ [c]) brackets body.top.lineBrackets) text

theorem Bears.leave {top outer : OpenGroup} {below : List OpenGroup} {anchor : Anchor} {rest : Text}
    (bears : Bears ⟨top, outer :: below, anchor⟩ false ('}' :: rest) held)
    (scan : (Quoting.after {} top.text).exposes '}' = true)
    (sound : Body.Sound blind definition ⟨top, outer :: below, anchor⟩) :
    Bears ⟨outer.adopt (top.close number).node, below, .member⟩ false rest held := by
  -- The group around has an empty text, so the rest of the line starts a text of its own.
  obtain ⟨spans, -, structured, noText, -⟩ := sound.stacked
  obtain ⟨around, inner, text⟩ := bears
  cases around with
  | group outside around =>
    obtain ⟨third, fourth, rfl, member, behind⟩ := text.cut scan (by decide)
    have closed := inner.close member sound.top number
    have spans' : (top.close number).node.spansLines = true := by
      rw [Node.spansLines_of_head (top.head_close number)]
      exact spans
    have node := closed.node (Tally.text_begun_close top number sound.top).2 spans'
    have adopted := outside.append (Node.keepsLines_of_structured structured) (.single_code node)
    have text' : Text.Hides (outer.text ++ rest) fourth := by
      rw [noText]
      exact behind
    have whole := @Bears.intro ⟨outer.adopt (top.close number).node, below, .member⟩ false rest
      _ _ _ _ around ⟨adopted.keeps, adopted.header, adopted.opening, adopted.children, adopted.comment,
        adopted.waiting⟩ text'
    simpa only [List.append_assoc] using whole

theorem Bears.enterGroup {rest : Text} (bears : body.Bears false ('{' :: rest) held)
    (scan : (Quoting.after {} body.top.text).exposes '{' = true)
    (entered : body.enterGroup limit number = .ok next) : next.Bears false rest held := by
  obtain ⟨around, top, text⟩ := bears
  obtain ⟨third, fourth, rfl, header, behind⟩ := text.cut scan (by decide)
  obtain ⟨-, -, rfl⟩ := enterGroup_eq_ok.mp entered
  have outside : body.top.withoutHeader.Bears false _ _ :=
    ⟨top.keeps, top.header, top.opening, top.children, isNoted_none, .done⟩
  have leveled := Node.Comments.map_level top.waiting (body.top.level + 1)
  have inside : OpenGroup.Bears { node := body.top.groupNode number } false third [] :=
    ⟨fun _ => leveled.isField, header.neat, top.comment, leveled.series, isNoted_none, .done⟩
  have whole := @Bears.intro
    ⟨{ node := body.top.groupNode number }, body.top.withoutHeader :: body.below, .opening⟩
    false rest _ _ _ _ (.group outside around) inside behind
  simpa only [List.append_assoc, List.nil_append] using whole

theorem Bears.endMember {rest : Text} (bears : body.Bears false (',' :: rest) held)
    (scan : (Quoting.after {} body.top.text).exposes ',' = true)
    (structured : body.top.structured = true) (sound : body.top.Sound blind) :
    (body.endMember number).Bears false rest held := by
  obtain ⟨around, top, text⟩ := bears
  obtain ⟨third, fourth, rfl, member, behind⟩ := text.cut scan (by decide)
  have ended := top.endMember member structured sound number
  have text' : Text.Hides ((body.top.endMember number).text ++ rest) fourth := by
    rw [OpenGroup.endMember_eq]
    exact behind
  have whole := @Bears.intro (body.endMember number) false rest _ _ _ _ around ended text'
  simpa only [List.append_assoc] using whole

/-- Each character of a line goes where its code belongs, and the scan goes on behind it. -/
theorem Bears.step {c : Char} {rest : Text} (taken : Step limit number q body c rest next)
    (scan : Quoting.after {} body.top.text = q) (bears : body.Bears false (c :: rest) held)
    (sound : body.Sound blind definition) :
    next.Bears false rest held ∧ Quoting.after {} next.top.text = q.next c := by
  subst scan
  cases taken with
  | hidden covered => exact ⟨bears.take body.top.brackets, Quoting.after_append ..⟩
  | @leave top outer below anchor _ code settled =>
    refine ⟨bears.leave code sound, ?_⟩
    have noText : outer.text = [] := sound.stacked.2.2.2.1
    rw [Quoting.next_of_exposes code (by decide)]
    exact congrArg (Quoting.after {}) noText
  | enter code settled structured leftOpen entered =>
    refine ⟨bears.enterGroup code entered, ?_⟩
    rw [Quoting.next_of_exposes code (by decide)]
    obtain ⟨-, -, rfl⟩ := enterGroup_eq_ok.mp entered
    rfl
  | comma code settled structured =>
    refine ⟨bears.endMember code structured sound.top, ?_⟩
    rw [Quoting.next_of_exposes code (by decide)]
    exact congrArg (fun group => Quoting.after {} (OpenGroup.text group))
      (body.top.endMember_eq number)
  | keep code noClose noGroup noComma => exact ⟨bears.take _, Quoting.after_append ..⟩

/-! ## Ends of lines -/

theorem commentLast_frame (group : OpenGroup) (comment : Text) (number : Nat) :
    (group.commentLast comment number).text = group.text ∧
      (group.commentLast comment number).structured = group.structured := by
  unfold OpenGroup.commentLast
  split <;> exact ⟨rfl, rfl⟩

theorem anchorComment_frame (body : Body) (comment : Text) (number : Nat) :
    (body.anchorComment comment number).top.text = body.top.text ∧
      (body.anchorComment comment number).top.structured = body.top.structured := by
  unfold Body.anchorComment
  simp only
  split
  · exact ⟨rfl, rfl⟩
  · exact ⟨rfl, rfl⟩
  · exact commentLast_frame body.top comment number

theorem Bears.anchorComment (bears : body.Bears false [] held) {comment : Text}
    (note : comment.IsNote) (number : Nat) :
    (body.anchorComment comment number).Bears false [] held := by
  have noted := note.isNoted
  obtain ⟨around, top, text⟩ := bears
  unfold Body.anchorComment
  simp only
  split
  · have comments := note.comments (body.top.level + body.top.brackets) number
    have appended := top.append (top.keeps.append comments.isField) comments.series
    rw [List.append_nil] at appended
    exact .intro around appended text
  · have opened : OpenGroup.Bears { body.top with node := { body.top.node with
        openingComment := bothComments body.top.node.openingComment (some comment) } } false _ _ :=
      ⟨top.keeps, top.header, top.opening.both noted, top.children, top.comment, top.waiting⟩
    exact .intro around opened text
  · have last := top.commentLast note number
    rw [← (commentLast_frame body.top comment number).1] at text
    exact .intro around last text

theorem bears_endLine (bears : body.Bears false [] held) {comment : Option Text}
    (noted : IsNoted comment) (number : Nat) :
    Progress.Bears (.more (body.endLine comment number)) held := by
  unfold Body.endLine
  simp only
  split
  · -- The line of an unstructured group is kept.
    obtain ⟨around, top, text⟩ := bears
    rw [List.append_nil] at text
    have kept := top.keepLine text noted number
    have noText : (body.top.keepLine comment number).text = [] := by
      rw [OpenGroup.keepLine_eq]
    refine .more ?_ fun _ => noText
    have whole := @Bears.intro { body with top := body.top.keepLine comment number } false []
      _ _ _ _ around kept (by rw [noText]; exact .nil)
    simpa only [List.append_assoc, List.append_nil] using whole
  · rename_i unkept
    by_cases structured : body.top.structured = true
    · have clean : body.Clean := fun unstructured => by simp [structured] at unstructured
      simp only [structured, if_true]
      cases comment with
      | none => exact .more bears clean
      | some comment =>
        have note := noted comment rfl
        simp only
        split
        · refine .more (bears.anchorComment note number) fun unstructured => ?_
          rw [(body.anchorComment_frame comment number).2, structured] at unstructured
          cases unstructured
        · obtain ⟨around, top, text⟩ := bears
          have commented : OpenGroup.Bears { body.top with
              comment := bothComments body.top.comment (some comment) } false _ _ :=
            ⟨top.keeps, top.header, top.opening, top.children, top.comment.both noted, top.waiting⟩
          exact .more (.intro around commented text) clean
    · -- Nothing is left of the line but its comment.
      have empty : Text.neat body.top.text = [] := by
        simpa [structured] using unkept
      have cleared : Bears { body with top := { body.top with text := [] } } false [] held := by
        obtain ⟨around, top, text⟩ := bears
        rw [List.append_nil] at text
        have form := text.neat
        rw [empty] at form
        exact .intro around (top.retext [] _ _) form
      simp only [structured, Bool.false_eq_true, if_false]
      cases comment with
      | none => exact .more cleared fun _ => rfl
      | some comment =>
        refine .more (cleared.anchorComment (noted comment rfl) number) fun _ => ?_
        exact (anchorComment_frame _ comment number).1

theorem bears_lineRun {comment : Option Text} {code : Text} {progress : Progress}
    (run : LineRun limit comment number q body code progress)
    (scan : Quoting.after {} body.top.text = q) (bears : body.Bears false code held)
    (sound : body.Sound blind definition) (noted : IsNoted comment) : progress.Bears held := by
  induction run with
  | finish => exact bears_endLine bears noted number
  | @close q top anchor rest node code settled closed =>
    subst scan
    obtain ⟨around, top, text⟩ := bears
    obtain ⟨third, fourth, rfl, member, behind⟩ := text.cut code (by decide)
    have whole := top.close member sound.top number
    cases around
    obtain ⟨-, rfl⟩ := Body.closeDefinition_eq_ok.mp closed
    have done := @Progress.Bears.closed { (OpenGroup.close _ number).node with
      trailer := Text.neat rest, closingComment := comment } _ _ _ whole.keeps whole.header
      whole.opening whole.children behind.neat noted
    simpa only [List.append_assoc, List.nil_append] using done
  | step taken later ih =>
    obtain ⟨bears', scan'⟩ := bears.step taken scan sound
    exact ih scan' bears' (Tally.body_step taken sound).2

/-- A line of code starts a scan of its own: the text before it is closed. -/
theorem Bears.startLine {code held' : Text} (bears : body.Bears false [] held) (clean : body.Clean)
    (hides : Text.Hides code held') :
    body.startLine.Bears false code (held ++ held') ∧
      Quoting.after {} body.startLine.top.text = {} := by
  obtain ⟨around, top, text⟩ := bears
  rw [List.append_nil] at text
  have begun := fun text => top.retext text body.top.brackets body.top.brackets
  by_cases goesOn : (body.top.structured && decide (body.top.text ≠ [])) = true
  · have started : body.startLine.top.text = body.top.text ++ [' '] := if_pos goesOn
    have joined := text.space hides
    rw [← List.singleton_append, ← List.append_assoc, ← started] at joined
    refine ⟨?_, ?_⟩
    · have whole := @Bears.intro body.startLine false code _ _ _ _ around
        (begun body.startLine.top.text) joined
      simpa only [List.append_assoc] using whole
    · have blank : (Quoting.after {} body.top.text).exposes ' ' = true := by
        simp [Quoting.exposes, Quoting.isQuote, text.tame.closed]
      rw [started, Quoting.after_append]
      exact Quoting.next_of_exposes blank (by decide)
  · have empty : body.top.text = [] := by
      by_cases structured : body.top.structured = true
      · simpa [structured] using goesOn
      · exact clean (by simpa using structured)
    have started : body.startLine.top.text = [] := (if_neg goesOn).trans empty
    rw [empty] at text
    have none := text.eq_nil
    subst none
    refine ⟨?_, by rw [started]; rfl⟩
    have behind : Text.Hides (body.startLine.top.text ++ code) held' := by
      rw [started]
      exact hides
    have whole := @Bears.intro body.startLine false code _ _ _ _ around
      (begun body.startLine.top.text) behind
    simpa only [List.append_assoc, List.append_nil] using whole

theorem bears_readLine {line : CodeLine} {progress : Progress} {held' : Text}
    (read : body.readLine limit line number = .ok progress) (bears : body.Bears false [] held)
    (clean : body.Clean) (hides : Text.Hides line.code held') (noted : IsNoted line.comment)
    (sound : body.Sound blind definition) : progress.Bears (held ++ held') := by
  obtain ⟨started, scan⟩ := bears.startLine clean hides
  exact bears_lineRun (lineRun_of_readCode _ _ _ _ _ _ _ read) scan started
    (Tally.body_startLine body sound).2 noted

/-! ## Comment lines -/

theorem Bears.readComment {inBlock : Bool} {line : Text} (bears : body.Bears inBlock [] held)
    (remark : Reader.isRemark inBlock line = true) (single : '\n' ∉ line) (number : Nat) :
    (body.readComment line inBlock number).Bears (LineKind.blockAfter inBlock line) [] held := by
  obtain ⟨around, ⟨keeps, header, opening, children, comment, waiting⟩, text⟩ := bears
  have comments := fun level => Node.comments_ofComment remark single level number
  unfold Body.readComment
  simp only
  split
  · rename_i collects
    have collects : body.top.collects = true := collects
    rw [collects, Bool.and_true] at waiting
    rw [collects, Bool.not_true, Bool.and_false] at children
    refine .intro around ⟨keeps, header, opening, ?_, comment, ?_⟩ text
    · change Node.InSeries _ _ _ (_ && !body.top.collects)
      rw [collects, Bool.not_true, Bool.and_false]
      exact children
    · change Node.Comments _ _ _ (_ && body.top.collects)
      rw [collects, Bool.and_true]
      exact waiting.append (comments _)
  · rename_i settled
    have settled : body.top.collects = false := Bool.eq_false_iff.mpr settled
    rw [settled, Bool.and_false] at waiting
    rw [settled, Bool.not_false, Bool.and_true] at children
    refine .intro around ⟨keeps.append (comments _).isField, header, opening, ?_, comment, ?_⟩ text
    · change Node.InSeries _ _ _ (_ && !body.top.collects)
      rw [settled, Bool.not_false, Bool.and_true]
      exact (comments _).behind children
    · change Node.Comments _ _ _ (_ && body.top.collects)
      rw [settled, Bool.and_false]
      exact waiting

theorem Clean.readComment (clean : body.Clean) (line : Text) (inBlock : Bool) (number : Nat) :
    (body.readComment line inBlock number).Clean := by
  unfold Body.readComment
  simp only
  split <;> exact clean

/-- Before its code is read a group has a header and nothing else. -/
theorem bears_begin {node : Node} {first rest held : Text} (bare : node.children = [])
    (header : Text.Hides (node.header.getD []) first) (opening : IsNoted node.openingComment)
    (hides : Text.Hides rest held) (anchor : Anchor) :
    Bears { top := { node }, anchor } false rest (first ++ held) := by
  have top : OpenGroup.Bears { node } false first [] :=
    ⟨fun _ => by simp [bare], header, opening, by rw [bare]; exact .done, isNoted_none, .done⟩
  exact @Bears.intro { top := { node }, anchor } false rest [] _ _ _ .done top hides

theorem bears_start {node : Node} {code first held' : Text} {progress : Progress}
    (started : start node limit code = .ok progress)
    (bare : node.children = [] ∧ node.trailer = [] ∧ node.closingComment = none)
    (header : Text.Hides (node.header.getD []) first) (opening : IsNoted node.openingComment)
    (hides : Text.Hides code held') : progress.Bears (first ++ held') := by
  rcases Body.lineRun_of_start started with ⟨blank, rfl⟩ | run
  · have none := hides.eq_nil_of_blank blank
    subst none
    exact .more (bears_begin bare.1 header opening .nil .nothing) fun _ => rfl
  · have sound : Body.Sound blind node
        { top := { node := { node with openingComment := none } }, anchor := .opening } :=
      Tally.sound_opened _ _ bare.2.1 bare.2.2 rfl (by simp)
    exact bears_lineRun run rfl
      (@bears_begin { node with openingComment := none } _ _ _ bare.1 header isNoted_none hides
        .opening) sound opening

end Body

end AsnLayout
