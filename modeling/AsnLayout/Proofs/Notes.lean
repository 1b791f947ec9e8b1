import AsnLayout.Fence
import AsnLayout.Proofs.SourceLines
import AsnLayout.Proofs.Tally

/-!
# Schemas of a note

The parts of a note are the only ones with its lines in which every fence opens and closes what it
should.  So the schemas of a note stand one behind the other between their fences, and formatting
the note replaces the lines between those fences and keeps every other line.
-/

set_option autoImplicit false

namespace AsnLayout.Fence

/-! ## Parts -/

/-- Parts as they follow each other, `foreign` telling whether fences of another language are open
before them. -/
inductive Parted : Bool → List Part → Prop where
  | done (foreign : Bool) : Parted foreign []
  | line {text : Text} {later : List Part} (noSchema : opens text = false)
      (rest : Parted (isFence text) later) : Parted false (.line text :: later)
  | foreign {text : Text} {later : List Part} (rest : Parted (!closes text) later) :
      Parted true (.line text :: later)
  | schema {opening closing : Text} {body : List Text} {later : List Part}
      (isOpening : opens opening = true) (inside : ∀ line ∈ body, closes line = false)
      (isClosing : closes closing = true) (rest : Parted false later) :
      Parted false (.schema opening body closing :: later)
  | unclosed {opening : Text} {body : List Text} (isOpening : opens opening = true)
      (inside : ∀ line ∈ body, closes line = false) : Parted false [.unclosed opening body]

def State.ofForeign (foreign : Bool) : State := if foreign then .foreign else .outside

theorem partsAt_inside_append (opening : Text) {body : List Text}
    (inside : ∀ line ∈ body, closes line = false) (before rest : List Text) :
    partsAt (.inside opening before) (body ++ rest) =
      partsAt (.inside opening (before ++ body)) rest := by
  induction body generalizing before with
  | nil => simp
  | cons line later ih =>
    obtain ⟨here, there⟩ := List.forall_mem_cons.mp inside
    rw [List.cons_append, partsAt, here, if_neg (by simp), ih there, List.append_assoc]
    rfl

theorem Parted.partsAt_eq {foreign : Bool} {parts : List Part} (parted : Parted foreign parts) :
    partsAt (.ofForeign foreign) (parts.flatMap Part.lines) = parts := by
  induction parted with
  | done foreign => cases foreign <;> rfl
  | line noSchema rest ih =>
    rw [List.flatMap_cons, Part.lines, List.singleton_append, State.ofForeign, if_neg (by simp),
      partsAt, noSchema, if_neg (by simp), ← State.ofForeign, ih]
  | @foreign text later rest ih =>
    rw [List.flatMap_cons, Part.lines, List.singleton_append, State.ofForeign, if_pos rfl, partsAt]
    cases isClosing : closes text <;> rw [isClosing] at ih <;> exact congrArg _ ih
  | schema isOpening inside isClosing rest ih =>
    rw [List.flatMap_cons, Part.lines, State.ofForeign, if_neg (by simp)]
    simp only [List.cons_append, List.append_assoc, partsAt]
    rw [if_pos isOpening, partsAt_inside_append _ inside, List.nil_append, List.nil_append, partsAt,
      if_pos isClosing]
    exact congrArg _ ih
  | @unclosed opening body isOpening inside =>
    rw [List.flatMap_singleton, Part.lines, State.ofForeign, if_neg (by simp), partsAt,
      if_pos isOpening]
    have whole := partsAt_inside_append opening inside [] []
    rwa [List.append_nil, List.nil_append, partsAt] at whole

theorem parted_partsAt (state : State) (lines : List Text) :
    match state with
    | .outside => Parted false (partsAt state lines)
    | .foreign => Parted true (partsAt state lines)
    | .inside opening body => opens opening = true → (∀ line ∈ body, closes line = false) →
        Parted false (partsAt state lines) := by
  induction lines generalizing state with
  | nil =>
    cases state with
    | outside => exact .done false
    | foreign => exact .done true
    | inside opening body => exact fun isOpening inside => .unclosed isOpening inside
  | cons line rest ih =>
    cases state with
    | outside =>
      simp only [partsAt]
      split
      · rename_i isOpening
        exact ih (.inside line []) isOpening (by simp)
      · rename_i noSchema
        refine .line (by simpa using noSchema) ?_
        cases isFence line
        · exact ih .outside
        · exact ih .foreign
    | foreign =>
      refine .foreign ?_
      cases closes line
      · exact ih .foreign
      · exact ih .outside
    | inside opening body =>
      intro isOpening inside
      simp only [partsAt]
      split
      · rename_i isClosing
        exact .schema isOpening inside isClosing (ih .outside)
      · rename_i goesOn
        refine ih (.inside opening (body ++ [line])) isOpening fun other member => ?_
        rcases List.mem_append.mp member with before | here
        · exact inside other before
        · rw [List.mem_singleton.mp here]
          simpa using goesOn

theorem parted_parts (note : Text) : Parted false (parts note) :=
  parted_partsAt .outside (Text.lines note)

theorem flatMap_lines_parts (note : Text) : (parts note).flatMap Part.lines = Text.lines note :=
  flatMap_lines_partsAt .outside (Text.lines note)

/-! ## Schemas at their lines -/

/-- A schema among lines, between its fences. -/
structure Schema.StandsIn (schema : Schema) (lines : List Text) : Prop where
  ordered : schema.start < schema.stop
  opening : ∃ line, lines[schema.start]? = some line ∧ opens line = true
  closing : ∃ line, lines[schema.stop]? = some line ∧ closes line = true
  inside : ∀ index line, schema.start < index → index < schema.stop →
    lines[index]? = some line → closes line = false
  source : schema.source = Text.ofLines ((lines.take schema.stop).drop (schema.start + 1))

@[simp]
theorem schemasFrom_line (number : Nat) (text : Text) (later : List Part) :
    schemasFrom number (.line text :: later) = schemasFrom (number + 1) later := rfl

@[simp]
theorem schemasFrom_schema (number : Nat) (opening closing : Text) (body : List Text)
    (later : List Part) :
    schemasFrom number (.schema opening body closing :: later) =
      ⟨number, number + body.length + 1, Text.ofLines body⟩ ::
        schemasFrom (number + (body.length + 2)) later := by
  simp [schemasFrom, Part.lines]

theorem le_start {number : Nat} {parts : List Part} {schema : Schema}
    (member : schema ∈ schemasFrom number parts) : number ≤ schema.start := by
  induction parts generalizing number with
  | nil => cases member
  | cons part later ih =>
    have behind : schema ∈ schemasFrom (number + part.lines.length) later →
        number ≤ schema.start :=
      fun there => (Nat.le_add_right ..).trans (ih there)
    cases part with
    | schema opening body closing =>
      rcases List.mem_cons.mp member with rfl | there
      · exact Nat.le_refl _
      · exact behind there
    | line text => exact behind member
    | unclosed opening body => exact behind member

theorem standsIn_schema (before : List Text) {opening closing : Text} {body : List Text}
    (isOpening : opens opening = true) (inside : ∀ line ∈ body, closes line = false)
    (isClosing : closes closing = true) (after : List Text) :
    Schema.StandsIn ⟨before.length, before.length + body.length + 1, Text.ofLines body⟩
      (before ++ (opening :: (body ++ closing :: after))) := by
  refine ⟨by simp only; omega, ⟨opening, by simp, isOpening⟩, ⟨closing, ?_, isClosing⟩, ?_, ?_⟩
  · rw [List.getElem?_append_right (by simp only; omega)]
    simp [Nat.add_assoc]
  · intro index line late early found
    simp only at late early
    obtain ⟨offset, rfl⟩ := Nat.exists_eq_add_of_lt late
    rw [List.getElem?_append_right (by omega), show before.length + offset + 1 - before.length =
      offset + 1 by omega, List.getElem?_cons_succ, List.getElem?_append_left (by omega)] at found
    exact inside line (List.mem_of_getElem? found)
  · have taken : before.take (before.length + (body.length + 1)) = before :=
      List.take_of_length_le (by omega)
    have dropped : before.drop (before.length + 1) = [] := List.drop_eq_nil_of_le (by omega)
    simp [List.take_append, List.drop_append, Nat.add_assoc, taken, dropped]

theorem Parted.standsIn {foreign : Bool} {parts : List Part} (parted : Parted foreign parts)
    (before : List Text) : ∀ schema ∈ schemasFrom before.length parts,
      schema.StandsIn (before ++ parts.flatMap Part.lines) := by
  induction parted generalizing before with
  | done => simp [schemasFrom]
  | @line text later noSchema rest ih =>
    intro schema member
    simpa [Part.lines] using ih (before ++ [text]) schema (by simpa using member)
  | @foreign text later rest ih =>
    intro schema member
    simpa [Part.lines] using ih (before ++ [text]) schema (by simpa using member)
  | @schema opening closing body later isOpening inside isClosing rest ih =>
    intro schema member
    rw [schemasFrom_schema] at member
    rcases List.mem_cons.mp member with rfl | there
    · have here := standsIn_schema before isOpening inside isClosing (later.flatMap Part.lines)
      simpa [Part.lines] using here
    · have behind := ih (before ++ (opening :: body ++ [closing])) schema (by simpa using there)
      simpa [Part.lines] using behind
  | unclosed isOpening inside => simp [schemasFrom]

theorem pairwise_schemasFrom (number : Nat) (parts : List Part) :
    (schemasFrom number parts).Pairwise fun earlier later => earlier.stop < later.start := by
  induction parts generalizing number with
  | nil => exact .nil
  | cons part later ih =>
    cases part with
    | schema opening body closing =>
      rw [schemasFrom_schema]
      refine .cons (fun schema member => ?_) (ih _)
      have late := le_start member
      simp only
      omega
    | line text => exact ih _
    | unclosed opening body => exact ih _

/-! ## Where schemas start -/

def State.next : State → Text → State
  | .outside, line =>
    if opens line then .inside line [] else if isFence line then .foreign else .outside
  | .foreign, line => if closes line then .outside else .foreign
  | .inside opening body, line =>
    if closes line then .outside else .inside opening (body ++ [line])

def stateAfter (lines : List Text) : State := lines.foldl State.next .outside

/-- A line starts a schema if it opens one outside of all fences and a later line closes it. -/
structure Starts (lines : List Text) (index : Nat) : Prop where
  opening : ∃ line, lines[index]? = some line ∧ opens line = true
  outside : stateAfter (lines.take index) = .outside
  closing : ∃ later line, index < later ∧ lines[later]? = some line ∧ closes line = true

theorem foldl_next_inside (opening : Text) {body : List Text}
    (inside : ∀ line ∈ body, closes line = false) (before : List Text) :
    body.foldl State.next (.inside opening before) = .inside opening (before ++ body) := by
  induction body generalizing before with
  | nil => simp
  | cons line later ih =>
    obtain ⟨here, there⟩ := List.forall_mem_cons.mp inside
    rw [List.foldl_cons, State.next, here, if_neg (by simp), ih there, List.append_assoc]
    rfl

/-- Behind an opening fence nothing starts before the schema is closed. -/
theorem not_starts_inside {before body after : List Text} {opening : Text}
    (outside : stateAfter before = .outside) (isOpening : opens opening = true)
    (inside : ∀ line ∈ body, closes line = false) {index : Nat} (late : before.length < index)
    (early : index ≤ before.length + body.length + 1) :
    ¬Starts (before ++ (opening :: (body ++ after))) index := by
  intro starts
  obtain ⟨offset, rfl⟩ := Nat.exists_eq_add_of_lt late
  have taken : (before ++ (opening :: (body ++ after))).take (before.length + offset + 1) =
      before ++ (opening :: body.take offset) := by
    rw [List.take_append, List.take_of_length_le (by omega), show before.length + offset + 1 -
      before.length = offset + 1 by omega, List.take_succ_cons, List.take_append_of_le_length
      (by omega)]
  have state := starts.outside
  rw [taken, stateAfter, List.foldl_append, ← stateAfter, outside, List.foldl_cons, State.next,
    if_pos isOpening, foldl_next_inside opening fun line member =>
      inside line (List.mem_of_mem_take member)] at state
  cases state

theorem stateAfter_concat (before : List Text) (line : Text) :
    stateAfter (before ++ [line]) = (stateAfter before).next line := by
  simp [stateAfter]

theorem exists_start_iff_behind {before after : List Text} {found : List Schema} {line : Text}
    {index : Nat} (late : before.length ≤ index)
    (here : ¬Starts (before ++ line :: after) before.length)
    (far : ∀ schema ∈ found, before.length < schema.start)
    (behind : (before ++ [line]).length ≤ index →
      ((∃ schema ∈ found, schema.start = index) ↔ Starts (before ++ [line] ++ after) index)) :
    (∃ schema ∈ found, schema.start = index) ↔ Starts (before ++ line :: after) index := by
  rcases Nat.eq_or_lt_of_le late with rfl | later
  · refine iff_of_false ?_ here
    rintro ⟨schema, member, start⟩
    have := far schema member
    omega
  · have iff := behind (by rw [List.length_append]; exact later)
    rwa [List.append_assoc, List.singleton_append] at iff

theorem exists_start_iff_schema {before body after : List Text} {opening closing : Text}
    {found : List Schema} {index : Nat} (state : stateAfter before = .outside)
    (isOpening : opens opening = true) (inside : ∀ line ∈ body, closes line = false)
    (isClosing : closes closing = true) (late : before.length ≤ index)
    (far : ∀ schema ∈ found, before.length + (body.length + 2) ≤ schema.start)
    (behind : before.length + (body.length + 2) ≤ index →
      ((∃ schema ∈ found, schema.start = index) ↔
        Starts (before ++ (opening :: (body ++ closing :: after))) index)) :
    (∃ schema ∈ (⟨before.length, before.length + body.length + 1, Text.ofLines body⟩ : Schema) ::
        found, schema.start = index) ↔
      Starts (before ++ (opening :: (body ++ closing :: after))) index := by
  rcases Nat.lt_or_ge index (before.length + (body.length + 2)) with early | beyond
  · rcases Nat.eq_or_lt_of_le late with rfl | within
    · refine iff_of_true ⟨_, List.mem_cons_self, rfl⟩ ⟨⟨opening, by simp, isOpening⟩, ?_, ?_⟩
      · rwa [List.take_left]
      · have here := standsIn_schema before isOpening inside isClosing after
        obtain ⟨line, stop, isClosing⟩ := here.closing
        exact ⟨_, line, here.ordered, stop, isClosing⟩
    · refine iff_of_false ?_ (not_starts_inside state isOpening inside within (by omega))
      rintro ⟨schema, member, start⟩
      rcases List.mem_cons.mp member with rfl | there
      · simp only at start
        omega
      · have := far schema there
        omega
  · rw [← behind beyond]
    refine ⟨?_, fun ⟨schema, there, start⟩ => ⟨schema, List.mem_cons_of_mem _ there, start⟩⟩
    rintro ⟨schema, member, start⟩
    rcases List.mem_cons.mp member with rfl | there
    · simp only at start
      omega
    · exact ⟨schema, there, start⟩

theorem Parted.exists_start_iff {foreign : Bool} {parts : List Part}
    (parted : Parted foreign parts) {before : List Text}
    (state : stateAfter before = .ofForeign foreign) {index : Nat} (late : before.length ≤ index) :
    (∃ schema ∈ schemasFrom before.length parts, schema.start = index) ↔
      Starts (before ++ parts.flatMap Part.lines) index := by
  induction parted generalizing before with
  | done =>
    refine iff_of_false (by simp [schemasFrom]) fun starts => ?_
    obtain ⟨line, found, -⟩ := starts.opening
    rw [List.flatMap_nil, List.append_nil, List.getElem?_eq_none late] at found
    cases found
  | @line text later noSchema rest ih =>
    rw [List.flatMap_cons, Part.lines, List.singleton_append, schemasFrom_line]
    have long : (before ++ [text]).length = before.length + 1 := by simp
    rw [← long]
    refine exists_start_iff_behind late (fun starts => ?_) (fun schema member => ?_) (ih ?_)
    · obtain ⟨line, found, isOpening⟩ := starts.opening
      rw [List.getElem?_append_right (Nat.le_refl _), Nat.sub_self] at found
      cases found
      exact Bool.noConfusion (noSchema.symm.trans isOpening)
    · have := le_start member
      omega
    · rw [stateAfter_concat, state, State.ofForeign, if_neg (by simp), State.next, noSchema,
        if_neg (by simp)]
      rfl
  | @foreign text later rest ih =>
    rw [List.flatMap_cons, Part.lines, List.singleton_append, schemasFrom_line]
    have long : (before ++ [text]).length = before.length + 1 := by simp
    rw [← long]
    refine exists_start_iff_behind late (fun starts => ?_) (fun schema member => ?_) (ih ?_)
    · have outside := starts.outside
      rw [List.take_left, state] at outside
      cases outside
    · have := le_start member
      omega
    · rw [stateAfter_concat, state, State.ofForeign, if_pos rfl, State.next]
      cases closes text <;> rfl
  | @schema opening closing body later isOpening inside isClosing rest ih =>
    have whole : (Part.schema opening body closing :: later).flatMap Part.lines =
        opening :: (body ++ closing :: later.flatMap Part.lines) := by simp [Part.lines]
    have long : (before ++ (opening :: body ++ [closing])).length =
        before.length + (body.length + 2) := by simp
    rw [whole, schemasFrom_schema]
    refine exists_start_iff_schema state isOpening inside isClosing late (fun schema member => ?_)
      (fun behind => ?_)
    · exact le_start member
    · have iff := @ih (before ++ (opening :: body ++ [closing])) (by
          rw [← List.append_assoc, stateAfter_concat, stateAfter, List.foldl_append, ← stateAfter,
            state, State.ofForeign, if_neg (by simp), List.foldl_cons, State.next, if_pos isOpening,
            foldl_next_inside opening inside, State.next, if_pos isClosing]) (by rwa [long])
      rw [long] at iff
      simpa using iff
  | @unclosed opening body isOpening inside =>
    refine iff_of_false (by simp [schemasFrom]) fun starts => ?_
    have whole : [Part.unclosed opening body].flatMap Part.lines = opening :: (body ++ []) := by
      simp [Part.lines]
    rw [whole] at starts
    obtain ⟨last, line, behind, found, isClosing⟩ := starts.closing
    obtain ⟨offset, rfl⟩ := Nat.exists_eq_add_of_lt (Nat.lt_of_le_of_lt late behind)
    rw [List.getElem?_append_right (by omega), show before.length + offset + 1 - before.length =
      offset + 1 by omega, List.getElem?_cons_succ, List.append_nil] at found
    exact Bool.noConfusion ((inside line (List.mem_of_getElem? found)).symm.trans isClosing)

/-! ## Other bodies -/

/-- The rows that a line makes: none if it stands strictly between the fences of a schema, and
behind the opening fence of a schema those of its new body. -/
def rowsAt (found : List Schema) (body : Text → List Text) (line : Text) (index : Nat) :
    List Text :=
  if found.any fun schema => schema.start < index && index < schema.stop then []
  else line :: (found.filter (·.start = index)).flatMap fun schema => body schema.source

/-- The lines with new ones strictly between the fences of schemas. -/
def replaceBodies (found : List Schema) (body : Text → List Text) (lines : List Text) :
    List Text :=
  lines.zipIdx.flatMap fun line => rowsAt found body line.1 line.2

def withBody (body : Text → List Text) : Part → Part
  | .schema opening lines closing => .schema opening (body (Text.ofLines lines)) closing
  | .line text => .line text
  | .unclosed opening lines => .unclosed opening lines

section

variable {found : List Schema} {body : Text → List Text}

/-- A line that opens no schema and stands in none makes itself. -/
theorem rowsAt_of_apart {index : Nat}
    (apart : ∀ schema ∈ found, index < schema.start ∨ schema.start < index ∧ schema.stop ≤ index)
    (line : Text) : rowsAt found body line index = [line] := by
  have outside : (found.any fun schema => schema.start < index && index < schema.stop) = false := by
    rw [List.any_eq_false]
    intro schema member
    have := apart schema member
    simp
    omega
  have none : found.filter (·.start = index) = [] := by
    rw [List.filter_eq_nil_iff]
    intro schema member
    have := apart schema member
    simp
    omega
  rw [rowsAt, outside, if_neg (by simp), none]
  rfl

/-- Behind a schema only the later ones matter. -/
theorem rowsAt_cons_of_behind {schema : Schema} {index : Nat}
    (ordered : schema.start < schema.stop) (behind : schema.stop < index) (line : Text) :
    rowsAt (schema :: found) body line index = rowsAt found body line index := by
  have outside : (decide (schema.start < index) && decide (index < schema.stop)) = false := by
    simp
    omega
  have other : decide (schema.start = index) = false := by
    simp
    omega
  simp only [rowsAt, List.any_cons, outside, Bool.false_or, List.filter_cons, other,
    Bool.false_eq_true, if_false]

theorem flatMap_rowsAt_schema (number : Nat) (opening closing : Text) (lines : List Text)
    (late : ∀ schema ∈ found, number + (lines.length + 2) ≤ schema.start) :
    let here : Schema := ⟨number, number + lines.length + 1, Text.ofLines lines⟩
    (((opening :: (lines ++ [closing])).zipIdx number).flatMap fun line =>
        rowsAt (here :: found) body line.1 line.2) =
      opening :: (body (Text.ofLines lines) ++ [closing]) := by
  intro here
  have first : rowsAt (here :: found) body opening number =
      opening :: body (Text.ofLines lines) := by
    have outside : ((here :: found).any fun schema =>
        schema.start < number && number < schema.stop) = false := by
      rw [List.any_eq_false]
      intro schema member
      rcases List.mem_cons.mp member with rfl | there
      · simp [here]
      · have := late schema there
        simp
        omega
    have none : found.filter (·.start = number) = [] := by
      rw [List.filter_eq_nil_iff]
      intro schema member
      have := late schema member
      simp
      omega
    rw [rowsAt, outside, if_neg (by simp), List.filter_cons, if_pos (by simp [here]), none]
    simp [here]
  have inside : ∀ line ∈ lines.zipIdx (number + 1),
      rowsAt (here :: found) body line.1 line.2 = [] := by
    intro line member
    have low := List.le_snd_of_mem_zipIdx member
    have high := List.snd_lt_of_mem_zipIdx member
    have within : (decide (here.start < line.2) && decide (line.2 < here.stop)) = true := by
      simp [here]
      omega
    rw [rowsAt, List.any_cons, within, Bool.true_or, if_pos rfl]
  have last : rowsAt (here :: found) body closing (number + 1 + lines.length) = [closing] := by
    refine rowsAt_of_apart (fun schema member => ?_) closing
    rcases List.mem_cons.mp member with rfl | there
    · simp only [here]
      omega
    · have := late schema there
      omega
  rw [List.zipIdx_cons, List.zipIdx_append, List.flatMap_cons, List.flatMap_append, first,
    List.flatMap_eq_nil_iff.mpr inside, List.zipIdx_singleton, List.flatMap_singleton, last]
  rfl

theorem flatMap_rowsAt_schemasFrom (number : Nat) (parts : List Part) :
    (((parts.flatMap Part.lines).zipIdx number).flatMap fun line =>
        rowsAt (schemasFrom number parts) body line.1 line.2) =
      (parts.map (withBody body)).flatMap Part.lines := by
  induction parts generalizing number with
  | nil => rfl
  | cons part later ih =>
    have behind := ih (number + part.lines.length)
    rw [List.flatMap_cons, List.zipIdx_append, List.flatMap_append, List.map_cons,
      List.flatMap_cons, ← behind]
    -- A part without a schema is kept: all schemas start behind it.
    have kept :
        schemasFrom number (part :: later) = schemasFrom (number + part.lines.length) later →
        ((part.lines.zipIdx number).flatMap fun line =>
          rowsAt (schemasFrom number (part :: later)) body line.1 line.2) = part.lines := by
      intro same
      have each : ∀ line ∈ part.lines.zipIdx number,
          rowsAt (schemasFrom number (part :: later)) body line.1 line.2 = [line.1] := by
        intro line member
        refine rowsAt_of_apart (fun schema there => ?_) _
        have := le_start (same ▸ there)
        have := List.snd_lt_of_mem_zipIdx member
        omega
      rw [List.flatMap_congr each, ← List.map_eq_flatMap, List.zipIdx_map_fst]
    cases part with
    | schema opening lines closing =>
      have late : ∀ schema ∈ schemasFrom (number + (lines.length + 2)) later,
          number + (lines.length + 2) ≤ schema.start := fun schema member => le_start member
      have others : ∀ line ∈ ((later.flatMap Part.lines).zipIdx (number + (lines.length + 2))),
          rowsAt (schemasFrom number (.schema opening lines closing :: later)) body line.1 line.2 =
            rowsAt (schemasFrom (number + (lines.length + 2)) later) body line.1 line.2 := by
        intro line member
        have low := List.le_snd_of_mem_zipIdx member
        rw [schemasFrom_schema]
        exact rowsAt_cons_of_behind (by simp only; omega) (by simp only; omega) line.1
      have long : (Part.schema opening lines closing).lines.length = lines.length + 2 := by
        simp [Part.lines]
      rw [long, List.flatMap_congr others, schemasFrom_schema]
      exact congrArg (· ++ _) (flatMap_rowsAt_schema number opening closing lines late)
    | line text => exact congrArg (· ++ _) (kept rfl)
    | unclosed opening lines => exact congrArg (· ++ _) (kept rfl)

end

/-! ## Formatting -/

def formattedBody (configuration : Configuration) (source : Text) : List Text :=
  bodyLines (Format.text source configuration).result

theorem result_formatPart (configuration : Configuration) (part : Part) :
    (formatPart configuration part).result =
      (withBody (formattedBody configuration) part).lines := by
  cases part <;> rfl

theorem newline_not_mem_bodyLines {formatted line : Text} (member : line ∈ bodyLines formatted) :
    '\n' ∉ line := by
  rw [bodyLines] at member
  split at member
  · cases member
  · exact Text.newline_not_mem_of_mem_lines _ _ member

theorem newline_not_mem_withBody {body : Text → List Text} {part : Part} {line : Text}
    (single : ∀ line ∈ part.lines, '\n' ∉ line)
    (fresh : ∀ source, ∀ line ∈ body source, '\n' ∉ line)
    (member : line ∈ (withBody body part).lines) : '\n' ∉ line := by
  cases part with
  | line text => exact single line member
  | unclosed opening lines => exact single line member
  | schema opening lines closing =>
    simp only [withBody, Part.lines, List.cons_append, List.mem_cons, List.mem_append,
      List.not_mem_nil, or_false] at member single
    rcases member with rfl | inside | rfl
    · exact single line (.inl rfl)
    · exact fresh _ line inside
    · exact single line (.inr (.inr rfl))

theorem lines_part_ne_nil (part : Part) : part.lines ≠ [] := by
  cases part <;> simp [Part.lines]

theorem parts_ne_nil (note : Text) : parts note ≠ [] := by
  intro none
  have whole := flatMap_lines_parts note
  rw [none] at whole
  exact Text.lines_ne_nil note whole.symm

theorem lines_format (note : Text) (configuration : Configuration) :
    Text.lines (format note configuration).result =
      ((parts note).map (withBody (formattedBody configuration))).flatMap Part.lines := by
  have rows : ((parts note).map (formatPart configuration)).flatMap (·.result) =
      ((parts note).map (withBody (formattedBody configuration))).flatMap Part.lines := by
    simp only [List.flatMap_map, result_formatPart]
  rw [format]
  simp only [rows]
  refine Text.lines_ofLines _ (fun line member => ?_) ?_
  · obtain ⟨part', isPart, here⟩ := List.mem_flatMap.mp member
    obtain ⟨part, isOriginal, rfl⟩ := List.mem_map.mp isPart
    refine newline_not_mem_withBody (fun line own => ?_) (fun source line own =>
      newline_not_mem_bodyLines own) here
    refine Text.newline_not_mem_of_mem_lines note line ?_
    rw [← flatMap_lines_parts]
    exact List.mem_flatMap.mpr ⟨part, isOriginal, own⟩
  · obtain ⟨part, later, whole⟩ := List.exists_cons_of_ne_nil (parts_ne_nil note)
    rw [whole, List.map_cons, List.flatMap_cons]
    exact fun none => lines_part_ne_nil _ (List.append_eq_nil_iff.mp none).1

theorem replaceBodies_nil (body : Text → List Text) (lines : List Text) :
    replaceBodies [] body lines = lines := by
  have each : ∀ line ∈ lines.zipIdx, rowsAt [] body line.1 line.2 = [line.1] :=
    fun line _ => rowsAt_of_apart (by simp) line.1
  rw [replaceBodies, List.flatMap_congr each, ← List.map_eq_flatMap, List.zipIdx_map_fst]

/-- The schemas of a note are what stands between an opening fence outside of all fences and the
next closing one, and formatting replaces their lines, and no others, by the formatted ones. -/
theorem format_replaces_bodies (note : Text) (configuration : Configuration) :
    let lines := Text.lines note
    let found := (schemas note).result
    found.Pairwise (fun earlier later => earlier.stop < later.start) ∧
      (∀ schema ∈ found, schema.StandsIn lines) ∧
      (∀ index, (∃ schema ∈ found, schema.start = index) ↔ Starts lines index) ∧
      Text.lines (format note configuration).result =
        replaceBodies found (formattedBody configuration) lines ∧
      (found = [] → (format note configuration).result = note) := by
  intro lines found
  have kept : Text.lines (format note configuration).result =
      replaceBodies found (formattedBody configuration) lines := by
    have whole := @flatMap_rowsAt_schemasFrom (formattedBody configuration) 0 (parts note)
    rwa [flatMap_lines_parts, ← lines_format, eq_comm] at whole
  refine ⟨pairwise_schemasFrom 0 (parts note), ?_, fun index => ?_, kept, fun none => ?_⟩
  · have stands := (parted_parts note).standsIn []
    rwa [List.nil_append, flatMap_lines_parts] at stands
  · have starts := (parted_parts note).exists_start_iff (show stateAfter [] = .outside from rfl)
      (Nat.zero_le index)
    rwa [List.nil_append, flatMap_lines_parts] at starts
  · rw [none, replaceBodies_nil] at kept
    rw [← Text.ofLines_lines (format note configuration).result, kept, Text.ofLines_lines]

/-- A schema without lines and one with a line, a fence between fences of another language, and a
fence that is not closed. -/
theorem format_replaces_bodies_two :
    let note := ("a\n```sql\n```asn1\n```\n```asn1\n```\n```ASN1 x\nA::=SET\x7bb\x7d\n ``` \n" ++
      "```asn1").toList
    let schema : Schema := ⟨6, 8, "A::=SET\x7bb\x7d".toList⟩
    let open' := "```asn1\nA::=SET\x7bb\x7d".toList
    schema ∈ (schemas note).result ∧ schema.StandsIn (Text.lines note) ∧
      Starts (Text.lines note) 4 ∧ ¬Starts (Text.lines note) 2 ∧
      (format note .absent).result = ("a\n```sql\n```asn1\n```\n```asn1\n```\n```ASN1 x\n" ++
        "A ::= SET \x7b\n  b\n\x7d\n ``` \n```asn1").toList ∧
      (schemas open').result = [] ∧ (format open' .absent).result = open' := by
  intro note schema open'
  obtain ⟨-, stands, starts, kept, -⟩ := format_replaces_bodies note .absent
  have found : (schemas note).result = [⟨4, 5, []⟩, schema] := by decide +kernel
  have member : schema ∈ (schemas note).result := by simp [found]
  have none : (schemas open').result = [] := by decide +kernel
  refine ⟨member, stands schema member, (starts 4).mp ⟨⟨4, 5, []⟩, by simp [found], rfl⟩,
    fun here => ?_, ?_, none, (format_replaces_bodies open' .absent).2.2.2.2 none⟩
  · obtain ⟨other, isFound, start⟩ := (starts 2).mpr here
    rw [found] at isFound
    simp [schema] at isFound
    rcases isFound with rfl | rfl <;> cases start
  · rw [← Text.ofLines_lines (format note .absent).result, kept]
    decide +kernel

end AsnLayout.Fence
