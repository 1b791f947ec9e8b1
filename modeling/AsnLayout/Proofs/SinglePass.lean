import AsnLayout.Proofs.Comments
import AsnLayout.Proofs.Indentation

/-!
# One pass over the lines

A reader reads every line of a schema once.  An item is counted by as many lines as it takes, so a
reader that comes to a line has counted the lines before it and no other, the limit on the number of
lines is never exceeded, and a block comment is open for the reader exactly if one is open behind
the lines before it.
-/

set_option autoImplicit false

namespace AsnLayout

/-! ## Steps that do not run out of lines -/

/-- Whether a fault is about the number of lines that were read. -/
def Fault.isLimit (fault : Fault) : Bool :=
  match fault.cause with
  | .tooManyLines _ => true
  | _ => false

namespace Reading

variable {α β : Type}

/-- A step does not exceed the limit on the number of lines. -/
def Affords (step : Reading α) (before : Reader) : Prop :=
  ∀ fault, (step.run.run before).1 = .error fault → fault.isLimit = false

theorem affords_pure (a : α) (before : Reader) : Affords (pure a) before := nofun

theorem affords_throw {fault : Fault} (other : fault.isLimit = false) (before : Reader) :
    Affords (throw fault : Reading α) before := by
  intro fault' failure
  cases failure
  exact other

theorem affords_lift {x : Except Fault α} (other : ∀ fault, x = .error fault → fault.isLimit = false)
    (before : Reader) : Affords (liftM x) before := by
  intro fault failure
  cases x with
  | ok a => cases failure
  | error fault' =>
    cases failure
    exact other fault rfl

theorem affords_of_yields {step : Reading α} {before after : Reader} {a : α}
    (success : Yields step before a after) : Affords step before := by
  intro fault failure
  rw [success] at failure
  cases failure

theorem Yields.run_bind {step : Reading α} {before after : Reader} {a : α}
    (success : Yields step before a after) (next : α → Reading β) :
    (step >>= next).run.run before = (next a).run.run after := by
  rw [ExceptT.run_bind, StateT.run_bind, success]
  rfl

theorem affords_bind {step : Reading α} {next : α → Reading β} {before : Reader}
    (first : Affords step before)
    (later : ∀ a between, Yields step before a between → Affords (next a) between) :
    Affords (step >>= next) before := by
  intro fault failure
  cases ran : step.run.run before with
  | mk outcome between =>
    cases outcome with
    | error fault' =>
      rw [ExceptT.run_bind, StateT.run_bind, ran] at failure
      cases failure
      exact first fault (congrArg Prod.fst ran)
    | ok a =>
      rw [Yields.run_bind ran] at failure
      exact later a between ran fault failure

theorem affords_modified {change : Reader → Reader} {next : Reading β} {before : Reader}
    (later : Affords next (change before)) : Affords (modify change >>= fun _ => next) before :=
  affords_bind (affords_of_yields rfl) fun _ _ success => by
    rw [yields_modify] at success
    rwa [← success]

end Reading

/-! ## Bodies -/

namespace Body

theorem isLimit_enterGroup {body : Body} {limit : Int} {number : Nat} {fault : Fault}
    (failed : body.enterGroup limit number = .error fault) : fault.isLimit = false := by
  unfold enterGroup at failed
  split at failed
  · cases failed
    rfl
  · split at failed
    · cases failed
      rfl
    · cases failed

theorem isLimit_closeDefinition {node : Node} {rest : Text} {comment : Option Text} {number : Nat}
    {fault : Fault} (failed : closeDefinition node rest comment number = .error fault) :
    fault.isLimit = false := by
  unfold closeDefinition at failed
  split at failed
  · cases failed
  · cases failed
    rfl

/-- The faults in the code of a body are about its groups. -/
theorem isLimit_readCode {limit : Int} {comment : Option Text} {number : Nat} {q : Quoting}
    {body : Body} {code : Text} {fault : Fault}
    (failed : readCode limit comment number q body code = .error fault) :
    fault.isLimit = false := by
  induction code generalizing q body with
  | nil => cases failed
  | cons c rest ih =>
    simp only [readCode] at failed
    split at failed
    · exact ih failed
    split at failed
    · split at failed
      · cases closed : closeDefinition (body.top.close number).node rest comment number with
        | ok node => simp [closed, Except.map] at failed
        | error fault' =>
          simp only [closed, Except.map, Except.error.injEq] at failed
          rw [← failed]
          exact isLimit_closeDefinition closed
      · exact ih failed
    split at failed
    · split at failed
      · rename_i fault' entered
        cases failed
        exact isLimit_enterGroup entered
      · exact ih failed
    split at failed
    · exact ih failed
    · exact ih failed

theorem isLimit_start {node : Node} {limit : Int} {first : Text} {fault : Fault}
    (failed : start node limit first = .error fault) : fault.isLimit = false := by
  unfold start at failed
  split at failed
  · cases failed
    rfl
  · split at failed
    · cases failed
    · exact isLimit_readCode failed

end Body

/-! ## Lines that are counted -/

namespace Reader

open Reading

variable {limits : Limits}

@[simp]
theorem linesRead_counted (reader : Reader) : reader.counted.linesRead = reader.linesRead + 1 := rfl

@[simp]
theorem linesRead_pass (reader : Reader) (line : Text) :
    (reader.pass line).linesRead = reader.linesRead := rfl

@[simp]
theorem linesRead_putAside (reader : Reader) (line : Text) (number : Nat) :
    (reader.putAside line number).linesRead = reader.linesRead := rfl

structure Counts (before : Reader) (lines : List Text) (count : Nat) (after : Reader) : Prop where
  linesRead : after.linesRead = before.linesRead + count
  within : count ≤ lines.length

theorem Counts.cons {before next after : Reader} {line : Text} {rest : List Text} {count : Nat}
    (counts : Counts next rest count after) (first : next.linesRead = before.linesRead + 1) :
    Counts before (line :: rest) (count + 1) after where
  linesRead := by
    rw [counts.linesRead, first]
    omega
  within := Nat.succ_le_succ counts.within

theorem Counts.append {before between after : Reader} {lines : List Text} {count more : Nat}
    (first : Counts before lines count between)
    (second : Counts between (lines.drop count) more after) :
    Counts before lines (count + more) after where
  linesRead := by
    rw [second.linesRead, first.linesRead, Nat.add_assoc]
  within := by
    have few := second.within
    have few' := first.within
    rw [List.length_drop] at few
    omega

theorem counts_codeRun {reader after : Reader} {number count : Nat} {lines : List Text}
    {code : CodeLine} (run : CodeRun limits reader number lines code count after) :
    Counts reader lines count after := by
  induction run with
  | comment room isComment later ih => exact ih.cons rfl
  | blank room noComment isBlank later ih => exact ih.cons rfl
  | code room noComment noBlank noSign => exact ⟨rfl, Nat.succ_le_succ (Nat.zero_le _)⟩

theorem counts_bodyRun {reader after : Reader} {body : Body} {number count : Nat}
    {lines : List Text} {node : Node}
    (run : BodyRun limits reader body number lines node count after) :
    Counts reader lines count after := by
  induction run with
  | comment room isComment later ih => exact ih.cons rfl
  | blank room kind isBlank later ih => exact ih.cons rfl
  | code room kind noBlank read later ih => exact ih.cons rfl
  | close room kind noBlank read => exact ⟨rfl, Nat.succ_le_succ (Nat.zero_le _)⟩

theorem counts_readType {definition : Nat} {type result : TypeText} {rest : List Text}
    {start before after : Reader}
    (read : Yields (readType limits definition type rest) before result after)
    (begun : Counts start rest type.count before) : Counts start rest result.count after :=
  readType_induct (motive := fun reader type => Counts start rest type.count reader) read begun
    fun _ _ _ _ _ _ begun run => begun.append (counts_codeRun run)

theorem counts_groupRun {number count : Nat} {rest : List Text} {node result : Node}
    {type : TypeText} {start before after : Reader}
    (run : GroupRun limits number rest node type before result count after)
    (begun : Counts start rest type.count before) : Counts start rest count after := by
  unfold GroupRun at run
  split at run
  · obtain ⟨-, rfl, rfl⟩ := run
    exact begun
  · obtain ⟨progress, -, later⟩ := run
    cases progress with
    | closed closed =>
      obtain ⟨-, rfl, rfl⟩ := later
      exact begun
    | more body =>
      obtain ⟨more, bodyRun, rfl⟩ := later
      exact begun.append (counts_bodyRun bodyRun)
  · obtain ⟨-, rfl, rfl⟩ := run
    exact begun
  · exact run.elim

theorem counts_readItem {number count : Nat} {line : Text} {rest : List Text}
    {before after : Reader} {node : Node}
    (read : Yields (readItem limits number line rest) before (node, count) after) :
    Counts before (line :: rest) (count + 1) after := by
  rw [yields_readItem] at read
  obtain ⟨-, read⟩ := read
  split at read
  · rw [yields_readDefinition] at read
    obtain ⟨-, type, between, readType, run⟩ := read
    have begun : Counts (before.counted.pass line) rest (firstType line).count
      (before.counted.pass line) := ⟨rfl, Nat.zero_le _⟩
    exact (counts_groupRun run (counts_readType readType begun)).cons rfl
  · obtain ⟨item, rfl⟩ := read
    have same : after.linesRead = before.linesRead + 1 := by
      obtain rfl : _ = after := congrArg Prod.snd item
      unfold lineItem
      simp only
      split
      · rfl
      · split <;> rfl
      · rfl
      · rfl
      · rfl
    exact ⟨same, Nat.succ_le_succ (Nat.zero_le _)⟩

theorem linesRead_itemsRun {before after : Reader} {number skip : Nat} {lines : List Text}
    {nodes : List Node} (run : ItemsRun limits before number skip lines nodes after)
    (within : skip ≤ lines.length) :
    after.linesRead + skip = before.linesRead + lines.length := by
  induction run with
  | done reader number skip =>
    rw [Nat.le_zero.mp within]
    rfl
  | skip later ih =>
    have counted := ih (Nat.le_of_succ_le_succ within)
    rw [List.length_cons]
    omega
  | @item before between after number count line rest node nodes read later ih =>
    obtain ⟨counted, few⟩ := counts_readItem read
    have behind := ih (Nat.le_of_succ_le_succ few)
    have same : Reader.linesRead { between with setAside := [] } = between.linesRead := rfl
    rw [same] at behind
    rw [List.length_cons]
    omega

/-! ## The limit on the number of lines -/

def Room (limits : Limits) (reader : Reader) (lines : List Text) : Prop :=
  (reader.linesRead + lines.length : Int) ≤ limits.lines

theorem Room.mayRead {reader : Reader} {line : Text} {rest : List Text}
    (room : Room limits reader (line :: rest)) : MayRead limits reader := by
  unfold Room at room
  rw [List.length_cons] at room
  unfold MayRead
  omega

theorem Room.after {before after : Reader} {lines : List Text} {count : Nat}
    (room : Room limits before lines) (counts : Counts before lines count after) :
    Room limits after (lines.drop count) := by
  obtain ⟨counted, few⟩ := counts
  unfold Room at *
  rw [counted, List.length_drop]
  omega

theorem affords_counted {α : Type} {next : Reading α} {before : Reader} {number : Nat}
    (room : MayRead limits before) (later : Affords next before.counted) :
    Affords (countLine limits number >>= fun _ => next) before :=
  affords_bind (affords_of_yields ((yields_countLine _ _ _ _ ()).mpr ⟨room, rfl⟩))
    fun _ _ success => by
      rw [yields_countLine] at success
      rwa [← success.2]

theorem affords_readNextCode {definition number : Nat} {lines : List Text} {before : Reader}
    (room : Room limits before lines) :
    Affords (readNextCode limits definition number lines) before := by
  induction lines generalizing number before with
  | nil => exact affords_throw rfl _
  | cons line rest ih =>
    have behind : ∀ reader : Reader, reader.linesRead = before.linesRead + 1 →
        Room limits reader rest := fun reader counted =>
      room.after ⟨counted, Nat.succ_le_succ (Nat.zero_le _)⟩
    simp only [readNextCode]
    refine affords_bind (affords_of_yields rfl) fun reader between got => ?_
    obtain ⟨rfl, rfl⟩ := (yields_get ..).mp got
    split
    · exact affords_counted room.mayRead (affords_modified
        (affords_bind (ih (behind _ rfl)) fun _ _ _ => affords_pure _ _))
    split
    · exact affords_counted room.mayRead
        (affords_bind (ih (behind _ rfl)) fun _ _ _ => affords_pure _ _)
    split
    · exact affords_throw rfl _
    · exact affords_counted room.mayRead (affords_pure _ _)

theorem affords_continueType {definition : Nat} {type : TypeText} {rest : List Text}
    {before : Reader} (room : Room limits before (rest.drop type.count)) :
    Affords (continueType limits definition type rest) before :=
  affords_bind (affords_readNextCode room) fun _ _ _ => affords_pure _ _

theorem affords_readType {definition : Nat} {type : TypeText} {rest : List Text} {before : Reader}
    (room : Room limits before (rest.drop type.count)) :
    Affords (readType limits definition type rest) before := by
  have onward : ∀ (first : TypeText) (between : Reader),
      Room limits between (rest.drop first.count) →
      Affords (if (!hasBrace first.code && bracesNext (rest.drop first.count)) = true then
        continueType limits definition first rest else pure first) between := by
    intro first between room
    split
    · exact affords_continueType room
    · exact affords_pure _ _
  unfold readType
  simp only
  split
  · refine affords_bind (affords_continueType room) fun first between read => onward _ _ ?_
    obtain ⟨line, count, run, rfl⟩ := (yields_continueType ..).mp read
    have behind := room.after (counts_codeRun run)
    rwa [List.drop_drop] at behind
  · refine affords_bind (affords_pure _ _) fun first between read => onward _ _ ?_
    obtain ⟨rfl, rfl⟩ := (yields_pure ..).mp read
    exact room

theorem affords_readBody {definition : Node} {body : Body} {number : Nat} {lines : List Text}
    {before : Reader} (room : Room limits before lines) :
    Affords (readBody limits definition body number lines) before := by
  induction lines generalizing body number before with
  | nil => exact affords_throw rfl _
  | cons line rest ih =>
    have behind : Room limits (before.counted.pass line) rest :=
      room.after ⟨rfl, Nat.succ_le_succ (Nat.zero_le _)⟩
    simp only [readBody]
    refine affords_counted room.mayRead ?_
    refine affords_bind (affords_of_yields rfl) fun reader between got => ?_
    obtain ⟨rfl, rfl⟩ := (yields_get ..).mp got
    refine affords_modified ?_
    split
    · exact affords_bind (ih behind) fun _ _ _ => affords_pure _ _
    · exact affords_throw rfl _
    · exact affords_throw rfl _
    · exact affords_throw rfl _
    · split
      · exact affords_bind (ih behind) fun _ _ _ => affords_pure _ _
      · refine affords_bind (affords_lift (fun _ => Body.isLimit_readCode) _)
          fun progress between read => ?_
        obtain ⟨-, rfl⟩ := (yields_lift ..).mp read
        cases progress with
        | closed node => exact affords_pure _ _
        | more next => exact affords_bind (ih behind) fun _ _ _ => affords_pure _ _

theorem affords_readGroup {number : Nat} {rest : List Text} {node : Node} {type : TypeText}
    {before : Reader} (room : Room limits before (rest.drop type.count)) :
    Affords (readGroup limits number rest node type) before := by
  unfold readGroup
  split
  · exact affords_pure _ _
  · refine affords_bind (affords_lift (fun _ => Body.isLimit_start) _)
      fun progress between started => ?_
    obtain ⟨-, rfl⟩ := (yields_lift ..).mp started
    cases progress with
    | closed node => exact affords_pure _ _
    | more body => exact affords_bind (affords_readBody room) fun _ _ _ => affords_pure _ _
  · exact affords_pure _ _
  · exact affords_throw rfl _

theorem affords_readItem {number : Nat} {line : Text} {rest : List Text} {before : Reader}
    (room : Room limits before (line :: rest)) :
    Affords (readItem limits number line rest) before := by
  have begun : Counts (before.counted.pass line) rest (firstType line).count
    (before.counted.pass line) := ⟨rfl, Nat.zero_le _⟩
  have behind : Room limits (before.counted.pass line) rest :=
    room.after ⟨rfl, Nat.succ_le_succ (Nat.zero_le _)⟩
  unfold readItem
  refine affords_counted room.mayRead ?_
  refine affords_bind (affords_of_yields rfl) fun reader between got => ?_
  obtain ⟨rfl, rfl⟩ := (yields_get ..).mp got
  split
  · refine affords_bind (affords_of_yields rfl) fun _ reader passed => ?_
    rw [yields_set] at passed
    subst passed
    unfold readDefinition
    split
    · exact affords_throw rfl _
    refine affords_bind (affords_readType behind) fun type between read => ?_
    refine affords_bind (affords_of_yields rfl) fun reader between' got => ?_
    obtain ⟨rfl, rfl⟩ := (yields_get ..).mp got
    exact affords_readGroup (behind.after (counts_readType read begun))
  · exact affords_bind (affords_of_yields rfl) fun _ _ _ => affords_pure _ _

theorem affords_readItems {number skip : Nat} {lines : List Text} {before : Reader}
    (room : Room limits before (lines.drop skip)) :
    Affords (readItems limits number skip lines) before := by
  induction lines generalizing number skip before with
  | nil => exact affords_pure _ _
  | cons line rest ih =>
    cases skip with
    | succ skip => exact ih room
    | zero =>
      simp only [readItems]
      refine affords_bind (affords_readItem room) fun item between read => ?_
      refine affords_bind (affords_of_yields rfl) fun setAside after taken => ?_
      have behind : Room limits after (rest.drop item.2) := by
        simp only [takeSetAside, yields_bind, yields_get, yields_modify, yields_pure] at taken
        obtain ⟨_, _, ⟨rfl, rfl⟩, _, _, rfl, -, rfl⟩ := taken
        exact room.after (counts_readItem read)
      exact affords_bind (ih behind) fun _ _ _ => affords_pure _ _

/-! ## Where items start -/

/-- Items may be read from any line on that no item before takes. -/
theorem readItems_skip (number count : Nat) (lines : List Text) :
    readItems limits number count lines =
      readItems limits (number + count) 0 (lines.drop count) := by
  induction count generalizing number lines with
  | zero => rfl
  | succ count ih =>
    cases lines with
    | nil => rfl
    | cons line rest =>
      rw [readItems, ih, List.drop_succ_cons, Nat.add_assoc, Nat.add_comm 1 count]

theorem Reaches.run_readItems {lines : List Text} {index : Nat} {reader : Reader}
    {above : List Node} (reached : Reaches limits lines index reader above) :
    (readItems limits 1 0 lines).run.run {} =
      (do return above ++ (← readItems limits (index + 1) 0 (lines.drop index)) :
        Reading (List Node)).run.run reader := by
  induction reached with
  | start =>
    rw [List.drop_zero]
    simp only [List.nil_append]
    rw [bind_pure]
  | @item index next reader between above node reached read ih =>
    obtain ⟨line, rest, count, here, readItem, rfl⟩ := yields_readAt.mp read
    have cut : lines.drop (index + 1 + count) = rest.drop count := by
      rw [← List.drop_drop, ← List.drop_drop, here]
      rfl
    rw [ih, here, cut]
    simp only [readItems, bind_assoc, pure_bind]
    rw [readItem.run_bind]
    have taken : Yields takeSetAside between between.setAside { between with setAside := [] } := rfl
    rw [taken.run_bind, readItems_skip, Nat.add_right_comm (index + 1) 1 count]
    simp only [List.append_assoc, List.singleton_append]

end Reader

/-! ## The same comments for the re-indenter -/

namespace Realign

def depthAfter (width : Nat) (depth : Depth) (given : List Text) : Depth :=
  given.foldl (fun depth text => (line width depth text).2) depth

theorem lines_append (width : Nat) (depth : Depth) (front back : List Text) :
    lines width depth (front ++ back) =
      lines width depth front ++ lines width (depthAfter width depth front) back := by
  induction front generalizing depth with
  | nil => rfl
  | cons first later ih => exact congrArg _ (ih _)

theorem inBlock_depthAfter (width : Nat) (depth : Depth) (given : List Text) :
    (depthAfter width depth given).inBlock =
      LineKind.blockAfterAll depth.inBlock given := by
  induction given generalizing depth with
  | nil => rfl
  | cons first later ih =>
    refine (ih _).trans ?_
    rw [inBlock_line]
    rfl

end Realign

/-! ## One pass -/

open Reader Reading in
/-- The lines of a schema are read in one pass: wherever an item starts the reader reads on from
there, with the block comment open that is open behind the lines before it, for the re-indenter too;
an item takes at least one line and none behind the last, and counts the lines it takes; a schema
that has a tree has been counted line by line; and no schema exceeds the limit on the number of
lines. -/
theorem lines_read_once (lines : List Text) (options : Options)
    (positive : 1 ≤ options.iterationFactor) :
    let limits := Limits.ofOptions options lines.length
    (∀ index reader above, Reaches limits lines index reader above →
      (readItems limits 1 0 lines).run.run {} =
          (do return above ++ (← readItems limits (index + 1) 0 (lines.drop index)) :
            Reading (List Node)).run.run reader ∧
        reader.inBlock = LineKind.blockAfterAll false (lines.take index) ∧
        (∀ width, (Realign.depthAfter width {} (lines.take index)).inBlock = reader.inBlock) ∧
        ∀ node next after, Yields (readAt limits lines index) reader (some (node, next)) after →
          index < next ∧ next ≤ lines.length ∧
            after.linesRead = reader.linesRead + (next - index)) ∧
    (∀ root after, Yields (readAll limits lines) {} root after →
      after.linesRead = lines.length) ∧
    ∀ fault, ((readAll limits lines).run.run {}).1 = .error fault →
      ∀ limit, fault.cause ≠ .tooManyLines limit := by
  intro limits
  have room : Room limits {} lines := by
    have scaled : 1 * (lines.length + 1 : Int) ≤ options.iterationFactor * (lines.length + 1) :=
      Int.mul_le_mul_of_nonneg_right positive (by omega)
    change ((0 : Nat) + lines.length : Int) ≤ options.iterationFactor * (lines.length + 1)
    omega
  refine ⟨fun index reader above reached => ?_, fun root after read => ?_,
    fun fault failed limit same => ?_⟩
  · have block := reached.inBlock
    refine ⟨reached.run_readItems, block, fun width => ?_, fun node next after read => ?_⟩
    · rw [Realign.inBlock_depthAfter, block]
    · obtain ⟨line, rest, count, here, readItem, rfl⟩ := yields_readAt.mp read
      obtain ⟨counted, few⟩ := counts_readItem readItem
      rw [← here, List.length_drop] at few
      refine ⟨by omega, by omega, ?_⟩
      rw [counted]
      omega
  · obtain ⟨nodes, between, items, -, rfl⟩ := (yields_bind ..).mp read
    have counted := linesRead_itemsRun ((yields_readItems ..).mp items) (Nat.zero_le _)
    exact counted.trans (Nat.zero_add _)
  · have affords : Affords (readAll limits lines) {} :=
      affords_bind (affords_readItems room) fun _ _ _ => affords_pure _ _
    have other := affords fault failed
    rw [Fault.isLimit, same] at other
    cases other

open Reader Reading in
/-- A block comment, and a definition over lines. -/
theorem lines_read_once_body :
    let lines : List Text := ["-* x".toList, "*-".toList, "A ::=".toList, [],
      "SEQUENCE \x7b".toList, "a NULL \x7d".toList]
    let limits := Limits.ofOptions {} lines.length
    (∃ reader above node after, Reaches limits lines 2 reader above ∧
      reader.inBlock = LineKind.blockAfterAll false (lines.take 2) ∧
      Yields (readAt limits lines 2) reader (some (node, 6)) after ∧
      after.linesRead = reader.linesRead + 4) ∧
    (∃ root after, Yields (readAll limits lines) {} root after ∧ after.linesRead = 6) ∧
    ∀ limit, ((readAll limits lines).run.run {}).1 ≠ .error ⟨.tooManyLines limit, some 6⟩ := by
  intro lines limits
  obtain ⟨wherever, whole, never⟩ := lines_read_once lines {} (by decide)
  have opened : Yields (readAt limits lines 0) {}
      (some (Node.ofComment "-* x".toList false 0 1, 1)) { linesRead := 1, inBlock := true } := rfl
  have closed : Yields (readAt limits lines 1) { linesRead := 1, inBlock := true }
      (some (Node.ofComment "*-".toList true 0 2, 2)) { linesRead := 2 } := rfl
  have reached : Reaches limits lines 2 { linesRead := 2 } _ := .item (.item .start opened) closed
  obtain ⟨root, last, all, -⟩ := @exists_yields _ (readAll limits lines) {} (fun _ => true)
    (by decide +kernel)
  obtain ⟨item, after, read, ends⟩ := @exists_yields _ (readAt limits lines 2) { linesRead := 2 }
    (fun item => item.any fun item => item.2 = 6) (by decide +kernel)
  cases item with
  | none => cases ends
  | some item =>
    obtain ⟨node, next⟩ := item
    obtain rfl : next = 6 := of_decide_eq_true ends
    obtain ⟨-, block, -, onward⟩ := wherever 2 _ _ reached
    exact ⟨⟨_, _, node, after, reached, block, read, (onward node 6 after read).2.2⟩,
      ⟨root, last, all, whole root last all⟩, fun limit failed => never _ failed limit rfl⟩

end AsnLayout
