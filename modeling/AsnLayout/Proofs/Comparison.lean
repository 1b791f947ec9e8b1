import AsnLayout.Command.Run
import AsnLayout.Proofs.Disks

/-!
# Comparing and updating files

A run that compares files tells which of them a run that updates them writes over, and writes none
itself.  Both runs go through the files one by one; a run that updates leaves every path name at its
place, so it reads each file as the run that compares does.  It breaks off at the first file that it
has to write over and may not.
-/

set_option autoImplicit false

namespace AsnLayout.Command

namespace World

variable (world : World)

theorem notify_kept (verbose : Bool) (notices : List Notice) :
    (world.notify verbose notices).disk = world.disk ∧
      (world.notify verbose notices).output = world.output := by
  rw [notify]
  generalize notices.filter _ = printed
  induction printed generalizing world with
  | nil => exact ⟨rfl, rfl⟩
  | cons notice later ih => exact ih (world.complain _)

@[simp]
theorem notify_disk (verbose : Bool) (notices : List Notice) :
    (world.notify verbose notices).disk = world.disk :=
  (world.notify_kept verbose notices).1

@[simp]
theorem notify_output (verbose : Bool) (notices : List Notice) :
    (world.notify verbose notices).output = world.output :=
  (world.notify_kept verbose notices).2

end World

/-! ## Targets -/

/-- A file that a path names, and the text that its bytes encode. -/
structure Target where
  path : Text
  place : Place
  bytes : List UInt8
  text : Text
  deriving DecidableEq, Repr

namespace Target

def source (target : Target) : Text := Text.unifyNewlines target.text

def formatted (target : Target) (options : Options) : Text :=
  (formatSource target.path target.source options).result

def changes (target : Target) (options : Options) : Bool :=
  target.formatted options ≠ target.source

def updated (target : Target) (options : Options) : List UInt8 :=
  if target.changes options then Utf8.encode (target.formatted options) else target.bytes

/-- Whether the rights of a disk allow what updating a target takes. -/
def mayUpdate (target : Target) (options : Options) (disk : Disk) : Bool :=
  !target.changes options || disk.allows target.place .write

structure OnDisk (target : Target) (disk : Disk) : Prop where
  isPath : target.path ≠ World.inputPath
  noNull : (PathName.ofText target.path).hasNull = false
  located : disk.locate (PathName.ofText target.path) = .ok target.place
  held : disk.entry target.place = .file target.bytes
  readable : disk.allows target.place .read = true
  decoded : Utf8.decode target.bytes = .ok target.text

def announced (opening : String) (paths : List Text) : Text :=
  paths.flatMap fun path => opening.toList ++ path ++ ['\n']

variable {target : Target} {disk other : Disk} {world : World}

theorem OnDisk.of_alike (onDisk : target.OnDisk disk) (alike : disk.Alike other)
    (same : other.entry target.place = disk.entry target.place) : target.OnDisk other where
  isPath := onDisk.isPath
  noNull := onDisk.noNull
  located := (alike.locate_eq _).trans onDisk.located
  held := same.trans onDisk.held
  readable := (alike.allows_eq ..).trans onDisk.readable
  decoded := onDisk.decoded

theorem OnDisk.sourceText (onDisk : target.OnDisk world.disk) :
    world.sourceText target.path = .ok (target.source, world) := by
  simp only [World.sourceText, if_neg onDisk.isPath, onDisk.noNull, Bool.false_eq_true, if_false,
    Disk.read, onDisk.located, onDisk.held, onDisk.readable, if_true, onDisk.decoded]
  rfl

theorem OnDisk.writeText (onDisk : target.OnDisk world.disk) (text : Text) :
    world.writeText target.path text =
      if world.disk.allows target.place .write then
        .ok { world with disk := world.disk.put target.place (Utf8.encode text) }
      else .error (.notWritten ⟨.denied, PathName.ofText target.path⟩) := by
  simp only [World.writeText, onDisk.noNull, Bool.false_eq_true, if_false, Disk.write,
    onDisk.located, onDisk.held]
  cases world.disk.allows target.place .write <;> rfl

theorem mayUpdate_of_alike (alike : disk.Alike other) (target : Target) (options : Options) :
    target.mayUpdate options other = target.mayUpdate options disk := by
  rw [mayUpdate, mayUpdate, alike.allows_eq]

end Target

/-! ## One file -/

/-- Bytes in the places of targets, and nothing else changed. -/
structure Updated (options : Options) (targets : List Target) (disk other : Disk) : Prop where
  alike : disk.Alike other
  written : ∀ target ∈ targets, other.entry target.place = .file (target.updated options)
  others : ∀ place, place ∉ targets.map (·.place) → other.entry place = disk.entry place

def changedTargets (options : Options) (targets : List Target) : List Target :=
  targets.filter (·.changes options)

section

variable (options : Options) (verbose : Bool) {target : Target} {world : World}

theorem changed_step (changed : List Text) (target : Target) (options : Options) :
    (if target.formatted options = target.source then changed else changed ++ [target.path]) =
      changed ++ (changedTargets options [target]).map (·.path) := by
  by_cases same : target.formatted options = target.source
  · simp [changedTargets, Target.changes, same]
  · simp [changedTargets, Target.changes, same]

theorem formatPaths_compare_cons (onDisk : target.OnDisk world.disk) :
    ∃ after : World, after.disk = world.disk ∧ after.output = world.output ∧
      ∀ changed later, formatPaths options .compare verbose changed world (target.path :: later) =
        formatPaths options .compare verbose
          (changed ++ (changedTargets options [target]).map (·.path)) after later := by
  refine ⟨world.notify verbose (formatSource target.path target.source options).notices,
    by simp, by simp, fun changed later => ?_⟩
  rw [formatPaths, onDisk.sourceText, ← changed_step]
  rfl

/-- A run that updates writes a target over if formatting changes its text, and goes on behind it.
-/
theorem formatPaths_update_cons (onDisk : target.OnDisk world.disk)
    (allowed : target.mayUpdate options world.disk = true) :
    ∃ after : World, Updated options [target] world.disk after.disk ∧
      after.output = world.output ++
        Target.announced "  Formatted " ((changedTargets options [target]).map (·.path)) ∧
      ∀ changed later, formatPaths options .update verbose changed world (target.path :: later) =
        formatPaths options .update verbose
          (changed ++ (changedTargets options [target]).map (·.path)) after later := by
  let noted := world.notify verbose (formatSource target.path target.source options).notices
  have step {after : World} (delivered :
      deliver .update target.path target.source (target.formatted options) noted = .ok after)
      (changed later : List Text) :
      formatPaths options .update verbose changed world (target.path :: later) =
        formatPaths options .update verbose
          (changed ++ (changedTargets options [target]).map (·.path)) after later := by
    rw [formatPaths, onDisk.sourceText, ← changed_step]
    simp only [Target.formatted, noted] at delivered ⊢
    simp only [delivered]
    rfl
  have disk : noted.disk = world.disk := World.notify_disk ..
  have output : noted.output = world.output := World.notify_output ..
  have there : target.OnDisk noted.disk := disk ▸ onDisk
  by_cases same : target.formatted options = target.source
  · have keeps : target.changes options = false := by simp [Target.changes, same]
    refine ⟨noted, ⟨disk ▸ .refl _, ?_, fun place _ => by rw [disk]⟩, ?_, fun changed later => ?_⟩
    · intro other member
      rw [List.mem_singleton.mp member, Target.updated, keeps, if_neg (by simp), there.held]
    · simp [changedTargets, keeps, Target.announced, output]
    · exact step (by simp only [deliver, if_neg onDisk.isPath, if_pos same]) changed later
  · have changes : target.changes options = true := by simp [Target.changes, same]
    let written : World :=
      { noted with disk := noted.disk.put target.place (Utf8.encode (target.formatted options)) }
    refine ⟨written.print ("  Formatted ".toList ++ target.path ++ ['\n']), ⟨?_, ?_, ?_⟩, ?_,
      fun changed later => ?_⟩
    · rw [← disk]
      exact Disk.alike_put there.held _
    · intro other member
      rw [List.mem_singleton.mp member, Target.updated, if_pos changes]
      exact (Disk.entry_put there.held ..).trans (if_pos rfl)
    · intro place apart
      rw [← disk]
      exact (Disk.entry_put there.held ..).trans (if_neg (by simpa using apart))
    · simp [changedTargets, changes, Target.announced, World.print, written, output]
    · refine step ?_ changed later
      have mayWrite : noted.disk.allows target.place .write = true := by
        rw [disk]
        simpa [Target.mayUpdate, changes] using allowed
      simp only [deliver, if_neg onDisk.isPath, if_neg same, there.writeText, if_pos mayWrite]
      rfl

/-- A run that updates breaks off at a target that it has to write over and may not. -/
theorem formatPaths_update_refused (onDisk : target.OnDisk world.disk)
    (refused : target.mayUpdate options world.disk = false) (changed later : List Text) :
    let ended := formatPaths options .update verbose changed world (target.path :: later)
    ended.1 = .broken (.notWritten ⟨.denied, PathName.ofText target.path⟩) ∧
      ended.2.disk = world.disk ∧ ended.2.output = world.output := by
  let noted := world.notify verbose (formatSource target.path target.source options).notices
  have disk : noted.disk = world.disk := World.notify_disk ..
  have there : target.OnDisk noted.disk := disk ▸ onDisk
  simp only [Target.mayUpdate, Bool.or_eq_false_iff, Bool.not_eq_false'] at refused
  obtain ⟨changes, mayNot⟩ := refused
  have differs : target.formatted options ≠ target.source := of_decide_eq_true changes
  have delivered : deliver .update target.path target.source (target.formatted options) noted =
      .error (.notWritten ⟨.denied, PathName.ofText target.path⟩) := by
    have mayNot' : ¬ noted.disk.allows target.place .write = true := by rw [disk, mayNot]; simp
    simp only [deliver, if_neg onDisk.isPath, if_neg differs, there.writeText, if_neg mayNot']
  intro ended
  have broken : ended = (.broken (.notWritten ⟨.denied, PathName.ofText target.path⟩), noted) := by
    simp only [Target.formatted, noted] at delivered
    simp only [ended, formatPaths, onDisk.sourceText, delivered, noted]
  rw [broken]
  exact ⟨rfl, disk, World.notify_output ..⟩

end

/-! ## Several files -/

theorem changedTargets_cons (options : Options) (target : Target) (later : List Target) :
    changedTargets options (target :: later) =
      changedTargets options [target] ++ changedTargets options later :=
  List.filter_append [target] later

theorem Updated.cons {options : Options} {target : Target} {later : List Target}
    {disk middle other : Disk} (here : Updated options [target] disk middle)
    (rest : Updated options later middle other)
    (apart : target.place ∉ later.map (·.place)) :
    Updated options (target :: later) disk other where
  alike := here.alike.trans rest.alike
  written := by
    intro some member
    rcases List.mem_cons.mp member with rfl | behind
    · rw [rest.others _ apart]
      exact here.written _ List.mem_cons_self
    · exact rest.written some behind
  others := by
    intro place outside
    rw [List.map_cons, List.mem_cons, not_or] at outside
    rw [rest.others place outside.2]
    exact here.others place (by simpa using outside.1)

section

variable (options : Options) (verbose : Bool)

/-- A run that compares passes over targets without changing the disk or printing anything. -/
theorem formatPaths_compare {targets : List Target} {world : World}
    (onDisk : ∀ target ∈ targets, target.OnDisk world.disk) :
    ∃ after : World, after.disk = world.disk ∧ after.output = world.output ∧
      ∀ changed later,
        formatPaths options .compare verbose changed world (targets.map (·.path) ++ later) =
          formatPaths options .compare verbose
            (changed ++ (changedTargets options targets).map (·.path)) after later := by
  induction targets generalizing world with
  | nil => exact ⟨world, rfl, rfl, fun changed later => by simp [changedTargets]⟩
  | cons target rest ih =>
    obtain ⟨here, there⟩ := List.forall_mem_cons.mp onDisk
    obtain ⟨middle, disk, output, step⟩ := formatPaths_compare_cons options verbose here
    obtain ⟨after, disk', output', run⟩ := @ih middle (disk ▸ there)
    refine ⟨after, disk'.trans disk, output'.trans output, fun changed later => ?_⟩
    rw [List.map_cons, List.cons_append, step, run, changedTargets_cons options target rest,
      List.map_append, List.append_assoc]

/-- A run that updates writes the targets over whose text formatting changes, and tells so. -/
theorem formatPaths_update {targets : List Target} {world : World}
    (onDisk : ∀ target ∈ targets, target.OnDisk world.disk)
    (allowed : ∀ target ∈ targets, target.mayUpdate options world.disk = true)
    (apart : (targets.map (·.place)).Nodup) :
    ∃ after : World, Updated options targets world.disk after.disk ∧
      after.output = world.output ++
        Target.announced "  Formatted " ((changedTargets options targets).map (·.path)) ∧
      ∀ changed later,
        formatPaths options .update verbose changed world (targets.map (·.path) ++ later) =
          formatPaths options .update verbose
            (changed ++ (changedTargets options targets).map (·.path)) after later := by
  induction targets generalizing world with
  | nil =>
    refine ⟨world, ⟨.refl _, by simp, fun _ _ => rfl⟩, ?_, fun changed later => ?_⟩ <;>
      simp [changedTargets, Target.announced]
  | cons target rest ih =>
    obtain ⟨here, there⟩ := List.forall_mem_cons.mp onDisk
    obtain ⟨mayHere, mayThere⟩ := List.forall_mem_cons.mp allowed
    rw [List.map_cons, List.nodup_cons] at apart
    obtain ⟨middle, updated, output, step⟩ := formatPaths_update_cons options verbose here mayHere
    have kept : ∀ other ∈ rest, other.OnDisk middle.disk := by
      intro other member
      refine (there other member).of_alike updated.alike (updated.others _ ?_)
      rw [List.map_singleton, List.mem_singleton]
      intro same
      exact apart.1 (same ▸ List.mem_map_of_mem member)
    have may : ∀ other ∈ rest, other.mayUpdate options middle.disk = true := fun other member =>
      (Target.mayUpdate_of_alike updated.alike other options).trans (mayThere other member)
    obtain ⟨after, updated', output', run⟩ := ih kept may apart.2
    refine ⟨after, updated.cons updated' apart.1, ?_, fun changed later => ?_⟩
    · rw [output', output, changedTargets_cons options target rest, List.map_append,
        Target.announced, Target.announced, Target.announced, List.flatMap_append,
        List.append_assoc]
    · rw [List.map_cons, List.cons_append, step, run, changedTargets_cons options target rest,
        List.map_append, List.append_assoc]

/-- A run that updates has done its work on the targets before one that it may not write over. -/
theorem formatPaths_update_stopped {targets : List Target} {refused : Target} {world : World}
    (onDisk : ∀ target ∈ targets, target.OnDisk world.disk)
    (allowed : ∀ target ∈ targets, target.mayUpdate options world.disk = true)
    (apart : (targets.map (·.place)).Nodup) (here : refused.OnDisk world.disk)
    (outside : refused.place ∉ targets.map (·.place))
    (mayNot : refused.mayUpdate options world.disk = false) (later : List Text) :
    let ended := formatPaths options .update verbose [] world
      (targets.map (·.path) ++ refused.path :: later)
    ended.1 = .broken (.notWritten ⟨.denied, PathName.ofText refused.path⟩) ∧
      Updated options targets world.disk ended.2.disk ∧
      ended.2.output = world.output ++
        Target.announced "  Formatted " ((changedTargets options targets).map (·.path)) := by
  obtain ⟨middle, done, output, update⟩ := formatPaths_update options verbose onDisk allowed apart
  have there := here.of_alike done.alike (done.others _ outside)
  have mayNot' := (Target.mayUpdate_of_alike done.alike refused options).trans mayNot
  obtain ⟨broken, disk, kept⟩ := formatPaths_update_refused options verbose there mayNot'
    ([] ++ (changedTargets options targets).map (·.path)) later
  intro ended
  have stopped : ended = formatPaths options .update verbose
      ([] ++ (changedTargets options targets).map (·.path)) middle (refused.path :: later) :=
    update [] (refused.path :: later)
  rw [stopped, disk, kept]
  exact ⟨broken, done, output⟩

end

theorem announced_output (world : World) (opening : String) (paths : List Text) :
    (paths.foldl (fun world path => world.print (opening.toList ++ path ++ ['\n'])) world).output =
        world.output ++ Target.announced opening paths ∧
      (paths.foldl (fun world path => world.print (opening.toList ++ path ++ ['\n']))
        world).disk = world.disk := by
  induction paths generalizing world with
  | nil => simp [Target.announced]
  | cons path later ih =>
    obtain ⟨output, disk⟩ := ih (world.print (opening.toList ++ path ++ ['\n']))
    rw [List.foldl_cons, output, disk]
    simp [Target.announced, World.print]

/-- What cannot be read ends a run with status 1, and the run prints nothing more. -/
theorem formatPaths_unreadable {world : World} {path : Text} {error : Disk.Error}
    (failed : world.sourceText path = .error (.disk error)) (options : Options) (mode : Mode)
    (verbose : Bool) (changed later : List Text) :
    let ended := formatPaths options mode verbose changed world (path :: later)
    ended.1 = .exit 1 ∧ ended.2.disk = world.disk ∧ ended.2.output = world.output := by
  rw [formatPaths, failed]
  exact ⟨rfl, rfl, rfl⟩

theorem sourceText_error {world other : World} {path : Text} {error : Disk.Error}
    (alike : world.disk.Alike other.disk)
    (failed : world.sourceText path = .error (.disk error)) :
    other.sourceText path = .error (.disk error) := by
  rw [World.sourceText] at failed ⊢
  split at failed
  · cases failed
  · rename_i isPath
    rw [if_neg isPath]
    simp only at failed ⊢
    split at failed
    · cases failed
    · rename_i noNull
      rw [if_neg noNull]
      cases read : world.disk.read (PathName.ofText path) with
      | error problem =>
        rw [read] at failed
        rw [alike.read_error read]
        exact failed
      | ok bytes =>
        rw [read] at failed
        simp only at failed
        split at failed <;> cases failed

/-- A run that compares files leaves them all, and names those whose text formatting changes, in
order; its status tells whether there are any.  A run that updates them writes over just these, if it
may, and leaves every other place as it is; at the first that it may not write over it breaks off, with
what it has done to the files before.  If a path behind the files cannot be read both runs end there. -/
theorem compare_predicts_update (options : Options) (verbose : Bool) (world : World)
    (targets : List Target) (onDisk : ∀ target ∈ targets, target.OnDisk world.disk)
    (apart : (targets.map (·.place)).Nodup) :
    let rewritten := (changedTargets options targets).map (·.path)
    let allowed := ∀ target ∈ targets, target.mayUpdate options world.disk = true
    let compared (later : List Text) :=
      formatPaths options .compare verbose [] world (targets.map (·.path) ++ later)
    let updated (later : List Text) :=
      formatPaths options .update verbose [] world (targets.map (·.path) ++ later)
    ((compared []).1 = .exit (if rewritten = [] then 0 else 1) ∧
      (compared []).2.disk = world.disk ∧
      (compared []).2.output = world.output ++ Target.announced "Would reformat " rewritten) ∧
    (allowed → (updated []).1 = .exit 0 ∧ Updated options targets world.disk (updated []).2.disk ∧
      (updated []).2.output = world.output ++ Target.announced "  Formatted " rewritten) ∧
    (∀ path later error, world.sourceText path = .error (.disk error) →
      ((compared (path :: later)).1 = .exit 1 ∧
        (compared (path :: later)).2.disk = world.disk) ∧
      (allowed → (updated (path :: later)).1 = .exit 1 ∧
        (updated (path :: later)).2.disk = (updated []).2.disk ∧
        (updated (path :: later)).2.output = (updated []).2.output)) ∧
    ∀ before refused after, targets = before ++ refused :: after →
      (∀ target ∈ before, target.mayUpdate options world.disk = true) →
      refused.mayUpdate options world.disk = false → ∀ later,
        (updated later).1 = .broken (.notWritten ⟨.denied, PathName.ofText refused.path⟩) ∧
        Updated options before world.disk (updated later).2.disk ∧
        (updated later).2.output = world.output ++
          Target.announced "  Formatted " ((changedTargets options before).map (·.path)) := by
  intro rewritten allowed compared updated
  obtain ⟨seen, seenDisk, seenOutput, compare⟩ := formatPaths_compare options verbose onDisk
  have compareRun : compared [] = finishFormat .compare rewritten seen := compare [] []
  obtain ⟨told, kept⟩ := announced_output seen "Would reformat " rewritten
  have written (may : allowed) := formatPaths_update options verbose onDisk may apart
  refine ⟨⟨?_, ?_, ?_⟩, fun may => ?_, fun path later error failed => ⟨?_, fun may => ?_⟩, ?_⟩
  · rw [compareRun]
    rfl
  · rw [compareRun]
    exact kept.trans seenDisk
  · rw [compareRun]
    exact told.trans (congrArg (· ++ _) seenOutput)
  · obtain ⟨after, done, output, update⟩ := written may
    have updateRun : updated [] = (.exit 0, after) := update [] []
    rw [updateRun]
    exact ⟨rfl, done, output⟩
  · have same : world.disk.Alike seen.disk := seenDisk ▸ Disk.Alike.refl _
    have stop := formatPaths_unreadable (sourceText_error same failed) options .compare verbose
      ([] ++ rewritten) later
    rw [← compare] at stop
    exact ⟨stop.1, stop.2.1.trans seenDisk⟩
  · obtain ⟨after, done, output, update⟩ := written may
    have updateRun : updated [] = (.exit 0, after) := update [] []
    have stop := formatPaths_unreadable (sourceText_error done.alike failed) options .update verbose
      ([] ++ rewritten) later
    rw [← update] at stop
    rw [updateRun]
    exact stop
  · intro before refused after split may mayNot later
    subst split
    obtain ⟨onBefore, onLater⟩ := List.forall_mem_append.mp onDisk
    have here := (List.forall_mem_cons.mp onLater).1
    rw [List.map_append, List.map_cons] at apart
    obtain ⟨apartBefore, -, apartLater⟩ := List.nodup_append.mp apart
    have outside : refused.place ∉ before.map (·.place) := fun member =>
      apartLater _ member _ List.mem_cons_self rfl
    have whole : updated later = formatPaths options .update verbose [] world
        (before.map (·.path) ++ refused.path :: (after.map (·.path) ++ later)) := by
      simp [updated]
    rw [whole]
    exact formatPaths_update_stopped options verbose onBefore may apartBefore here outside mayNot _

/-- A file whose text changes, a note that keeps its bytes, line ends included, a missing file, and a
file that may only be read. -/
theorem compare_predicts_update_mixed :
    let first : Target := ⟨"a.asn".toList, ["a.asn".toList],
      Utf8.encode "A::=INTEGER -- é".toList, "A::=INTEGER -- é".toList⟩
    let second : Target := ⟨"./b/c.MD".toList, ["b".toList, "c.MD".toList],
      Utf8.encode "x\r\n```asn1\nA ::= NULL\n```".toList,
      "x\r\n```asn1\nA ::= NULL\n```".toList⟩
    let third : Target := ⟨"r.asn".toList, ["r.asn".toList], Utf8.encode "B::=NULL".toList,
      "B::=NULL".toList⟩
    let disk : Disk :=
      { files := [(second.place, second.bytes), (["z".toList], []), (first.place, first.bytes),
          (third.place, third.bytes)]
        refused := [(third.place, .write)] }
    let compared := formatPaths {} .compare false [] { disk } ([first, second].map (·.path))
    let updated := formatPaths {} .update false [] { disk } ([first, second].map (·.path))
    let stopped := formatPaths {} .update false [] { disk } ([first, second, third].map (·.path))
    (∀ target ∈ [first, second, third], target.OnDisk disk) ∧
      compared.1 = .exit 1 ∧ compared.2.output = "Would reformat a.asn\n".toList ∧
      updated.1 = .exit 0 ∧ updated.2.output = "  Formatted a.asn\n".toList ∧
      updated.2.disk.entry first.place = .file (Utf8.encode "A ::= INTEGER -- é\n".toList) ∧
      updated.2.disk.entry second.place = .file second.bytes ∧
      updated.2.disk.entry ["z".toList] = .file [] ∧
      (formatPaths {} .update false [] { disk }
        ([first, second].map (·.path) ++ "b/d".toList :: ["z".toList])).1 = .exit 1 ∧
      stopped.1 = .broken (.notWritten ⟨.denied, PathName.ofText third.path⟩) ∧
      stopped.2.disk.entry third.place = .file third.bytes := by
  intro first second third disk
  have onDisk : ∀ target ∈ [first, second, third], target.OnDisk disk := by
    refine List.forall_mem_cons.mpr ⟨?_, List.forall_mem_cons.mpr ⟨?_,
      List.forall_mem_singleton.mpr ?_⟩⟩
    · exact ⟨by decide +kernel, by decide +kernel, by rfl, by rfl, by rfl, by rfl⟩
    · exact ⟨by decide +kernel, by decide +kernel, by rfl, by rfl, by rfl, by rfl⟩
    · exact ⟨by decide +kernel, by decide +kernel, by rfl, by rfl, by rfl, by rfl⟩
  have onBoth : ∀ target ∈ [first, second], target.OnDisk disk := fun target member =>
    onDisk target (List.mem_append_left [third] member)
  have rewritten : changedTargets {} [first, second] = [first] := by decide +kernel
  have missing : ({ disk } : World).sourceText "b/d".toList =
      .error (.disk ⟨.missing, PathName.ofText "b/d".toList⟩) := by rfl
  have mayUpdate : ∀ target ∈ [first, second], target.mayUpdate {} disk = true := by decide +kernel
  obtain ⟨⟨status, -, told⟩, allowed, unreadable, -⟩ :=
    compare_predicts_update {} false { disk } [first, second] onBoth (by decide +kernel)
  obtain ⟨done, written, said⟩ := allowed mayUpdate
  have ended := ((unreadable _ ["z".toList] _ missing).2 mayUpdate).1
  obtain ⟨-, -, -, refused⟩ :=
    compare_predicts_update {} false { disk } [first, second, third] onDisk (by decide +kernel)
  obtain ⟨broken, kept, -⟩ := refused [first, second] third [] rfl mayUpdate (by decide +kernel) []
  simp only [List.append_nil, rewritten] at status told done written said broken kept
  clear unreadable allowed refused
  -- From here on only what is known of the runs counts, and nothing runs them again.
  generalize formatPaths {} .compare false [] { disk } ([first, second].map (·.path)) = compared at *
  generalize formatPaths {} .update false [] { disk } ([first, second].map (·.path)) = updated at *
  generalize formatPaths {} .update false [] { disk } ([first, second, third].map (·.path)) =
    stopped at *
  refine ⟨onDisk, status.trans (congrArg Ending.exit (by decide +kernel)),
    told.trans (by decide +kernel), done, said.trans (by decide +kernel), ?_, ?_, ?_, ended, broken, ?_⟩
  · have here : first.updated {} = Utf8.encode "A ::= INTEGER -- é\n".toList := by decide +kernel
    rw [← here]
    exact written.written first (by simp)
  · have here : second.updated {} = second.bytes := by decide +kernel
    rw [← here]
    exact written.written second (by simp)
  · exact (written.others _ (by decide +kernel)).trans (by rfl)
  · exact (kept.others _ (by decide +kernel)).trans (by rfl)

/-- A file whose text changes and that may only be read is named, but not written; and a path with a null
character breaks both runs off. -/
theorem compare_predicts_update_read_only :
    let target : Target := ⟨"r.asn".toList, ["r.asn".toList], Utf8.encode "B::=NULL".toList,
      "B::=NULL".toList⟩
    let disk : Disk :=
      { files := [(target.place, target.bytes)], refused := [(target.place, .write)] }
    target.OnDisk disk ∧
      (formatPaths {} .compare false [] { disk } [target.path]).1 = .exit 1 ∧
      (formatPaths {} .update false [] { disk } [target.path]).1 =
        .broken (.notWritten ⟨.denied, PathName.ofText target.path⟩) ∧
      (formatPaths {} .update false [] { disk } [target.path]).2.disk.entry target.place =
        .file target.bytes ∧
      (formatPaths {} .compare false [] { disk } ["a\x00b".toList]).1 = .broken .nullInPath ∧
      (formatPaths {} .update false [] { disk } ["a\x00b".toList]).1 = .broken .nullInPath := by
  intro target disk
  have onDisk : target.OnDisk disk :=
    ⟨by decide +kernel, by decide +kernel, by rfl, by rfl, by rfl, by rfl⟩
  have rewritten : changedTargets {} [target] = [target] := by decide +kernel
  obtain ⟨seen, -, -, compare⟩ := @formatPaths_compare {} false [target] { disk }
    (List.forall_mem_singleton.mpr onDisk)
  have compared := compare [] []
  rw [rewritten, List.append_nil, List.map_singleton] at compared
  obtain ⟨broken, kept, -⟩ := @formatPaths_update_refused {} false target { disk } onDisk
    (by decide +kernel) [] []
  refine ⟨onDisk, ?_, broken, ?_, ?_, ?_⟩
  · rw [compared, formatPaths]
    rfl
  · rw [kept]
    exact onDisk.held
  · rw [formatPaths]
    rfl
  · rw [formatPaths]
    rfl

end AsnLayout.Command
