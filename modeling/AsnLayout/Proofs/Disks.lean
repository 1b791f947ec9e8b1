import AsnLayout.Command.Disk

/-!
# Files written over

Bytes put at the place of a file leave everything else on a disk as it is, so every path name leads
where it led before.
-/

set_option autoImplicit false

namespace AsnLayout.Disk

/-- Disks with files and folders at the same places, and the same rights. -/
structure Alike (disk other : Disk) : Prop where
  files : other.files.map (·.1) = disk.files.map (·.1)
  folders : other.folders = disk.folders
  refused : other.refused = disk.refused

namespace Alike

variable {disk other later : Disk}

theorem refl (disk : Disk) : Alike disk disk := ⟨rfl, rfl, rfl⟩

theorem trans (first : Alike disk other) (second : Alike other later) : Alike disk later :=
  ⟨second.files.trans first.files, second.folders.trans first.folders,
    second.refused.trans first.refused⟩

theorem allows_eq (alike : Alike disk other) (place : Place) (access : Access) :
    other.allows place access = disk.allows place access := by
  rw [allows, allows, alike.refused]

theorem hasFolder_eq (alike : Alike disk other) (place : Place) :
    other.hasFolder place = disk.hasFolder place := by
  have below (files : List (Place × List UInt8)) :
      (files.any fun file => place.isPrefixOf file.1 && place.length < file.1.length) =
        (files.map (·.1)).any fun file => place.isPrefixOf file && place.length < file.length := by
    rw [List.any_map]
    rfl
  simp only [hasFolder, alike.folders, below, alike.files]

theorem isSome_find? (alike : Alike disk other) (place : Place) :
    (other.files.find? (·.1 = place)).isSome = (disk.files.find? (·.1 = place)).isSome := by
  have found (files : List (Place × List UInt8)) :
      (files.find? (·.1 = place)).isSome = ((files.map (·.1)).find? (· = place)).isSome := by
    rw [List.find?_map, Option.isSome_map]
    rfl
  rw [found, found, alike.files]

theorem entry_cases (alike : Alike disk other) (place : Place) :
    (∃ bytes new, disk.entry place = .file bytes ∧ other.entry place = .file new) ∨
      (∀ bytes, disk.entry place ≠ .file bytes) ∧ other.entry place = disk.entry place := by
  have same := alike.isSome_find? place
  cases here : disk.files.find? (·.1 = place) <;> cases there : other.files.find? (·.1 = place) <;>
    simp only [here, there, Option.isSome_none, Option.isSome_some, reduceCtorEq] at same
  · refine .inr ⟨fun bytes => ?_, ?_⟩
    · rw [entry, here]
      simp only
      split <;> simp
    · simp only [entry, here, there, alike.hasFolder_eq]
  · exact .inl ⟨_, _, by rw [entry, here], by rw [entry, there]⟩

theorem walk_eq (alike : Alike disk other) (place : Place) (steps : List Text) :
    other.walk place steps = disk.walk place steps := by
  induction steps generalizing place with
  | nil => rfl
  | cons step later ih =>
    rw [walk, walk]
    rcases alike.entry_cases place with ⟨bytes, new, here, there⟩ | ⟨-, same⟩
    · rw [here, there]
    · simp only [same, alike.allows_eq, ih]

theorem locate_eq (alike : Alike disk other) (path : PathName) :
    other.locate path = disk.locate path := by
  simp only [locate, alike.walk_eq]

theorem read_error (alike : Alike disk other) {path : PathName} {error : Disk.Error}
    (failed : disk.read path = .error error) : other.read path = .error error := by
  simp only [read, alike.locate_eq] at failed ⊢
  cases located : disk.locate path with
  | error problem => rwa [located] at failed
  | ok place =>
    simp only [located, alike.allows_eq] at failed ⊢
    rcases alike.entry_cases place with ⟨bytes, new, here, there⟩ | ⟨-, same⟩
    · simp only [here] at failed
      simp only [there]
      by_cases allowed : disk.allows place .read = true
      · rw [if_pos allowed] at failed
        cases failed
      · rwa [if_neg allowed] at failed ⊢
    · rwa [same]

end Alike

variable {disk : Disk} {place : Place} {bytes : List UInt8}

theorem any_of_entry (isFile : disk.entry place = .file bytes) :
    disk.files.any (·.1 = place) = true := by
  cases found : disk.files.find? (·.1 = place) with
  | none =>
    rw [entry, found] at isFile
    simp only at isFile
    split at isFile <;> cases isFile
  | some file =>
    have here : decide (file.1 = place) = true := by simpa using List.find?_some found
    exact List.any_eq_true.mpr ⟨file, List.mem_of_find?_eq_some found, here⟩

theorem alike_put (isFile : disk.entry place = .file bytes) (new : List UInt8) :
    Alike disk (disk.put place new) := by
  rw [put, if_pos (any_of_entry isFile)]
  refine ⟨?_, rfl, rfl⟩
  rw [List.map_map]
  refine List.map_congr_left fun file _ => ?_
  simp only [Function.comp_apply]
  split
  · rename_i same
    exact same.symm
  · rfl

theorem entry_put (isFile : disk.entry place = .file bytes) (new : List UInt8) (other : Place) :
    (disk.put place new).entry other = if other = place then .file new else disk.entry other := by
  have alike := alike_put isFile new
  have files : (disk.put place new).files =
      disk.files.map fun file => if file.1 = place then (place, new) else file := by
    rw [put, if_pos (any_of_entry isFile)]
  have keys : (fun file : Place × List UInt8 => decide (file.1 = other)) ∘
      (fun file => if file.1 = place then (place, new) else file) =
        fun file => decide (file.1 = other) := by
    funext file
    simp only [Function.comp_apply]
    split
    · rename_i same
      rw [same]
    · rfl
  have found : (disk.put place new).files.find? (·.1 = other) =
      (disk.files.find? (·.1 = other)).map fun file =>
        if file.1 = place then (place, new) else file := by
    rw [files, List.find?_map, keys]
  rw [entry, found]
  cases here : disk.files.find? (·.1 = other) with
  | none =>
    have apart : other ≠ place := by
      rintro rfl
      have := any_of_entry isFile
      rw [List.find?_eq_none] at here
      simp only [List.any_eq_true] at this
      obtain ⟨file, member, same⟩ := this
      exact here file member same
    simp only [Option.map_none, alike.hasFolder_eq, if_neg apart, entry, here]
  | some file =>
    have key : file.1 = other := by simpa using List.find?_some here
    simp only [Option.map_some, key]
    split
    · rfl
    · simp only [entry, here]

end AsnLayout.Disk
