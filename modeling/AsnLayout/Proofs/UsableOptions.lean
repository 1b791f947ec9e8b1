import AsnLayout.Notice
import Mathlib.Data.List.Induction

/-!
# Usable options

Whatever values a draft holds, its usable options are positive numbers, and they are usable as they
are.  A draft is refused for the first bad value in the order of the checks.  In settings each
option has names of its own, so the last entry under one of them decides, whatever stands between.
-/

set_option autoImplicit false

namespace AsnLayout

def Options.number (options : Options) : NumericOption → Int
  | .indentWidth => options.indentWidth
  | .maxLineLength => options.maxLineLength
  | .iterationFactor => options.iterationFactor
  | .maxDepth => options.maxDepth

/-! ## Values of numeric options -/

def Value.IsPositive (value : Value) : Prop := ∃ number, value = .int number ∧ 1 ≤ number

namespace NumericOption

/-- The number used for a value: an integer, but one at least, and the default for any other
value. -/
def settled (option : NumericOption) : Value → Int
  | .int number => max 1 number
  | _ => option.defaultValue

inductive Faulty (option : NumericOption) : Value → OptionFault → Prop where
  | small {number : Int} (small : number < 1) :
      Faulty option (.int number) (.notPositive option number)
  | other {value : Value} (other : ∀ number, value ≠ .int number) :
      Faulty option value (.notInteger option value)

/-- A value is a positive integer, or it is replaced for what is wrong with it. -/
theorem check_cases (option : NumericOption) (value : Value) :
    (value.IsPositive ∧ option.check value = .ok (option.settled value)) ∨
      ∃ fault, ¬value.IsPositive ∧ option.Faulty value fault ∧ option.check value = .error fault ∧
        fault.replacement option = option.settled value := by
  cases value with
  | int number =>
    by_cases small : number < 1
    · refine .inr ⟨.notPositive option number, ?_, .small small, ?_, ?_⟩
      · rintro ⟨_, ⟨rfl⟩, positive⟩
        omega
      · simp [check, small]
      · simp only [OptionFault.replacement, settled]
        omega
    · refine .inl ⟨⟨number, rfl, by omega⟩, ?_⟩
      simp only [check, small, if_false, settled]
      rw [Int.max_eq_right (by omega)]
  | _ =>
    refine .inr ⟨.notInteger option _, ?_, .other (by simp), rfl, rfl⟩
    rintro ⟨_, ⟨⟩, -⟩

variable {option : NumericOption} {value : Value}

theorem check_eq_error_iff {fault : OptionFault} :
    option.check value = .error fault ↔ option.Faulty value fault := by
  constructor
  · intro refused
    rcases option.check_cases value with ⟨-, passed⟩ | ⟨found, -, faulty, failed, -⟩
    · rw [refused] at passed
      cases passed
    · rw [refused] at failed
      cases failed
      exact faulty
  · intro faulty
    cases faulty with
    | small small => simp [check, small]
    | other other =>
      cases value with
      | int number => exact absurd rfl (other number)
      | _ => rfl

def names : NumericOption → List String
  | indentWidth => Settings.indentNames
  | maxLineLength => Settings.lengthNames
  | iterationFactor => Settings.factorNames
  | maxDepth => Settings.depthNames

end NumericOption

/-! ## Drafts -/

namespace Draft

variable {draft : Draft} {fault : OptionFault} {options : Options}

theorem number_usable (draft : Draft) (option : NumericOption) :
    draft.usable.number option = draft.mended option := by
  cases option <;> rfl

theorem mended_eq (draft : Draft) (option : NumericOption) :
    draft.mended option = option.settled (draft.get option) := by
  unfold mended
  rcases option.check_cases (draft.get option) with ⟨-, passed⟩ | ⟨fault, -, -, failed, same⟩
  · rw [passed]
  · rw [failed]
    exact same

theorem usable_ofOptions (positive : ∀ option, 1 ≤ options.number option) :
    (ofOptions options).usable = options := by
  have kept : ∀ option, (ofOptions options).mended option = options.number option := by
    intro option
    rw [mended_eq]
    have unchanged := Int.max_eq_right (positive option)
    cases option <;> exact unchanged
  unfold usable
  rw [kept, kept, kept, kept]
  rfl

theorem mem_checkOrder (option : NumericOption) : option ∈ checkOrder := by
  cases option <;> decide

/-- The fault is that of the first bad value in the order of the checks. -/
def FirstFault (draft : Draft) (fault : OptionFault) : Prop :=
  ∃ before option later, checkOrder = before ++ option :: later ∧
    (∀ earlier ∈ before, (draft.get earlier).IsPositive) ∧ option.Faulty (draft.get option) fault

def fault? (draft : Draft) (option : NumericOption) : Option OptionFault :=
  match option.check (draft.get option) with
  | .ok _ => none
  | .error fault => some fault

theorem fault?_eq_some_iff {option : NumericOption} :
    draft.fault? option = some fault ↔ option.Faulty (draft.get option) fault := by
  rw [← NumericOption.check_eq_error_iff, fault?]
  cases option.check (draft.get option) <;> simp

theorem fault?_eq_none_iff {option : NumericOption} :
    draft.fault? option = none ↔ (draft.get option).IsPositive := by
  rw [fault?]
  rcases option.check_cases (draft.get option) with ⟨positive, passed⟩ | ⟨_, bad, -, failed, -⟩
  · simp [passed, positive]
  · simp [failed, bad]

theorem accept?_eq (draft : Draft) :
    draft.accept? = match checkOrder.findSome? draft.fault? with
      | some fault => .error fault
      | none => .ok draft.usable := rfl

theorem accept?_eq_error_iff : draft.accept? = .error fault ↔ draft.FirstFault fault := by
  have first : checkOrder.findSome? draft.fault? = some fault ↔ draft.FirstFault fault := by
    rw [List.findSome?_eq_some_iff, FirstFault]
    simp only [fault?_eq_some_iff, fault?_eq_none_iff]
    constructor
    · rintro ⟨before, option, later, cut, faulty, good⟩
      exact ⟨before, option, later, cut, good, faulty⟩
    · rintro ⟨before, option, later, cut, good, faulty⟩
      exact ⟨before, option, later, cut, faulty, good⟩
  rw [← first, accept?_eq]
  cases checkOrder.findSome? draft.fault? <;> simp

theorem accept?_eq_ok_iff : draft.accept? = .ok options ↔
    (∀ option, (draft.get option).IsPositive) ∧ options = draft.usable := by
  have none : checkOrder.findSome? draft.fault? = none ↔
      ∀ option, (draft.get option).IsPositive := by
    rw [List.findSome?_eq_none_iff]
    exact ⟨fun good option => fault?_eq_none_iff.mp (good option (mem_checkOrder option)),
      fun good option _ => fault?_eq_none_iff.mpr (good option)⟩
  rw [← none, accept?_eq]
  cases checkOrder.findSome? draft.fault? <;> simp [eq_comm]

end Draft

/-! ## Settings -/

namespace Draft

def set (draft : Draft) (option : NumericOption) (value : Value) : Draft :=
  match option with
  | .indentWidth => { draft with indentWidth := value }
  | .maxLineLength => { draft with maxLineLength := value }
  | .iterationFactor => { draft with iterationFactor := value }
  | .maxDepth => { draft with maxDepth := value }

variable {draft : Draft} {option other : NumericOption} {value : Value}

theorem get_set : (draft.set option value).get option = value := by cases option <;> rfl

theorem get_set_of_ne (different : option ≠ other) :
    (draft.set option value).get other = draft.get other := by
  cases option <;> cases other <;> first | exact absurd rfl different | rfl

theorem wrapLongLines_set : (draft.set option value).wrapLongLines = draft.wrapLongLines := by
  cases option <;> rfl

end Draft

namespace Settings

def under (settings : Settings) (names : List String) : List (Text × Value) :=
  settings.entries.filter fun entry => String.ofList entry.1 ∈ names

def last? (settings : Settings) (names : List String) : Option Value :=
  (settings.under names).getLast?.map Prod.snd

theorem names_disjoint (option other : NumericOption) (different : option ≠ other) :
    ∀ name ∈ option.names, name ∉ other.names := by
  cases option <;> cases other <;> first | exact absurd rfl different | decide

theorem names_disjoint_wrapNames (option : NumericOption) :
    ∀ name ∈ option.names, name ∉ wrapNames := by
  cases option <;> decide

theorem apply_cases (draft : Draft) (entry : Text × Value) :
    (∃ option : NumericOption, String.ofList entry.1 ∈ option.names ∧
      apply draft entry = draft.set option entry.2) ∨
    (String.ofList entry.1 ∈ wrapNames ∧
      apply draft entry = { draft with wrapLongLines := entry.2 }) ∨
    ((∀ option : NumericOption, String.ofList entry.1 ∉ option.names) ∧
      String.ofList entry.1 ∉ wrapNames ∧ apply draft entry = draft) := by
  unfold apply
  simp only
  split
  · exact .inl ⟨.indentWidth, ‹_›, rfl⟩
  split
  · exact .inl ⟨.maxLineLength, ‹_›, rfl⟩
  split
  · exact .inr (.inl ⟨‹_›, rfl⟩)
  split
  · exact .inl ⟨.iterationFactor, ‹_›, rfl⟩
  split
  · exact .inl ⟨.maxDepth, ‹_›, rfl⟩
  · refine .inr (.inr ⟨fun option => ?_, ‹_›, rfl⟩)
    cases option <;> assumption

theorem get_apply (option : NumericOption) (draft : Draft) (entry : Text × Value) :
    (apply draft entry).get option =
      if String.ofList entry.1 ∈ option.names then entry.2 else draft.get option := by
  rcases apply_cases draft entry with ⟨set, named, same⟩ | ⟨named, same⟩ | ⟨unnamed, -, same⟩
  · rw [same]
    by_cases isSet : set = option
    · subst isSet
      rw [if_pos named, Draft.get_set]
    · rw [if_neg (names_disjoint set option isSet _ named), Draft.get_set_of_ne isSet]
  · rw [same, if_neg fun other => names_disjoint_wrapNames option _ other named]
    cases option <;> rfl
  · rw [same, if_neg (unnamed option)]

theorem wrapLongLines_apply (draft : Draft) (entry : Text × Value) :
    (apply draft entry).wrapLongLines =
      if String.ofList entry.1 ∈ wrapNames then entry.2 else draft.wrapLongLines := by
  rcases apply_cases draft entry with ⟨set, named, same⟩ | ⟨named, same⟩ | ⟨-, unnamed, same⟩
  · rw [same, if_neg (names_disjoint_wrapNames set _ named), Draft.wrapLongLines_set]
  · rw [same, if_pos named]
  · rw [same, if_neg unnamed]

/-- What every entry under some names sets is, in the end, what the last of them sets. -/
theorem draft_eq (read : Draft → Value) {names : List String}
    (sets : ∀ draft entry, read (apply draft entry) =
      if String.ofList entry.1 ∈ names then entry.2 else read draft) (settings : Settings) :
    read settings.draft = (settings.last? names).getD (read {}) := by
  obtain ⟨entries⟩ := settings
  unfold draft last? under
  simp only
  induction entries using List.reverseRecOn with
  | nil => rfl
  | append_singleton entries entry ih =>
    rw [List.foldl_append, List.foldl_cons, List.foldl_nil, sets, List.filter_append,
      List.filter_cons, List.filter_nil]
    by_cases named : String.ofList entry.1 ∈ names
    · simp [named]
    · simp [named, ih]

theorem number_usable_draft (settings : Settings) (option : NumericOption) :
    settings.draft.usable.number option =
      ((settings.last? option.names).map option.settled).getD option.defaultValue := by
  have last : settings.draft.get option =
      (settings.last? option.names).getD (({} : Draft).get option) :=
    draft_eq (·.get option) (get_apply option) settings
  rw [Draft.number_usable, Draft.mended_eq, last]
  cases settings.last? option.names with
  | none => cases option <;> rfl
  | some value => rfl

theorem wrapLongLines_usable_draft (settings : Settings) :
    settings.draft.usable.wrapLongLines =
      ((settings.last? wrapNames).map Value.isTrue).getD false := by
  have last : settings.draft.wrapLongLines = (settings.last? wrapNames).getD (.bool false) :=
    draft_eq (·.wrapLongLines) wrapLongLines_apply settings
  rw [Draft.usable, last]
  cases settings.last? wrapNames <;> rfl

end Settings

theorem Options.ext_number {options other : Options}
    (numbers : ∀ option, options.number option = other.number option)
    (switch : options.wrapLongLines = other.wrapLongLines) : options = other := by
  cases options
  cases other
  simp only [Options.mk.injEq]
  exact ⟨numbers .indentWidth, numbers .maxLineLength, switch, numbers .iterationFactor,
    numbers .maxDepth⟩

/-- The usable options of a draft are positive numbers, settled option by option, and are usable as
they are; a draft is refused for its first bad value, and accepted as its usable options if it has
none.  Settings are understood, whatever they hold: the last entry under the names of an option is
settled, or the default if there is none, so nothing but the entries of each option counts. -/
theorem options_settle :
    (∀ draft : Draft,
      (∀ option, draft.usable.number option = option.settled (draft.get option) ∧
        1 ≤ draft.usable.number option) ∧
      draft.usable.wrapLongLines = draft.wrapLongLines.isTrue ∧
      (Draft.ofOptions draft.usable).usable = draft.usable ∧
      (∀ fault, draft.accept? = .error fault ↔ draft.FirstFault fault) ∧
      ∀ options, draft.accept? = .ok options ↔
        (∀ option, (draft.get option).IsPositive) ∧ options = draft.usable) ∧
    ∀ entries : List (Text × Value),
      let settings := Settings.ofList entries
      ∃ options, (Configuration.dynamic (.map entries)).settle.result = .ok options ∧
        (∀ option, options.number option =
          ((settings.last? option.names).map option.settled).getD option.defaultValue) ∧
        options.wrapLongLines =
          ((settings.last? Settings.wrapNames).map Value.isTrue).getD false ∧
        ∀ entries' : List (Text × Value),
          (∀ option : NumericOption,
            (Settings.ofList entries').under option.names = settings.under option.names) →
          (Settings.ofList entries').under Settings.wrapNames =
            settings.under Settings.wrapNames →
          (Configuration.dynamic (.map entries')).settle.result = .ok options := by
  refine ⟨fun draft => ?_, fun entries => ?_⟩
  · have positive : ∀ option, 1 ≤ draft.usable.number option := fun option =>
      (draft.number_usable option).symm ▸ draft.one_le_mended option
    exact ⟨fun option => ⟨(draft.number_usable option).trans (draft.mended_eq option),
      positive option⟩, rfl, Draft.usable_ofOptions positive,
      fun _ => Draft.accept?_eq_error_iff, fun _ => Draft.accept?_eq_ok_iff⟩
  · intro settings
    refine ⟨settings.draft.usable, rfl, settings.number_usable_draft,
      settings.wrapLongLines_usable_draft, fun entries' same sameSwitch => ?_⟩
    refine congrArg Except.ok (Options.ext_number (fun option => ?_) ?_)
    · rw [Settings.number_usable_draft, Settings.number_usable_draft, Settings.last?, same,
        Settings.last?]
    · rw [Settings.wrapLongLines_usable_draft, Settings.wrapLongLines_usable_draft, Settings.last?,
        sameSwitch, Settings.last?]

/-- A truth value and a number below one are replaced, and the truth value is what the draft is
refused for; a later name for the same option counts, between entries for others. -/
theorem options_settle_of_mixed :
    let draft : Draft := { indentWidth := .int 7, maxLineLength := .bool true, maxDepth := .int 0 }
    let entries : List (Text × Value) := [("indentSize".toList, .int 3), ("theme".toList, .null),
      ("wrapLongLines".toList, .text ['n', 'o']), ("indent_width".toList, .int (-4))]
    draft.usable = { indentWidth := 7, maxDepth := 1 } ∧
    draft.accept? = .error (.notInteger .maxLineLength (.bool true)) ∧
    (Configuration.dynamic (.map entries)).settle.result =
      .ok { indentWidth := 1, wrapLongLines := true } := by
  intro draft entries
  obtain ⟨drafts, settings⟩ := options_settle
  obtain ⟨numbers, switch, -, refused, -⟩ := drafts draft
  refine ⟨Options.ext_number (fun option => ?_) switch, (refused _).mpr ?_, ?_⟩
  · rw [(numbers option).1]
    cases option <;> decide
  · refine ⟨[.indentWidth], .maxLineLength, [.iterationFactor, .maxDepth], rfl, ?_, .other ?_⟩
    · exact List.forall_mem_singleton.mpr ⟨7, rfl, by decide⟩
    · simp [draft, Draft.get]
  · obtain ⟨options, settled, numbers, switch, -⟩ := settings entries
    rw [settled]
    refine congrArg Except.ok (Options.ext_number (fun option => ?_) ?_)
    · rw [numbers]
      cases option <;> decide +kernel
    · rw [switch]
      decide +kernel

end AsnLayout
