import AsnLayout.Value

/-!
# Options

The four numeric options must be positive integers.  A draft holds whatever value was given for each
option; it is mended, option by option, or refused at the first bad one.
-/

set_option autoImplicit false

namespace AsnLayout

structure Options where
  indentWidth : Int := 2
  maxLineLength : Int := 80
  wrapLongLines : Bool := false
  /-- How many lines may be read for each line of the schema. -/
  iterationFactor : Int := 4
  maxDepth : Int := 64
  deriving DecidableEq, Repr

inductive NumericOption where
  | indentWidth
  | maxLineLength
  | iterationFactor
  | maxDepth
  deriving DecidableEq, Repr

namespace NumericOption

def name : NumericOption → String
  | indentWidth => "indent_width"
  | maxLineLength => "max_line_length"
  | iterationFactor => "iteration_factor"
  | maxDepth => "max_depth"

def defaultValue : NumericOption → Int
  | indentWidth => 2
  | maxLineLength => 80
  | iterationFactor => 4
  | maxDepth => 64

end NumericOption

/-! ## Drafts -/

structure Draft where
  indentWidth : Value := .int 2
  maxLineLength : Value := .int 80
  wrapLongLines : Value := .bool false
  iterationFactor : Value := .int 4
  maxDepth : Value := .int 64
  deriving Repr

namespace Draft

def get (draft : Draft) : NumericOption → Value
  | .indentWidth => draft.indentWidth
  | .maxLineLength => draft.maxLineLength
  | .iterationFactor => draft.iterationFactor
  | .maxDepth => draft.maxDepth

def ofOptions (options : Options) : Draft where
  indentWidth := .int options.indentWidth
  maxLineLength := .int options.maxLineLength
  wrapLongLines := .bool options.wrapLongLines
  iterationFactor := .int options.iterationFactor
  maxDepth := .int options.maxDepth

end Draft

inductive OptionFault where
  | notInteger (option : NumericOption) (value : Value)
  | notPositive (option : NumericOption) (value : Int)
  | unsupported (typeName : String)
  deriving Repr

namespace OptionFault

def message : OptionFault → String
  | notInteger option value =>
    s!"{option.name} must be an integer, got {String.ofList value.shown}"
  | notPositive option value => s!"{option.name} must be positive, got {value}"
  | unsupported typeName => s!"Unsupported config type: {typeName}"

end OptionFault

/-- The value of a numeric option if it is a positive integer.  A truth value is no integer. -/
def NumericOption.check (option : NumericOption) : Value → Except OptionFault Int
  | .int value => if value < 1 then .error (.notPositive option value) else .ok value
  | value => .error (.notInteger option value)

structure Mend where
  option : NumericOption
  value : Value
  used : Int
  deriving Repr

namespace OptionFault

/-- The number used for a bad value: one for a number that is too small, else the default. -/
def replacement (option : NumericOption) : OptionFault → Int
  | notPositive _ _ => 1
  | _ => option.defaultValue

end OptionFault

namespace Draft

def mended (draft : Draft) (option : NumericOption) : Int :=
  match option.check (draft.get option) with
  | .ok value => value
  | .error fault => fault.replacement option

theorem one_le_mended (draft : Draft) (option : NumericOption) : 1 ≤ draft.mended option := by
  unfold mended
  cases checked : option.check (draft.get option) with
  | ok value =>
    cases given : draft.get option with
    | int number =>
      simp only [given, NumericOption.check] at checked
      split at checked
      · cases checked
      · cases checked
        simp only
        omega
    | _ => simp [given, NumericOption.check] at checked
  | error fault => cases fault <;> cases option <;> simp [OptionFault.replacement,
      NumericOption.defaultValue]

def checkOrder : List NumericOption := [.indentWidth, .maxLineLength, .iterationFactor, .maxDepth]

def mends (draft : Draft) : List Mend :=
  checkOrder.filterMap fun option =>
    match option.check (draft.get option) with
    | .ok _ => none
    | .error fault => some ⟨option, draft.get option, fault.replacement option⟩

/-- Usable options: bad values are replaced, and the switch is any value that is true. -/
def usable (draft : Draft) : Options where
  indentWidth := draft.mended .indentWidth
  maxLineLength := draft.mended .maxLineLength
  wrapLongLines := draft.wrapLongLines.isTrue
  iterationFactor := draft.mended .iterationFactor
  maxDepth := draft.mended .maxDepth

def accept? (draft : Draft) : Except OptionFault Options :=
  match checkOrder.findSome? fun option =>
      match option.check (draft.get option) with
      | .ok _ => none
      | .error fault => some fault with
  | some fault => .error fault
  | none => .ok draft.usable

/-- The number given for an option, where a truth value counts as zero or one and any other value
that is no integer as the default. -/
def given (draft : Draft) (option : NumericOption) : Int :=
  match draft.get option with
  | .int value => value
  | .bool value => value.toNat
  | _ => option.defaultValue

def asGiven (draft : Draft) : Options where
  indentWidth := draft.given .indentWidth
  maxLineLength := draft.given .maxLineLength
  wrapLongLines := draft.wrapLongLines.isTrue
  iterationFactor := draft.given .iterationFactor
  maxDepth := draft.given .maxDepth

end Draft

/-! ## Settings -/

structure Settings where
  entries : List (Text × Value) := []
  deriving Repr

namespace Settings

/-- Sets a name, which keeps its place if it was set before. -/
def insert (settings : Settings) (name : Text) (value : Value) : Settings :=
  if settings.entries.any (·.1 = name) then
    ⟨settings.entries.map fun entry => if entry.1 = name then (name, value) else entry⟩
  else ⟨settings.entries ++ [(name, value)]⟩

def ofList (entries : List (Text × Value)) : Settings :=
  entries.foldl (fun settings entry => settings.insert entry.1 entry.2) {}

def indentNames : List String := ["indent_width", "indentSize", "indentWidth", "indent_size"]

def lengthNames : List String := ["max_line_length", "maxLineLength"]

def wrapNames : List String := ["wrap_long_lines", "wrapLongLines"]

def factorNames : List String := ["iteration_factor", "iterationFactor"]

def depthNames : List String := ["max_depth", "maxDepth"]

/-- Gives a draft the value of a setting; a name that is no option's is passed over. -/
def apply (draft : Draft) (entry : Text × Value) : Draft :=
  let name := String.ofList entry.1
  if name ∈ indentNames then { draft with indentWidth := entry.2 }
  else if name ∈ lengthNames then { draft with maxLineLength := entry.2 }
  else if name ∈ wrapNames then { draft with wrapLongLines := entry.2 }
  else if name ∈ factorNames then { draft with iterationFactor := entry.2 }
  else if name ∈ depthNames then { draft with maxDepth := entry.2 }
  else draft

/-- The draft that settings make: of several settings for one option the last one counts. -/
def draft (settings : Settings) : Draft := settings.entries.foldl apply {}

end Settings

/-! ## Configurations -/

/-- How options are given: as a draft, or as a value, of which no value and a map of settings are
understood. -/
inductive Configuration where
  | typed (draft : Draft)
  | dynamic (value : Value)
  deriving Repr

namespace Configuration

def absent : Configuration := .dynamic .null

def draft? : Configuration → Except OptionFault Draft
  | typed draft => .ok draft
  | dynamic .null => .ok {}
  | dynamic (.map entries) => .ok (Settings.ofList entries).draft
  | dynamic value => .error (.unsupported value.typeName)

end Configuration

end AsnLayout
