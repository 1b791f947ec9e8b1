import AsnLayout.Text.Number
import AsnLayout.Text.Quoted

/-!
# Arguments

The arguments of a command are options, some with a value, and operands.  Each argument is first
told apart on its own; then options and operands are taken in order.  A long option may be shortened
as long as one option is meant, a value may stand behind its option or be joined to it, and short
options may be joined to each other.
-/

set_option autoImplicit false

namespace AsnLayout.Command

/-! ## Grammars -/

inductive Switch where
  | help
  | verbose
  | indent
  | lineLength
  | wrap
  | inPlace
  | check
  | output
  | standalone
  deriving DecidableEq, Repr

namespace Switch

def names : Switch → List String
  | help => ["-h", "--help"]
  | verbose => ["-v", "--verbose"]
  | indent => ["--indent"]
  | lineLength => ["--max-line-length"]
  | wrap => ["--wrap"]
  | inPlace => ["--in-place"]
  | check => ["--check"]
  | output => ["--output", "-o"]
  | standalone => ["--standalone"]

def takesValue : Switch → Bool
  | indent | lineLength | output => true
  | _ => false

def label (switch : Switch) : String := String.intercalate "/" switch.names

end Switch

inductive Operand where
  | command
  | path
  | paths
  deriving DecidableEq, Repr

namespace Operand

def label : Operand → String
  | command => "command"
  | path => "path"
  | paths => "paths"

end Operand

structure Grammar where
  program : String
  switches : List Switch
  operand : Operand
  deriving Repr

namespace Grammar

def named (grammar : Grammar) : List (Text × Switch) :=
  grammar.switches.flatMap fun switch => switch.names.map fun name => (name.toList, switch)

def switch? (grammar : Grammar) (name : Text) : Option Switch :=
  (grammar.named.find? (·.1 = name)).map (·.2)

end Grammar

/-! ## Errors -/

inductive Complaint where
  | ambiguous (argument : Text) (names : List Text)
  | valueNotTaken (switch : Switch) (value : Text)
  | valueMissing (switch : Switch)
  | notNumber (switch : Switch) (value : Text)
  | excluded (switch earlier : Switch)
  | unknownCommand (name : Text) (known : List String)
  | operandMissing (operand : Operand)
  | leftOver (arguments : List Text)
  deriving Repr

namespace Complaint

def listed (texts : List Text) : String := String.intercalate ", " (texts.map String.ofList)

def message : Complaint → String
  | ambiguous argument names =>
    s!"ambiguous option: {String.ofList argument} could match {listed names}"
  | valueNotTaken switch value =>
    s!"argument {switch.label}: ignored explicit argument {String.ofList (Text.quoted value)}"
  | valueMissing switch => s!"argument {switch.label}: expected one argument"
  | notNumber switch value =>
    s!"argument {switch.label}: invalid int value: {String.ofList (Text.quoted value)}"
  | excluded switch earlier =>
    s!"argument {switch.label}: not allowed with argument {earlier.label}"
  | unknownCommand name known =>
    let choices := listed (known.map fun command => Text.quoted command.toList)
    let shown := String.ofList (Text.quoted name)
    s!"argument command: invalid choice: {shown} (choose from {choices})"
  | operandMissing operand => s!"the following arguments are required: {operand.label}"
  | leftOver arguments =>
    let shown := String.intercalate " " (arguments.map String.ofList)
    s!"unrecognized arguments: {shown}"

end Complaint

/-! ## Telling arguments apart -/

/-- Two hyphens only: behind this argument all are plain. -/
def dividerText : Text := ['-', '-']

inductive Role where
  | plain
  | divider
  | option (switch : Switch) (name : Text) (joined : Option Text)
  | unknown
  deriving DecidableEq, Repr

structure Argument where
  text : Text
  role : Role
  deriving DecidableEq, Repr

def cutAtEquals (argument : Text) : Text × Option Text :=
  match Text.cutAt? ['='] argument with
  | none => (argument, none)
  | some (name, value) => (name, some value)

namespace Grammar

/-- The options that an argument may be short for: a long name by its beginning, or a short name
with what is joined to it. -/
def candidates (grammar : Grammar) (argument : Text) : List (Text × Switch × Option Text) :=
  let (start, joined) := cutAtEquals argument
  if Text.startsWith argument ['-', '-'] then
    (grammar.named.filter fun named => Text.startsWith named.1 start).map fun named =>
      (named.1, named.2, joined)
  else
    (grammar.named.filter fun named => named.1 = argument.take 2).map fun named =>
      (named.1, named.2, some (argument.drop 2))

/-- What an argument of two or more characters is that starts with a hyphen and is no option's
name. -/
def roleOfHyphened (grammar : Grammar) (argument : Text) : Except Complaint Role :=
  let (name, joined) := cutAtEquals argument
  match joined, grammar.switch? name with
  | some joined, some switch => .ok (.option switch name (some joined))
  | _, _ =>
    match grammar.candidates argument with
    | [(name, switch, joined)] => .ok (.option switch name joined)
    | [] =>
      if Text.looksNegative argument || argument.any (· = ' ') then .ok .plain else .ok .unknown
    | several => .error (.ambiguous argument (several.map (·.1)))

def roleOf (grammar : Grammar) (argument : Text) : Except Complaint Role :=
  if !Text.startsWith argument ['-'] then .ok .plain
  else
    match grammar.switch? argument with
    | some switch => .ok (.option switch argument none)
    | none => if argument.length = 1 then .ok .plain else grammar.roleOfHyphened argument

def tellApart (grammar : Grammar) : List Text → Except Complaint (List Argument)
  | [] => .ok []
  | argument :: later =>
    if argument = dividerText then
      .ok (⟨argument, .divider⟩ :: later.map fun text => ⟨text, .plain⟩)
    else do
      let role ← grammar.roleOf argument
      let rest ← grammar.tellApart later
      return ⟨argument, role⟩ :: rest

end Grammar

/-! ## Taking arguments -/

inductive Event where
  | flag (switch : Switch)
  | valued (switch : Switch) (value : Text)
  /-- An option that takes a value and is given an empty list of them. -/
  | emptied (switch : Switch)
  | operand (arguments : List Text)
  deriving DecidableEq, Repr

/-- An option with the value joined to it.  Two hyphens only are no value. -/
def Event.ofJoined (switch : Switch) (value : Text) : Event :=
  if value = dividerText then .emptied switch else .valued switch value

structure Bundle where
  events : List Event := []
  pending : Option Switch := none
  deriving Repr

namespace Bundle

def ofSwitch (switch : Switch) : Bundle :=
  if switch.takesValue then { pending := some switch } else { events := [.flag switch] }

def after (bundle : Bundle) (switch : Switch) : Bundle :=
  { bundle with events := .flag switch :: bundle.events }

end Bundle

namespace Grammar

/-- Takes the text joined to an option.  It is the value of an option that takes one; behind a short
option without a value it is more short options, which all must be known. -/
def unbundle (grammar : Grammar) (switch : Switch) (isLong : Bool) :
    Text → Except Complaint Bundle
  | [] =>
    if switch.takesValue then .ok { events := [.ofJoined switch []] }
    else .error (.valueNotTaken switch [])
  | c :: rest =>
    if switch.takesValue then .ok { events := [.ofJoined switch (c :: rest)] }
    else if isLong then .error (.valueNotTaken switch (c :: rest))
    else
      match grammar.switch? ['-', c], rest with
      | none, _ => .error (.valueNotTaken switch (c :: rest))
      | some next, [] => .ok ((Bundle.ofSwitch next).after switch)
      | some next, rest => do
        let bundle ← grammar.unbundle next false rest
        return bundle.after switch

def bundle (grammar : Grammar) (switch : Switch) (name : Text) :
    Option Text → Except Complaint Bundle
  | none => .ok (Bundle.ofSwitch switch)
  | some joined => grammar.unbundle switch (Text.startsWith name ['-', '-']) joined

end Grammar

def Argument.isOperand (argument : Argument) : Bool :=
  argument.role = .plain || argument.role = .divider

/-- How many arguments an operand takes from the first one on, none if it cannot start there. -/
def Operand.count (operand : Operand) (arguments : List Argument) : Nat :=
  let dividers := (arguments.takeWhile (·.role = .divider)).length
  let rest := arguments.drop dividers
  if !rest.head?.any (·.role = .plain) then 0
  else
    match operand with
    | .command => arguments.length
    | .paths => (arguments.takeWhile Argument.isOperand).length
    | .path => dividers + 1 + ((rest.drop 1).takeWhile (·.role = .divider)).length

/-- The arguments an operand stands for; the divider is none, except before a command. -/
def Operand.values (operand : Operand) (arguments : List Text) : List Text :=
  match operand with
  | .command => arguments
  | .path | .paths => arguments.erase dividerText

/-- What arguments ask for, up to the first that cannot be taken. -/
structure Asked where
  events : List Event := []
  leftOver : List Text := []
  complaint : Option Complaint := none
  deriving Repr

namespace Asked

def after (asked : Asked) (events : List Event) (leftOver : List Text) : Asked :=
  { asked with events := events ++ asked.events, leftOver := leftOver ++ asked.leftOver }

end Asked

namespace Grammar

/-- Takes arguments, the first `skip` of which are taken already.  The operand is taken once, where
it can be taken first. -/
def take (grammar : Grammar) (wanting : Bool) (skip : Nat) : List Argument → Asked
  | [] => {}
  | argument :: rest =>
    match skip with
    | skip + 1 => grammar.take wanting skip rest
    | 0 =>
      match argument.role with
      | .unknown => (grammar.take wanting 0 rest).after [] [argument.text]
      | .option switch name joined =>
        match grammar.bundle switch name joined with
        | .error complaint => { complaint := some complaint }
        | .ok bundle =>
          match bundle.pending with
          | none => (grammar.take wanting 0 rest).after bundle.events []
          | some pending =>
            match rest.head? with
            | some ⟨value, .plain⟩ =>
              (grammar.take wanting 1 rest).after (bundle.events ++ [Event.valued pending value]) []
            | _ => { complaint := some (.valueMissing pending) }
      | .plain | .divider =>
        let count := if wanting then grammar.operand.count (argument :: rest) else 0
        if count = 0 then (grammar.take wanting 0 rest).after [] [argument.text]
        else
          let taken := ((argument :: rest).take count).map (·.text)
          (grammar.take false (count - 1) rest).after [.operand (grammar.operand.values taken)] []

def ask (grammar : Grammar) (arguments : List Text) : Asked :=
  match grammar.tellApart arguments with
  | .error complaint => { complaint := some complaint }
  | .ok arguments => grammar.take true 0 arguments

end Grammar

end AsnLayout.Command
