import AsnLayout.Command.Argument
import AsnLayout.Options

/-!
# Requests

What the arguments of the program request: to format files, in one of three modes, or to highlight a
file.
-/

set_option autoImplicit false

namespace AsnLayout.Command

/-! ## The grammars of the program -/

def mainGrammar : Grammar := ⟨"asn1fmt", [.help, .verbose], .command⟩

def formatGrammar : Grammar :=
  ⟨"asn1fmt format", [.help, .indent, .lineLength, .wrap, .inPlace, .check], .paths⟩

def highlightGrammar : Grammar :=
  ⟨"asn1fmt highlight", [.help, .output, .standalone], .path⟩

def commands : List (String × Grammar) :=
  [("format", formatGrammar), ("highlight", highlightGrammar)]

/-! ## Requests -/

inductive Mode where
  | print
  | update
  | compare
  deriving DecidableEq, Repr

inductive Request where
  | format (paths : List Text) (draft : Draft) (mode : Mode)
  | highlight (path : Text) (output : Option Text) (standalone : Bool)
  deriving Repr

inductive Stop where
  | help (grammar : Grammar)
  | complaint (program : String) (complaint : Complaint)
  deriving Repr

structure Taken where
  verbose : Bool := false
  indent : Value := .int 2
  lineLength : Value := .int 80
  wrap : Bool := false
  inPlace : Bool := false
  check : Bool := false
  output : Option Text := none
  standalone : Bool := false
  operand : Option (List Text) := none
  deriving Repr

namespace Taken

/-- Takes an option without a value.  Updating and comparing exclude each other. -/
def flag (taken : Taken) (grammar : Grammar) : Switch → Except Stop Taken
  | .help => .error (.help grammar)
  | .verbose => .ok { taken with verbose := true }
  | .wrap => .ok { taken with wrap := true }
  | .inPlace =>
    if taken.check then .error (.complaint grammar.program (.excluded .inPlace .check))
    else .ok { taken with inPlace := true }
  | .check =>
    if taken.inPlace then .error (.complaint grammar.program (.excluded .check .inPlace))
    else .ok { taken with check := true }
  | .standalone => .ok { taken with standalone := true }
  | .indent | .lineLength | .output => .ok taken

def valued (taken : Taken) (grammar : Grammar) (switch : Switch) (value : Text) :
    Except Stop Taken :=
  match switch with
  | .output => .ok { taken with output := some value }
  | .indent | .lineLength =>
    match Text.integer? value with
    | none => .error (.complaint grammar.program (.notNumber switch value))
    | some number =>
      if switch = .indent then .ok { taken with indent := .int number }
      else .ok { taken with lineLength := .int number }
  | _ => .ok taken

/-- Takes an option with an empty list of values: a number becomes that list, and a page is not
written to a file. -/
def emptied (taken : Taken) : Switch → Taken
  | .indent => { taken with indent := .list [] }
  | .lineLength => { taken with lineLength := .list [] }
  | .output => { taken with output := none }
  | _ => taken

def events (grammar : Grammar) (taken : Taken) : List Event → Except Stop Taken
  | [] => .ok taken
  | .flag switch :: later => do
    let taken ← taken.flag grammar switch
    taken.events grammar later
  | .valued switch value :: later => do
    let taken ← taken.valued grammar switch value
    taken.events grammar later
  | .emptied switch :: later => (taken.emptied switch).events grammar later
  | .operand arguments :: later =>
    Taken.events grammar { taken with operand := some arguments } later

end Taken

def Grammar.read (grammar : Grammar) (arguments : List Text) :
    Except Stop (Taken × List Text × List Text) := do
  let asked := grammar.ask arguments
  let taken ← Taken.events grammar {} asked.events
  match asked.complaint, taken.operand with
  | some complaint, _ => throw (.complaint grammar.program complaint)
  | none, none => throw (.complaint grammar.program (.operandMissing grammar.operand))
  | none, some operand => return (taken, operand, asked.leftOver)

def Taken.mode (taken : Taken) : Mode :=
  if taken.check then .compare else if taken.inPlace then .update else .print

def Taken.draft (taken : Taken) : Draft where
  indentWidth := taken.indent
  maxLineLength := taken.lineLength
  wrapLongLines := .bool taken.wrap

def Taken.request (taken : Taken) (grammar : Grammar) (operand : List Text) : Request :=
  match grammar.operand with
  | .path => .highlight (operand.head?.getD []) taken.output taken.standalone
  | .command | .paths => .format operand taken.draft taken.mode

structure Call where
  request : Request
  verbose : Bool
  deriving Repr

def Call.ofArguments (arguments : List Text) : Except Stop Call := do
  let (main, operand, leftOver) ← mainGrammar.read arguments
  let name := operand.head?.getD []
  match commands.find? (·.1.toList = name) with
  | none =>
    throw (.complaint mainGrammar.program (.unknownCommand name (commands.map (·.1))))
  | some (_, grammar) =>
    let (taken, operand, more) ← grammar.read (operand.drop 1)
    match leftOver ++ more with
    | [] => return ⟨taken.request grammar operand, main.verbose⟩
    | several => throw (.complaint mainGrammar.program (.leftOver several))

end AsnLayout.Command
