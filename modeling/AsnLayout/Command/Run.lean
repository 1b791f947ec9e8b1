import AsnLayout.Command.Disk
import AsnLayout.Command.Request
import AsnLayout.Fence
import AsnLayout.Page
import AsnLayout.Text.Utf8

/-!
# Running a command

A run starts from a disk and the text of the standard input and ends with the disk, what was
printed, and how it ended.  What was printed and written before a failure stays.
-/

set_option autoImplicit false

namespace AsnLayout.Command

structure World where
  disk : Disk := {}
  input : Text := []
  output : Text := []
  errors : Text := []
  deriving Repr

inductive Failure where
  | notUtf8 (error : Utf8.Error)
  | notWritten (error : Disk.Error)
  | nullInPath
  deriving Repr

namespace Failure

def message : Failure → String
  | notUtf8 error => error.message
  | notWritten error => error.message
  | nullInPath => "embedded null byte"

end Failure

inductive Ending where
  | exit (status : Nat)
  | broken (failure : Failure)
  deriving Repr

namespace World

def print (world : World) (text : Text) : World := { world with output := world.output ++ text }

def complain (world : World) (line : Text) : World :=
  { world with errors := world.errors ++ line ++ ['\n'] }

/-- Prints notices: those of all weights if `verbose`, else warnings. -/
def notify (world : World) (verbose : Bool) (notices : List Notice) : World :=
  (notices.filter fun notice => verbose || notice.weight = .warning).foldl
    (fun world notice =>
      world.complain s!"{notice.weight.label} {notice.channel}: {notice.message}".toList)
    world

/-! ## Sources -/

def inputPath : Text := ['-']

inductive ReadError where
  | disk (error : Disk.Error)
  | failure (failure : Failure)
  deriving Repr

/-- The text of a source, with newlines as line ends.  The standard input can be read once. -/
def sourceText (world : World) (path : Text) : Except ReadError (Text × World) :=
  if path = inputPath then .ok (Text.unifyNewlines world.input, { world with input := [] })
  else
    let name := PathName.ofText path
    if name.hasNull then .error (.failure .nullInPath)
    else
      match world.disk.read name with
      | .error error => .error (.disk error)
      | .ok bytes =>
        match Utf8.decode bytes with
        | .error error => .error (.failure (.notUtf8 error))
        | .ok text => .ok (Text.unifyNewlines text, world)

def unreadable (world : World) (path : Text) : ReadError → Ending × World
  | .disk error =>
    (.exit 1, world.complain ("Cannot read ".toList ++ path ++ ": ".toList ++ error.message.toList))
  | .failure failure => (.broken failure, world)

def writeText (world : World) (path text : Text) : Except Failure World :=
  let name := PathName.ofText path
  if name.hasNull then .error .nullInPath
  else
    match world.disk.write name (Utf8.encode text) with
    | .error error => .error (.notWritten error)
    | .ok disk => .ok { world with disk }

end World

/-! ## Formatting -/

def isNote (path : Text) : Bool :=
  Text.endsWith (Text.toSmall path) ".md".toList ||
    Text.endsWith (Text.toSmall path) ".markdown".toList

def formatSource (path text : Text) (options : Options) : Noted Text :=
  let configuration := Configuration.typed (Draft.ofOptions options)
  if isNote path then Fence.format text configuration else Format.text text configuration

def deliver (mode : Mode) (path source formatted : Text) (world : World) :
    Except Failure World :=
  match mode with
  | .compare => .ok world
  | .print => .ok (world.print formatted)
  | .update =>
    if path = World.inputPath then .ok (world.print formatted)
    else if formatted = source then .ok world
    else
      match world.writeText path formatted with
      | .error failure => .error failure
      | .ok world => .ok (world.print ("  Formatted ".toList ++ path ++ ['\n']))

def finishFormat (mode : Mode) (changed : List Text) (world : World) : Ending × World :=
  match mode with
  | .compare =>
    (.exit (if changed = [] then 0 else 1),
      changed.foldl (fun world path => world.print ("Would reformat ".toList ++ path ++ ['\n']))
        world)
  | .print | .update => (.exit 0, world)

/-- Formats sources one after the other, the `changed` ones before them having been different. -/
def formatPaths (options : Options) (mode : Mode) (verbose : Bool) (changed : List Text)
    (world : World) : List Text → Ending × World
  | [] => finishFormat mode changed world
  | path :: later =>
    match world.sourceText path with
    | .error error => world.unreadable path error
    | .ok (source, world) =>
      let formatted := formatSource path source options
      let world := world.notify verbose formatted.notices
      match deliver mode path source formatted.result world with
      | .error failure => (.broken failure, world)
      | .ok world =>
        let changed := if formatted.result = source then changed else changed ++ [path]
        formatPaths options mode verbose changed world later

/-! ## Highlighting -/

def highlightPath (path : Text) (output : Option Text) (standalone : Bool) (world : World) :
    Ending × World :=
  match world.sourceText path with
  | .error error => world.unreadable path error
  | .ok (source, world) =>
    let html := Text.highlight source standalone (PathName.ofText path).lastStep
    match output with
    | none | some [] => (.exit 0, world.print html)
    | some output =>
      match world.writeText output html with
      | .error failure => (.broken failure, world)
      | .ok world => (.exit 0, world.print ("  Generated ".toList ++ output ++ ['\n']))

/-! ## The program -/

def usage (grammar : Grammar) : Text :=
  let options := grammar.switches.map fun switch => s!" [{switch.label}]"
  s!"usage: {grammar.program}{String.join options} {grammar.operand.label}\n".toList

def runCall (call : Call) (world : World) : Ending × World :=
  match call.request with
  | .highlight path output standalone => highlightPath path output standalone world
  | .format paths draft mode =>
    let world := world.notify call.verbose (draft.mends.map .mended)
    formatPaths draft.usable mode call.verbose [] world paths

def run (arguments : List Text) (world : World) : Ending × World :=
  match Call.ofArguments arguments with
  | .ok call => runCall call world
  | .error (.help grammar) => (.exit 0, world.print (usage grammar))
  | .error (.complaint program complaint) =>
    (.exit 2, world.complain s!"{program}: error: {complaint.message}".toList)

end AsnLayout.Command
