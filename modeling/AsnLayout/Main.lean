import AsnLayout.Command.Run

/-!
# The program

The outer layer looks at the files and folders that a call names, runs the call, and then writes the
files that the run has changed and prints what it has printed.
-/

set_option autoImplicit false

namespace AsnLayout.Program

open Command

def pathOf (place : Place) : String :=
  match place with
  | ['/'] :: steps => "/" ++ String.intercalate "/" (steps.map String.ofList)
  | steps => String.intercalate "/" (steps.map String.ofList)

def refuse (disk : Disk) (place : Place) (access : Disk.Access) : Disk :=
  { disk with refused := (place, access) :: disk.refused }

/-- Adds a file to the disk.  It is opened at its end, which changes nothing, to see whether it may be
written. -/
def addFile (disk : Disk) (place : Place) (bytes : List UInt8) : IO Disk := do
  let disk := disk.put place bytes
  try
    let _ ← IO.FS.Handle.mk (pathOf place) .append
    return disk
  catch _ => return refuse disk place .write

/-- Looks at a place and adds what is there to the disk.  What may not be read counts as a folder if
steps lead on from it. -/
def look (disk : Disk) (place : Place) (isLast : Bool) : IO Disk := do
  try
    let bytes ← IO.FS.readBinFile (pathOf place)
    addFile disk place bytes.toList
  catch
    | .inappropriateType .. => return { disk with folders := place :: disk.folders }
    | .permissionDenied .. =>
      let disk ←
        if isLast then addFile disk place [] else pure { disk with folders := place :: disk.folders }
      return refuse disk place .read
    | _ => return disk

def lookAlong (disk : Disk) (place : Place) : List Text → IO Disk
  | [] => return disk
  | step :: later => do
    let next := place.next step
    lookAlong (← look disk next later.isEmpty) next later

def pathsOf : Request → List Text
  | .format paths _ _ => paths
  | .highlight path output _ => path :: output.toList

def snapshot (paths : List Text) : IO Disk :=
  paths.foldlM (fun disk path =>
    let name := PathName.ofText path
    lookAlong disk name.start name.steps) {}

partial def readInput (stream : IO.FS.Stream) (text : String) : IO String := do
  let line ← stream.getLine
  if line.isEmpty then return text else readInput stream (text ++ line)

def writeChanged (before after : Disk) : IO Unit :=
  after.files.forM fun (place, bytes) =>
    if before.files.any fun file => file.1 = place && file.2 = bytes then pure ()
    else IO.FS.writeBinFile (pathOf place) (ByteArray.mk bytes.toArray)

end AsnLayout.Program

open AsnLayout Command in
def main (args : List String) : IO UInt32 := do
  let arguments := args.map String.toList
  let paths :=
    match Call.ofArguments arguments with
    | .ok call => Program.pathsOf call.request
    | .error _ => []
  let disk ← Program.snapshot (paths.filter (· ≠ World.inputPath))
  let input ←
    if paths.contains World.inputPath then Program.readInput (← IO.getStdin) "" else pure ""
  let (ending, world) := run arguments { disk, input := input.toList }
  Program.writeChanged disk world.disk
  IO.print (String.ofList world.output)
  IO.eprint (String.ofList world.errors)
  match ending with
  | .exit status => return status.toUInt32
  | .broken failure =>
    IO.eprintln failure.message
    return 1
