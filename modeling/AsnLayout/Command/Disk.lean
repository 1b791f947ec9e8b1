import AsnLayout.Text.Quoted
import AsnLayout.Text.Utf8

/-!
# Files and folders

The part of a disk that a command sees: files with their bytes, folders, and what the rights of both
refuse.  A path name is walked step by step from the working folder, or from the root if it is
absolute.  Path names and their steps have a greatest length, counted in bytes.

A medium that fails or is full is set aside: what may be written is written.
-/

set_option autoImplicit false

namespace AsnLayout

/-! ## Path names -/

/-- A path name in its plain form, without empty steps and without steps that stay in place. -/
structure PathName where
  root : Text
  steps : List Text
  deriving DecidableEq, Repr

namespace PathName

/-- The slashes a path name starts with: two stay two, more count as one. -/
def rootOf (text : Text) : Text :=
  match (text.takeWhile (· = '/')).length with
  | 0 => []
  | 2 => ['/', '/']
  | _ => ['/']

def ofText (text : Text) : PathName where
  root := rootOf text
  steps := (text.splitOn '/').filter fun step => step ≠ [] && step ≠ ['.']

/-- The text of a path name; the working folder is a point. -/
def toText (path : PathName) : Text :=
  let text := path.root ++ ['/'].intercalate path.steps
  if text = [] then ['.'] else text

def lastStep (path : PathName) : Text := path.steps.getLast?.getD []

def hasNull (path : PathName) : Bool := path.steps.any fun step => step.any (· = '\x00')

def maxBytes : Nat := 4095

def maxStepBytes : Nat := 255

end PathName

/-! ## Places -/

/-- Where a file or a folder is: the steps from the working folder, or from the root, which is the
step with a slash. -/
abbrev Place := List Text

namespace Place

def above : Text := ['.', '.']

def root : Place := [['/']]

def parent (place : Place) : Place :=
  if place = root then root
  else if place.all (· = above) then place ++ [above]
  else place.dropLast

def next (place : Place) (step : Text) : Place :=
  if step = above then place.parent else place ++ [step]

end Place

def PathName.start (path : PathName) : Place := if path.root = [] then [] else Place.root

/-! ## Disks -/

/-- What rights are asked for: to read what is at a place, to write a file or make one in a folder, or
to walk through a folder. -/
inductive Disk.Access where
  | read
  | write
  | enter
  deriving DecidableEq, Repr

structure Disk where
  files : List (Place × List UInt8) := []
  /-- Folders beside those that files are in. -/
  folders : List Place := []
  /-- What the rights of places refuse. -/
  refused : List (Place × Disk.Access) := []
  deriving Repr

inductive Disk.Entry where
  | file (bytes : List UInt8)
  | folder
  | nothing
  deriving Repr

inductive Disk.Problem where
  /-- There is nothing at the place, or no folder to walk through. -/
  | missing
  | notFolder
  | isFolder
  | tooLong
  | denied
  deriving DecidableEq, Repr

structure Disk.Error where
  problem : Disk.Problem
  path : PathName
  deriving DecidableEq, Repr

namespace Disk

def Error.message (error : Error) : String :=
  let problem :=
    match error.problem with
    | .missing => "[Errno 2] No such file or directory"
    | .notFolder => "[Errno 20] Not a directory"
    | .isFolder => "[Errno 21] Is a directory"
    | .tooLong => "[Errno 36] File name too long"
    | .denied => "[Errno 13] Permission denied"
  s!"{problem}: {String.ofList (Text.quoted error.path.toText)}"

/-- Whether there is a folder at a place.  The working folder and those above it always are. -/
def hasFolder (disk : Disk) (place : Place) : Bool :=
  place = Place.root || place.all (· = Place.above) || place ∈ disk.folders ||
    disk.files.any fun file => place.isPrefixOf file.1 && place.length < file.1.length

def entry (disk : Disk) (place : Place) : Entry :=
  match disk.files.find? (·.1 = place) with
  | some file => .file file.2
  | none => if disk.hasFolder place then .folder else .nothing

def allows (disk : Disk) (place : Place) (access : Access) : Bool :=
  !disk.refused.contains (place, access)

def walk (disk : Disk) (place : Place) : List Text → Except Problem Place
  | [] => .ok place
  | step :: later =>
    match disk.entry place with
    | .file _ => .error .notFolder
    | .nothing => .error .missing
    | .folder =>
      if !disk.allows place .enter then .error .denied
      else if PathName.maxStepBytes < (Utf8.encode step).length then .error .tooLong
      else walk disk (place.next step) later

def locate (disk : Disk) (path : PathName) : Except Error Place :=
  if PathName.maxBytes < (Utf8.encode path.toText).length then .error ⟨.tooLong, path⟩
  else
    match disk.walk path.start path.steps with
    | .ok place => .ok place
    | .error problem => .error ⟨problem, path⟩

def read (disk : Disk) (path : PathName) : Except Error (List UInt8) :=
  match disk.locate path with
  | .error error => .error error
  | .ok place =>
    match disk.entry place with
    | .file bytes => if disk.allows place .read then .ok bytes else .error ⟨.denied, path⟩
    | .folder => .error ⟨if disk.allows place .read then .isFolder else .denied, path⟩
    | .nothing => .error ⟨.missing, path⟩

def put (disk : Disk) (place : Place) (bytes : List UInt8) : Disk :=
  if disk.files.any (·.1 = place) then
    { disk with
      files := disk.files.map fun file => if file.1 = place then (place, bytes) else file }
  else { disk with files := disk.files ++ [(place, bytes)] }

def install (disk : Disk) (place : Place) (bytes : List UInt8) : List Text → Disk
  | [] => disk.put place bytes
  | step :: later =>
    install { disk with folders := disk.folders ++ [place] } (place.next step) bytes later

/-- Writes the bytes of a file, which is made if there is none. -/
def write (disk : Disk) (path : PathName) (bytes : List UInt8) : Except Error Disk :=
  match disk.locate path with
  | .error error => .error error
  | .ok place =>
    match disk.entry place with
    | .folder => .error ⟨.isFolder, path⟩
    | .file _ =>
      if disk.allows place .write then .ok (disk.put place bytes) else .error ⟨.denied, path⟩
    | .nothing =>
      if disk.allows place.parent .write then .ok (disk.put place bytes)
      else .error ⟨.denied, path⟩

end Disk

end AsnLayout
