import AsnLayout.Format
import AsnLayout.Text.Case

/-!
# Schemas in notes

A note may hold schemas between fences.  The note is cut into its parts, the schemas and the lines
outside of them, and formatting changes nothing but the lines of the schemas.
-/

set_option autoImplicit false

namespace AsnLayout

inductive Part where
  | line (text : Text)
  | schema (opening : Text) (body : List Text) (closing : Text)
  | unclosed (opening : Text) (body : List Text)
  deriving DecidableEq, Repr

namespace Part

def lines : Part → List Text
  | line text => [text]
  | schema opening body closing => opening :: body ++ [closing]
  | unclosed opening body => opening :: body

end Part

namespace Fence

def mark : Text := ['`', '`', '`']

def isFence (line : Text) : Bool := Text.startsWith (Text.trim line) mark

def closes (line : Text) : Bool := Text.trim line = mark

/-- Whether a line is a fence that opens a schema: the first word behind it names the language. -/
def opens (line : Text) : Bool :=
  isFence line &&
    Text.toSmall (Text.firstWord ((Text.trim line).drop mark.length)) = "asn1".toList

inductive State where
  | outside
  | foreign
  | inside (opening : Text) (body : List Text)
  deriving DecidableEq, Repr

def partsAt : State → List Text → List Part
  | .outside, [] => []
  | .outside, line :: rest =>
    if opens line then partsAt (.inside line []) rest
    else .line line :: partsAt (if isFence line then .foreign else .outside) rest
  | .foreign, [] => []
  | .foreign, line :: rest =>
    .line line :: partsAt (if closes line then .outside else .foreign) rest
  | .inside opening body, [] => [.unclosed opening body]
  | .inside opening body, line :: rest =>
    if closes line then .schema opening body line :: partsAt .outside rest
    else partsAt (.inside opening (body ++ [line])) rest

def State.openLines : State → List Text
  | .outside | .foreign => []
  | .inside opening body => opening :: body

/-- The parts keep every line. -/
theorem flatMap_lines_partsAt (state : State) (lines : List Text) :
    (partsAt state lines).flatMap Part.lines = state.openLines ++ lines := by
  induction lines generalizing state with
  | nil => cases state <;> simp [partsAt, State.openLines, Part.lines]
  | cons line rest ih =>
    cases state with
    | outside =>
      simp only [partsAt]
      split
      · simp [ih, State.openLines]
      · split <;> simp [ih, State.openLines, Part.lines]
    | foreign =>
      simp only [partsAt]
      split <;> simp [ih, State.openLines, Part.lines]
    | inside opening body =>
      simp only [partsAt]
      split <;> simp [ih, State.openLines, Part.lines]

def parts (note : Text) : List Part := partsAt .outside (Text.lines note)

/-! ## Schemas of a note -/

/-- A schema of a note with the lines of its fences, counted from zero. -/
structure Schema where
  start : Nat
  stop : Nat
  source : Text
  deriving DecidableEq, Repr

def schemasFrom (number : Nat) : List Part → List Schema
  | [] => []
  | part :: later =>
    let rest := schemasFrom (number + part.lines.length) later
    match part with
    | .schema _ body _ => ⟨number, number + body.length + 1, Text.ofLines body⟩ :: rest
    | _ => rest

def noticesFrom (number : Nat) : List Part → List Notice
  | [] => []
  | part :: later =>
    let rest := noticesFrom (number + part.lines.length) later
    match part with
    | .unclosed _ _ => .unterminatedFence (number + 1) :: rest
    | _ => rest

def schemas (note : Text) : Noted (List Schema) :=
  { result := schemasFrom 0 (parts note), notices := noticesFrom 0 (parts note) }

def schemaAt? (note : Text) (number : Int) : Option Schema :=
  (schemasFrom 0 (parts note)).find? fun schema => schema.start < number ∧ number < schema.stop

/-! ## Formatting -/

def bodyLines (formatted : Text) : List Text :=
  if formatted = [] then [] else Text.lines (Text.trimEndBy (· = '\n') formatted)

def formatPart (configuration : Configuration) : Part → Noted (List Text)
  | .schema opening body closing =>
    let formatted := Format.text (Text.ofLines body) configuration
    { result := opening :: bodyLines formatted.result ++ [closing]
      notices := formatted.notices }
  | part => { result := part.lines }

def format (note : Text) (configuration : Configuration := .absent) : Noted Text :=
  let formatted := (parts note).map (formatPart configuration)
  { result := Text.ofLines (formatted.flatMap (·.result))
    notices := formatted.flatMap (·.notices) ++ noticesFrom 0 (parts note) }

end Fence

end AsnLayout
