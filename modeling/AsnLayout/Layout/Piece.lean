import AsnLayout.Text.Basic

/-!
# Pieces of a layout

A layout is a list of pieces: lines at a level, lines kept as they are, and gaps.  Only the assembly
of the pieces turns levels into spaces, and it never puts two gaps next to each other.
-/

set_option autoImplicit false

namespace AsnLayout

inductive Piece where
  | line (level : Int) (text : Text)
  | verbatim (text : Text)
  /-- An empty line, unless one stands before it already or nothing does. -/
  | gap
  deriving DecidableEq, Repr

namespace Piece

def indented (width level : Int) (text : Text) : Text := Text.spaces (level * width) ++ text

/-- The lines of a layout, `last` being the line before them. -/
def rows (width : Int) (last : Option Text) : List Piece → List Text
  | [] => []
  | line level text :: later =>
    indented width level text :: rows width (some (indented width level text)) later
  | verbatim text :: later => text :: rows width (some text) later
  | gap :: later =>
    match last with
    | none => rows width last later
    | some row => if row = [] then rows width last later else [] :: rows width (some []) later

/-- Drops newlines behind three in a row, `run` being how many stand right before the text. -/
def limitNewlines (run : Nat) : Text → Text
  | [] => []
  | c :: rest =>
    if c = '\n' then
      if run < 3 then c :: limitNewlines (run + 1) rest else limitNewlines run rest
    else c :: limitNewlines 0 rest

def trimRows (rows : List Text) : List Text :=
  ((rows.dropWhile Text.isBlankText).reverse.dropWhile Text.isBlankText).reverse

/-- The text of a layout.  It is empty, or ends with one newline. -/
def assemble (width : Int) (pieces : List Piece) : Text :=
  match trimRows (rows width none pieces) with
  | [] => []
  | kept => limitNewlines 0 (Text.ofLines kept) ++ ['\n']

end Piece

end AsnLayout
