import AsnLayout.Line

/-!
# Re-indenting

Lines of a schema that has no tree are kept, and only what stands before and behind them changes: a
line is indented by the braces and modules open where it starts.
-/

set_option autoImplicit false

namespace AsnLayout

namespace Realign

structure Depth where
  inBlock : Bool := false
  count : Nat := 0
  deriving DecidableEq, Repr

/-- A line of code at a depth: the depth it is indented by, and the depth behind it. -/
def codeDepths (kind : LineKind) (code : Text) (depth : Nat) : Nat × Nat :=
  let closers := Text.closersAtStart code
  let start := (if kind = .blockEnd then depth - 1 else depth) - closers
  let stop := (start + (Text.braceBalance code + closers)).toNat
  let opens := (kind = .blockBegin || kind = .moduleHeader) && Text.opensModule code
  (start, if opens then stop + 1 else stop)

def line (width : Nat) (depth : Depth) (line : Text) : Text × Depth :=
  let inBlock := LineKind.blockAfter depth.inBlock line
  let trimmed := Text.trim line
  if trimmed = [] then (if depth.inBlock then line else [], { depth with inBlock })
  else
    match LineKind.ofLine depth.inBlock line with
    | .comment =>
      let text :=
        if depth.inBlock then line else Text.spaces (depth.count * width) ++ trimmed
      (text, { depth with inBlock })
    | kind =>
      let (start, stop) := codeDepths kind (Text.codeLine trimmed).code depth.count
      (Text.spaces (start * width) ++ trimmed, { inBlock, count := stop })

def lines (width : Nat) (depth : Depth) : List Text → List Text
  | [] => []
  | first :: later =>
    let (text, depth) := line width depth first
    text :: lines width depth later

@[simp]
theorem length_lines (width : Nat) (depth : Depth) (given : List Text) :
    (lines width depth given).length = given.length := by
  induction given generalizing depth with
  | nil => rfl
  | cons first later ih => simp [lines, ih]

end Realign

namespace Text

/-- The text with its lines re-indented; the width is at least one. -/
def realign (text : Text) (width : Int := 2) : Text :=
  ofLines (Realign.lines (max 1 width).toNat {} (lines text))

end Text

end AsnLayout
