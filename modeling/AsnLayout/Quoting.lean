import AsnLayout.Text.Basic

/-!
# String literals in a text

A quote that does not follow a backslash opens a string literal or closes the open one.  What stands
between the two quotes is not code: it opens no group, ends no member and starts no comment.  A
literal that is never closed runs to the end of the text.
-/

set_option autoImplicit false

namespace AsnLayout

/-- What a scan remembers of the characters behind it. -/
structure Quoting where
  escaped : Bool := false
  inside : Bool := false
  deriving DecidableEq, Repr

namespace Quoting

def isQuote (q : Quoting) (c : Char) : Bool := c = '"' && !q.escaped

def next (q : Quoting) (c : Char) : Quoting where
  escaped := c = '\\'
  inside := if q.isQuote c then !q.inside else q.inside

/-- Whether the next character is code: outside of literals and no quote. -/
def exposes (q : Quoting) (c : Char) : Bool := !q.isQuote c && !q.inside

end Quoting

/-! ## Marked characters -/

structure Mark where
  char : Char
  exposed : Bool
  deriving DecidableEq, Repr

namespace Mark

def passes (mark : Mark) (test : Char → Bool) : Bool := mark.exposed && test mark.char

def is (mark : Mark) (c : Char) : Bool := mark.exposed && mark.char = c

end Mark

namespace Quoting

def marks (q : Quoting) : Text → List Mark
  | [] => []
  | c :: rest => ⟨c, q.exposes c⟩ :: marks (q.next c) rest

def after (q : Quoting) (text : Text) : Quoting := text.foldl next q

@[simp]
theorem map_char_marks (q : Quoting) (text : Text) : (q.marks text).map Mark.char = text := by
  induction text generalizing q with
  | nil => rfl
  | cons c rest ih => simp [marks, ih]

@[simp]
theorem length_marks (q : Quoting) (text : Text) : (q.marks text).length = text.length := by
  rw [← List.length_map (f := Mark.char), map_char_marks]

theorem marks_append (q : Quoting) (front back : Text) :
    q.marks (front ++ back) = q.marks front ++ (q.after front).marks back := by
  induction front generalizing q with
  | nil => rfl
  | cons c rest ih => simp [marks, after, ih]

end Quoting

namespace Text

def marks (text : Text) : List Mark := Quoting.marks {} text

def exposed (text : Text) : List (Nat × Char) :=
  (marks text).zipIdx.filterMap fun (mark, i) => if mark.exposed then some (i, mark.char) else none

/-- Position of the first code character that passes the test, among those at or after `start`. -/
def findExposed? (text : Text) (test : Char → Bool) (start : Int := 0) : Option Nat :=
  (((marks text).drop start.toNat).findIdx? (·.passes test)).map (· + start.toNat)

end Text

/-! ## Chunks -/

/-- A stretch of a text that is wholly code or wholly one literal with its quotes. -/
structure Chunk where
  literal : Bool
  text : Text
  deriving DecidableEq, Repr

namespace Chunk

def extend (c : Char) : List Chunk → List Chunk
  | [] => []
  | chunk :: later => { chunk with text := c :: chunk.text } :: later

end Chunk

namespace Quoting

/-- The chunks of a text.  The first one continues what is open, so code and literals alternate. -/
def chunks (q : Quoting) : Text → List Chunk
  | [] => [⟨q.inside, []⟩]
  | c :: rest =>
    let later := chunks (q.next c) rest
    if q.isQuote c then
      if q.inside then ⟨true, [c]⟩ :: later
      else ⟨false, []⟩ :: Chunk.extend c later
    else Chunk.extend c later

theorem chunks_ne_nil (q : Quoting) (text : Text) : q.chunks text ≠ [] := by
  induction text generalizing q with
  | nil => simp [chunks]
  | cons c rest ih =>
    have later := ih (q.next c)
    cases found : chunks (q.next c) rest with
    | nil => exact absurd found later
    | cons chunk more =>
      simp only [chunks, found, Chunk.extend]
      split
      · split <;> simp
      · simp

@[simp]
theorem flatMap_text_chunks (q : Quoting) (text : Text) :
    (q.chunks text).flatMap Chunk.text = text := by
  induction text generalizing q with
  | nil => simp [chunks]
  | cons c rest ih =>
    have kept := ih (q.next c)
    cases found : chunks (q.next c) rest with
    | nil => exact absurd found (chunks_ne_nil _ _)
    | cons chunk more =>
      rw [found] at kept
      simp only [List.flatMap_cons] at kept
      simp only [chunks, found, Chunk.extend]
      split
      · split <;> simp [kept]
      · simp [kept]

end Quoting

namespace Text

def chunks (text : Text) : List Chunk := Quoting.chunks {} text

def literals (text : Text) : List Text :=
  ((chunks text).filter (·.literal)).map (·.text)

def mapCode (change : Text → Text) (text : Text) : Text :=
  (chunks text).flatMap fun chunk =>
    if chunk.literal then chunk.text else change chunk.text

end Text

end AsnLayout
