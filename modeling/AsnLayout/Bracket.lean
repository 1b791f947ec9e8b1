import AsnLayout.Quoting

/-!
# Brackets

Braces group members, and all three kinds of brackets keep a comma from ending a member.  Only
brackets outside of string literals count.
-/

set_option autoImplicit false

namespace AsnLayout

def isOpener (c : Char) : Bool := c = '{' || c = '(' || c = '['

def isCloser (c : Char) : Bool := c = '}' || c = ')' || c = ']'

def Mark.braceStep (mark : Mark) : Int :=
  if mark.is '{' then 1 else if mark.is '}' then -1 else 0

namespace Text

def braceBalance (text : Text) : Int :=
  (marks text).foldr (fun mark total => mark.braceStep + total) 0

/-- How many closing braces a text starts with, spaces and tabs aside. -/
def closersAtStart : Text → Nat
  | [] => 0
  | c :: rest =>
    if c = '}' then closersAtStart rest + 1
    else if c = ' ' || c = '\t' then closersAtStart rest
    else 0

end Text

/-- Where a group already open is closed, with `nested` more groups open inside of it. -/
def closeIndex? (nested : Nat) : List Mark → Option Nat
  | [] => none
  | mark :: rest =>
    if mark.is '{' then (closeIndex? (nested + 1) rest).map (· + 1)
    else if mark.is '}' then
      match nested with
      | 0 => some 0
      | nested + 1 => (closeIndex? nested rest).map (· + 1)
    else (closeIndex? nested rest).map (· + 1)

namespace Text

/-- Position of the brace that closes the group whose opening brace stands right before the text. -/
def groupEnd? (text : Text) : Option Nat := closeIndex? 0 (marks text)

inductive MatchError where
  | noBraceAt (index : Int)
  deriving DecidableEq, Repr

namespace MatchError

def message : MatchError → String
  | .noBraceAt index => s!"No opening brace at index {index}"

end MatchError

/-- Position of the brace that closes the one at `index`, or none if the text ends before it. -/
def closerOf (text : Text) (index : Int) : Except MatchError (Option Nat) :=
  if 0 ≤ index ∧ text[index.toNat]? = some '{' then
    .ok ((groupEnd? (text.drop (index.toNat + 1))).map (· + (index.toNat + 1)))
  else .error (.noBraceAt index)

end Text

end AsnLayout
