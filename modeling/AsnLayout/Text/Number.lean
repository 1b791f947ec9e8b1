import AsnLayout.Text.Basic
import AsnLayout.Text.Digit

/-!
# Whole numbers in arguments

A whole number is a sign, if any, and decimal digits of any script, with single underscores between
digits if they help the reader, and with blanks around it.
-/

set_option autoImplicit false

namespace AsnLayout.Text

/-- Whether a character may stand around a number: a blank other than the ASCII separators. -/
def padsNumber (c : Char) : Bool := isBlank c && !('\x1c' ≤ c && c ≤ '\x1f')

def digitValues? : Text → Option (List Nat)
  | [] => none
  | [c] => (decimalValue? c).map fun value => [value]
  | c :: '_' :: rest => do
    let value ← decimalValue? c
    let later ← digitValues? rest
    return value :: later
  | c :: rest => do
    let value ← decimalValue? c
    let later ← digitValues? rest
    return value :: later

def maxDigits : Nat := 4300

def natural? (text : Text) : Option Nat := do
  let values ← digitValues? text
  if values.length ≤ maxDigits then
    return values.foldl (fun number value => number * 10 + value) 0
  else none

def integer? (text : Text) : Option Int :=
  match trimEndBy padsNumber (trimStartBy padsNumber text) with
  | '-' :: digits => (natural? digits).map fun number => -(number : Int)
  | '+' :: digits => (natural? digits).map fun number => (number : Int)
  | digits => (natural? digits).map fun number => (number : Int)

/-- Whether a text starting with a hyphen looks like a negative number: digits, or digits around a
point of which none need stand before it.  A newline may stand at its end. -/
def looksNegative : Text → Bool
  | '-' :: rest =>
    let body := if rest.getLast? = some '\n' then rest.dropLast else rest
    match body.dropWhile isDecimal with
    | [] => !body.isEmpty
    | '.' :: fraction => !fraction.isEmpty && fraction.all isDecimal
    | _ => false
  | _ => false

end AsnLayout.Text
