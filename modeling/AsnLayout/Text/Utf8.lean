import AsnLayout.Text.Quoted

/-!
# UTF-8

Files hold bytes.  Reading is strict: the first byte sequence that encodes no character is an error,
which tells the bytes of the sequence that are wrong or left without their end.
-/

set_option autoImplicit false

namespace AsnLayout

inductive Utf8.Reason where
  | badStart
  | badContinuation
  | endOfData
  deriving DecidableEq, Repr

structure Utf8.Error where
  start : Nat
  count : Nat
  byte : UInt8
  reason : Utf8.Reason
  deriving DecidableEq, Repr

namespace Utf8

def Reason.message : Reason → String
  | badStart => "invalid start byte"
  | badContinuation => "invalid continuation byte"
  | endOfData => "unexpected end of data"

def Error.message (error : Error) : String :=
  let place :=
    if error.count = 1 then
      s!"byte 0x{String.ofList (Text.hex 2 error.byte.toNat)} in position {error.start}"
    else s!"bytes in position {error.start}-{error.start + error.count - 1}"
  s!"'utf-8' codec can't decode {place}: {error.reason.message}"

/-! ## Sequences -/

def continues (byte : UInt8) : Bool := 0x80 ≤ byte && byte < 0xC0

def following? (first : UInt8) : Option Nat :=
  if first < 0x80 then some 0
  else if 0xC2 ≤ first && first < 0xE0 then some 1
  else if 0xE0 ≤ first && first < 0xF0 then some 2
  else if 0xF0 ≤ first && first < 0xF5 then some 3
  else none

/-- Whether a byte may stand second in a sequence: it rules out sequences that are too long for
their character, surrogates, and what lies beyond the last character. -/
def seconds (first second : UInt8) : Bool :=
  continues second &&
    !(first = 0xE0 && second < 0xA0) && !(first = 0xED && 0xA0 ≤ second) &&
    !(first = 0xF0 && second < 0x90) && !(first = 0xF4 && 0x90 ≤ second)

/-- How many of the bytes behind the first one are right, at most `count`. -/
def rightBytes (first : UInt8) (count : Nat) : List UInt8 → Nat
  | [] => 0
  | second :: rest =>
    if count = 0 || !seconds first second then 0
    else ((rest.take (count - 1)).takeWhile continues).length + 1

def payload (first : UInt8) (rest : List UInt8) : Nat :=
  let lead :=
    match rest.length with
    | 0 => first.toNat
    | 1 => first.toNat % 0x20
    | 2 => first.toNat % 0x10
    | _ => first.toNat % 0x08
  rest.foldl (fun code byte => code * 0x40 + byte.toNat % 0x40) lead

/-- Reads bytes from a position on, the first `skip` of which belong to the sequence before. -/
def decodeFrom (position skip : Nat) : List UInt8 → Except Error Text
  | [] => .ok []
  | first :: rest =>
    match skip with
    | skip + 1 => decodeFrom (position + 1) skip rest
    | 0 =>
      match following? first with
      | none => .error ⟨position, 1, first, .badStart⟩
      | some count =>
        let right := rightBytes first count rest
        if right = count then
          match decodeFrom (position + 1) count rest with
          | .error error => .error error
          | .ok text => .ok (Char.ofNat (payload first (rest.take count)) :: text)
        else if right = rest.length then .error ⟨position, right + 1, first, .endOfData⟩
        else .error ⟨position, right + 1, first, .badContinuation⟩

def decode (bytes : List UInt8) : Except Error Text := decodeFrom 0 0 bytes

def encode (text : Text) : List UInt8 := text.flatMap String.utf8EncodeChar

end Utf8

end AsnLayout
