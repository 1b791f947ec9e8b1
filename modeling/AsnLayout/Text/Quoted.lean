import AsnLayout.Text.Basic
import AsnLayout.Text.Printable

/-!
# Quoted texts

A text in a message is quoted: between single quotes, or between double quotes where it holds a
single quote and no double one.  The quote, the backslash, and what is not printable are escaped, so
the quoted text stands on one line.
-/

set_option autoImplicit false

namespace AsnLayout.Text

def hex (width n : Nat) : Text :=
  let digits := Nat.toDigits 16 n
  List.replicate (width - digits.length) '0' ++ digits

/-- The escape of a character by its code point, with as few digits as its range needs. -/
def codeEscape (c : Char) : Text :=
  let code := c.toNat
  if code < 0x100 then ['\\', 'x'] ++ hex 2 code
  else if code < 0x10000 then ['\\', 'u'] ++ hex 4 code
  else ['\\', 'U'] ++ hex 8 code

def quotedChar (quote c : Char) : Text :=
  if c = quote || c = '\\' then ['\\', c]
  else if c = '\n' then ['\\', 'n']
  else if c = '\r' then ['\\', 'r']
  else if c = '\t' then ['\\', 't']
  else if isPrintable c then [c]
  else codeEscape c

def quoteFor (text : Text) : Char :=
  if '\'' ∈ text ∧ '"' ∉ text then '"' else '\''

def quoted (text : Text) : Text :=
  let quote := quoteFor text
  quote :: text.flatMap (quotedChar quote) ++ [quote]

end AsnLayout.Text
