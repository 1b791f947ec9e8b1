import AsnLayout.Text.Span

/-!
# Blank characters

The characters that separate words: the ASCII spaces and separators, and the spaces and line
separators of Unicode.  A zero-width space and a byte order mark are not blank.
-/

set_option autoImplicit false

namespace AsnLayout.Text

def blankSpans : List (Nat × Nat) :=
  [(0x9, 0xD), (0x1C, 0x20), (0x85, 0x85), (0xA0, 0xA0), (0x1680, 0x1680), (0x2000, 0x200A),
   (0x2028, 0x2029), (0x202F, 0x202F), (0x205F, 0x205F), (0x3000, 0x3000)]

def isBlank (c : Char) : Bool := inSpans c.toNat blankSpans

end AsnLayout.Text
