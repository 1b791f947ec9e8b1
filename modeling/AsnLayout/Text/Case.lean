import AsnLayout.Text.Basic

/-!
# Letter case

Comparisons that ignore case are made against words of ASCII letters.  These maps therefore send a
character to ASCII letters where its other-case form consists of them, and leave every other
character as it is, which then equals no ASCII letter.
-/

set_option autoImplicit false

namespace AsnLayout.Text

/-- The capitals a character stands for.  A ligature stands for several. -/
def capitals (c : Char) : Text :=
  match c with
  | 'ß' => ['S', 'S']
  | 'ı' => ['I']
  | 'ſ' => ['S']
  | 'ﬀ' => ['F', 'F']
  | 'ﬁ' => ['F', 'I']
  | 'ﬂ' => ['F', 'L']
  | 'ﬃ' => ['F', 'F', 'I']
  | 'ﬄ' => ['F', 'F', 'L']
  | 'ﬅ' => ['S', 'T']
  | 'ﬆ' => ['S', 'T']
  | c => [c.toUpper]

def toCapitals (text : Text) : Text := text.flatMap capitals

/-- The small letter of a character.  The kelvin sign has the small letter `k`. -/
def small (c : Char) : Char := if c = '\u212a' then 'k' else c.toLower

def toSmall (text : Text) : Text := text.map small

/-- The small letter that stands for all forms of a letter: the long `s` and the dotless and dotted
forms of `i` are forms of theirs. -/
def folded (c : Char) : Char :=
  if c = 'ſ' then 's'
  else if c = 'ı' || c = 'İ' then 'i'
  else small c

end AsnLayout.Text
