/-!
# Character classes as spans of code points

A character class is a list of inclusive spans of code points in increasing order.  Membership walks
the list and stops at the first span that begins above the character.
-/

set_option autoImplicit false

namespace AsnLayout.Text

def inSpans (code : Nat) : List (Nat × Nat) → Bool
  | [] => false
  | (first, last) :: later =>
    if code < first then false
    else if code ≤ last then true
    else inSpans code later

end AsnLayout.Text
