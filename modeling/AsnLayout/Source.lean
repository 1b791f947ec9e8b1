import AsnLayout.Text.Basic

/-!
# Source texts

Before a schema is read its line ends become newlines and its tabs spaces.
-/

set_option autoImplicit false

namespace AsnLayout.Text

def unifyNewlines : Text → Text
  | [] => []
  | '\r' :: '\n' :: rest => '\n' :: unifyNewlines rest
  | c :: rest => (if c = '\r' then '\n' else c) :: unifyNewlines rest

/-- Replaces each tab of a line by spaces up to the next stop, `column` characters standing before
the text.  Without a positive width tabs are dropped.  Widths are numbers of any size: the bound of
the system's integers, which refuses widths of `2 ^ 31` and more, is set aside. -/
def tabsToSpaces (width column : Nat) : Text → Text
  | [] => []
  | c :: rest =>
    if c = '\t' then
      let gap := if width = 0 then 0 else width - column % width
      List.replicate gap ' ' ++ tabsToSpaces width (column + gap) rest
    else c :: tabsToSpaces width (column + 1) rest

def plainSource (source : Text) (width : Int) : Text :=
  ofLines ((lines (unifyNewlines source)).map (tabsToSpaces width.toNat 0))

end AsnLayout.Text
