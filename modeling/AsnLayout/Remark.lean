import AsnLayout.Field

/-!
# Comments behind code

A comment starts at two hyphens outside of string literals and runs to the end of its line.
-/

set_option autoImplicit false

namespace AsnLayout

structure CodeLine where
  code : Text
  comment : Option Text
  deriving DecidableEq, Repr

def Quoting.commentIndex? (q : Quoting) : Text → Option Nat
  | [] => none
  | c :: rest =>
    if q.exposes c && c = '-' && rest.head? = some '-' then some 0
    else (commentIndex? (q.next c) rest).map (· + 1)

/-- Code with a comment behind it; an empty comment is none, and a comment may stand alone. -/
def beside (code : Text) : Option Text → Text
  | none => code
  | some comment =>
    if comment = [] then code
    else if code = [] then comment
    else code ++ ' ' :: comment

def bothComments : Option Text → Option Text → Option Text
  | none, later => later
  | earlier, none => earlier
  | some earlier, some later => some (earlier ++ ' ' :: later)

namespace Text

def codeLine (line : Text) : CodeLine :=
  match Quoting.commentIndex? {} line with
  | none => ⟨line, none⟩
  | some i => ⟨trimEnd (line.take i), some (trim (line.drop i))⟩

def neatLine (line : Text) : Text :=
  beside (neat (codeLine line).code) (codeLine line).comment

end Text

end AsnLayout
