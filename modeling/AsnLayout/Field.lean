import AsnLayout.Bracket

/-!
# Spelling of members

A member of a group is written with single spaces, a space on both sides of an assignment sign, and
no comma behind it.  A list of members is cut at its commas, brackets and literals kept whole.
-/

set_option autoImplicit false

namespace AsnLayout.Text

/-! ## Neat texts -/

def spaceAssignments : Text → Text
  | [] => []
  | ':' :: ':' :: '=' :: rest => ' ' :: ':' :: ':' :: '=' :: ' ' :: spaceAssignments rest
  | c :: rest => c :: spaceAssignments rest

def collapse : Text → Text
  | [] => []
  | c :: rest =>
    if isBlank c then
      if rest.head?.any isBlank then collapse rest else ' ' :: collapse rest
    else c :: collapse rest

/-- Spaces the assignment signs of a text and collapses its blanks, literals apart. -/
def neat (text : Text) : Text := trim (mapCode (fun code => collapse (spaceAssignments code)) text)

/-- The neat text without the commas it ends with. -/
def memberForm (text : Text) : Text := trimEndBy (fun c => c = ',' || isBlank c) (neat text)

/-! ## Lists of members -/

/-- Cuts a text at the delimiters outside of brackets, `depth` of which are open. -/
def segments (delimiter : Char → Bool) (depth : Nat) : List Mark → List Text
  | [] => [[]]
  | mark :: rest =>
    if mark.passes isOpener then
      (segments delimiter (depth + 1) rest).modifyHead (mark.char :: ·)
    else if mark.passes isCloser then
      (segments delimiter (depth - 1) rest).modifyHead (mark.char :: ·)
    else if mark.passes delimiter && depth = 0 then [] :: segments delimiter depth rest
    else (segments delimiter depth rest).modifyHead (mark.char :: ·)

/-- Whether a segment holds a member: it is neither empty nor a brace on its own. -/
def isMember (segment : Text) : Bool :=
  segment ≠ [] && segment ≠ ['{'] && segment ≠ ['}']

def members (text : Text) (delimiter : Char → Bool := (· = ',')) : List Text :=
  ((segments delimiter 0 (marks text)).map memberForm).filter isMember

end AsnLayout.Text
