import AsnLayout.Text.Blank

/-!
# Texts

A text is a list of characters, so every position counts characters.  This module trims a text,
cuts it into words and lines, and looks for one text in another.
-/

set_option autoImplicit false

namespace AsnLayout

abbrev Text := List Char

namespace Text

/-! ## Trimming -/

def trimStartBy (drop : Char → Bool) (text : Text) : Text := text.dropWhile drop

def trimEndBy (drop : Char → Bool) (text : Text) : Text := (text.reverse.dropWhile drop).reverse

def trimStart (text : Text) : Text := trimStartBy isBlank text

def trimEnd (text : Text) : Text := trimEndBy isBlank text

def trim (text : Text) : Text := trimEnd (trimStart text)

def isBlankText (text : Text) : Bool := text.all isBlank

/-! ## Words and lines -/

def words (text : Text) : List Text := (text.splitOnP isBlank).filter (!·.isEmpty)

def firstWord (text : Text) : Text := (words text).head?.getD []

def lastWord (text : Text) : Text := (words text).getLast?.getD []

/-- The lines of a text.  Only a newline ends a line, and the empty text has one empty line. -/
def lines (text : Text) : List Text := text.splitOn '\n'

def ofLines (lines : List Text) : Text := ['\n'].intercalate lines

/-! ## Looking for a text -/

def startsWith (text start : Text) : Bool := start.isPrefixOf text

def endsWith (text tail : Text) : Bool := tail.isSuffixOf text

/-- The text around the first occurrence of a mark, which is left out. -/
def cutAt? (mark : Text) : Text → Option (Text × Text)
  | [] => if mark.isEmpty then some ([], []) else none
  | c :: rest =>
    if startsWith (c :: rest) mark then some ([], (c :: rest).drop mark.length)
    else (cutAt? mark rest).map fun (before, after) => (c :: before, after)

def contains (text mark : Text) : Bool := (cutAt? mark text).isSome

/-! ## Writing -/

/-- A run of spaces; a width that is not positive gives none. -/
def spaces (width : Int) : Text := List.replicate width.toNat ' '

def ofNat (n : Nat) : Text := (toString n).toList

def ofInt (n : Int) : Text := (toString n).toList

end Text

end AsnLayout
