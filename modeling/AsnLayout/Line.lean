import AsnLayout.Remark
import AsnLayout.Text.Alphanumeric

/-!
# Kinds of lines

Each line of a schema is read on its own, except that a block comment, which a line opens with `-*`,
goes on up to the next line that ends with `*-`.
-/

set_option autoImplicit false

namespace AsnLayout

inductive LineKind where
  | moduleHeader
  | blockBegin
  | blockEnd
  | typeDefinition
  | field
  | comment
  | other
  deriving DecidableEq, Repr

namespace Text

/-! ## Words at their place -/

def breaksWord (after : Text) : Bool := !after.head?.any joinsWord

def startsWithWord (text word : Text) : Bool :=
  startsWith text word && breaksWord (text.drop word.length)

def endsWithWord (text word : Text) : Bool := startsWithWord text.reverse word.reverse

/-- Whether the word stands in a text, `joined` telling whether the character before the text
belongs to a word. -/
def holdsWord (word : Text) (joined : Bool) : Text → Bool
  | [] => !joined && startsWithWord [] word
  | c :: rest => (!joined && startsWithWord (c :: rest) word) || holdsWord word (joinsWord c) rest

/-- Whether a blank followed by the word stands in a text before its second line. -/
def holdsSpacedWord (word : Text) : Text → Bool
  | [] => false
  | c :: rest =>
    (isBlank c && startsWithWord rest word) || (c ≠ '\n' && holdsSpacedWord word rest)

/-! ## The tests of single lines -/

def definitionsWord : Text := "DEFINITIONS".toList

def beginWord : Text := "BEGIN".toList

def endWord : Text := "END".toList

def assignmentSign : Text := "::=".toList

/-- Whether code is the header of a module: a name, and behind it the word for definitions. -/
def isModuleHeader : Text → Bool
  | [] => false
  | c :: rest => isLatinLetter c && holdsSpacedWord definitionsWord rest

def opensModule (code : Text) : Bool := endsWithWord code beginWord

def codeKind (code : Text) : LineKind :=
  if isModuleHeader code then .moduleHeader
  else if opensModule code then .blockBegin
  else if startsWithWord code endWord then .blockEnd
  else if contains code assignmentSign then .typeDefinition
  else if 2 ≤ (words code).length && !holdsWord definitionsWord false code then .field
  else .other

def isLineComment (line : Text) : Bool := startsWith (trim line) ['-', '-']

def startsBlock (line : Text) : Bool := startsWith (trim line) ['-', '*']

def endsBlock (line : Text) : Bool := endsWith (trim line) ['*', '-']

def leavesBlockOpen (line : Text) : Bool :=
  startsBlock line && !(4 ≤ (trim line).length && endsBlock line)

end Text

/-! ## Lines in order -/

namespace LineKind

/-- The kind of the next line, where `inBlock` tells whether a block comment is open. -/
def ofLine (inBlock : Bool) (line : Text) : LineKind :=
  if inBlock || Text.isLineComment line || Text.startsBlock line then .comment
  else Text.codeKind (Text.codeLine (Text.trim line)).code

def blockAfter (inBlock : Bool) (line : Text) : Bool :=
  if inBlock then !Text.endsBlock line else Text.leavesBlockOpen line

end LineKind

end AsnLayout
