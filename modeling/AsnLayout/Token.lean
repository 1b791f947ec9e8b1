import AsnLayout.Reserved
import AsnLayout.Text.Alphanumeric

/-!
# Tokens of a schema

For highlighting, a schema is cut into tokens that keep every character.  Each token is decided by
its first character and the text behind it, and carries the position where it starts.
-/

set_option autoImplicit false

namespace AsnLayout

inductive TokenKind where
  | comment
  | string
  | number
  | keyword
  | identifier
  | operator
  | tag
  | punctuation
  | whitespace
  | newline
  | other
  | finish
  deriving DecidableEq, Repr

structure Position where
  line : Nat := 1
  column : Nat := 1
  deriving DecidableEq, Repr

namespace Position

def next (position : Position) (c : Char) : Position :=
  if c = '\n' then ⟨position.line + 1, 1⟩ else ⟨position.line, position.column + 1⟩

end Position

structure Token where
  kind : TokenKind
  text : Text
  position : Position
  deriving DecidableEq, Repr

namespace Lexeme

/-! ## Lengths

Each function tells how many characters of a text belong to the token that has been begun. -/

def blockLength : Text → Nat
  | [] => 0
  | '*' :: '-' :: _ => 2
  | _ :: rest => blockLength rest + 1

/-- Characters of a string behind its opening quote.  A backslash takes the next character with it,
and two quotes stand for one. -/
def stringLength : Text → Nat
  | [] => 0
  | ['\\'] => 1
  | '\\' :: _ :: rest => stringLength rest + 2
  | '"' :: '"' :: rest => stringLength rest + 2
  | '"' :: _ => 1
  | _ :: rest => stringLength rest + 1

/-- Characters of a name.  A hyphen belongs to it if the name goes on behind it. -/
def nameLength : Text → Nat
  | [] => 0
  | c :: rest =>
    if Text.isAlphanumeric c || (c = '-' && rest.head?.any Text.isAlphanumeric) then
      nameLength rest + 1
    else 0

def runLength (test : Char → Bool) (text : Text) : Nat := (text.takeWhile test).length

/-- Characters of a number: digits, and a fraction if a digit follows the point. -/
def numberLength (text : Text) : Nat :=
  let whole := runLength Text.isDigit text
  match text.drop whole with
  | '.' :: rest =>
    if rest.head?.any Text.isDigit then whole + 1 + runLength Text.isDigit rest else whole
  | _ => whole

def tagClasses : List Text :=
  ["UNIVERSAL".toList, "APPLICATION".toList, "PRIVATE".toList, "CONTEXT".toList]

def dropTagClass (text : Text) : Text :=
  match tagClasses.find? fun word =>
      (text.take word.length).map Text.folded = word.map Text.folded with
  | none => text
  | some word =>
    let rest := text.drop word.length
    if rest.head?.any Text.isBlank then Text.trimStart rest else text

/-- Characters of a tag behind its opening bracket: an optional class, a number and the closing
bracket, with blanks between them. -/
def tagLength? (text : Text) : Option Nat :=
  let number := dropTagClass (Text.trimStart text)
  if number.head?.any Text.isDecimal then
    match Text.trimStart (number.dropWhile Text.isDecimal) with
    | ']' :: rest => some (text.length - rest.length)
    | _ => none
  else none

/-! ## The next token -/

def isSpace (c : Char) : Bool := c = ' ' || c = '\t' || c = '\r'

def isPunctuation (c : Char) : Bool := c ∈ ":\x7b\x7d[]().,;|".toList

def nameKind (name : Text) : TokenKind := if isReserved name then .keyword else .identifier

/-- The kind of the token that starts with a character, and how many characters behind it belong to
the token. -/
def next (c : Char) (rest : Text) : TokenKind × Nat :=
  if c = '\n' then (.newline, 0)
  else if isSpace c then (.whitespace, runLength isSpace rest)
  else if c = '-' ∧ rest.head? = some '-' then (.comment, runLength (· ≠ '\n') rest)
  else if c = '-' ∧ rest.head? = some '*' then (.comment, blockLength (rest.drop 1) + 1)
  else if c = '"' then (.string, stringLength rest)
  else if c = '[' ∧ (tagLength? rest).isSome then (.tag, (tagLength? rest).getD 0)
  else if c = ':' ∧ Text.startsWith rest [':', '='] then (.operator, 2)
  else if c = '.' ∧ Text.startsWith rest ['.', '.'] then (.operator, 2)
  else if c = '.' ∧ Text.startsWith rest ['.'] then (.operator, 1)
  else if Text.isDigit c then (.number, numberLength (c :: rest) - 1)
  else if Text.isLetter c then
    (nameKind (c :: rest.take (nameLength rest)), nameLength rest)
  else if isPunctuation c then (.punctuation, 0)
  else (.other, 0)

end Lexeme

namespace Token

/-- The tokens of a text that starts at a position, the first `skip` characters of which belong to
the token before. -/
def scan (position : Position) (skip : Nat) : Text → List Token
  | [] => [⟨.finish, [], position⟩]
  | c :: rest =>
    match skip with
    | skip + 1 => scan (position.next c) skip rest
    | 0 =>
      let (kind, count) := Lexeme.next c rest
      ⟨kind, c :: rest.take count, position⟩ :: scan (position.next c) count rest

theorem flatMap_text_scan (position : Position) (skip : Nat) (text : Text) :
    (scan position skip text).flatMap Token.text = text.drop skip := by
  induction text generalizing position skip with
  | nil => simp [scan]
  | cons c rest ih =>
    cases skip with
    | zero => simp [scan, ih]
    | succ skip => simp [scan, ih]

end Token

namespace Text

def tokens (text : Text) : List Token := Token.scan {} 0 text

end Text

end AsnLayout
