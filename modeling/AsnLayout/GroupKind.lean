import AsnLayout.Text.Basic

/-!
# Kinds of groups

Four words head a group that is laid out one member a line.
-/

set_option autoImplicit false

namespace AsnLayout

inductive GroupKind where
  | sequence
  | set
  | choice
  | enumerated
  /-- Any other group, and a type without one. -/
  | primitive
  deriving DecidableEq, Repr

namespace GroupKind

def keyword : GroupKind → String
  | sequence => "SEQUENCE"
  | set => "SET"
  | choice => "CHOICE"
  | enumerated => "ENUMERATED"
  | primitive => "PRIMITIVE"

def structured : List GroupKind := [sequence, set, choice, enumerated]

def isStructured (kind : GroupKind) : Bool := kind ≠ primitive

/-- The kind of the group behind a header, decided by the last word of the header. -/
def ofHeader (header : Text) : GroupKind :=
  (structured.find? fun kind => Text.lastWord header = kind.keyword.toList).getD primitive

end GroupKind

end AsnLayout
