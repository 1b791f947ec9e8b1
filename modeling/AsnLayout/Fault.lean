import AsnLayout.Text.Basic

/-!
# Faults

Why a schema has no definition tree, or why a tree has no layout.
-/

set_option autoImplicit false

namespace AsnLayout

inductive Fault.Cause where
  | unnamedDefinition
  | missingRightSide
  /-- A group behind the first one of a type is not closed on its line. -/
  | unbalancedType (name : Text)
  /-- A new definition or the end of the module comes before the body of a definition ends. -/
  | unterminated (name : Text) (openedOn : Nat)
  | unmatchedBrace (name : Text)
  /-- Braces behind the body of a definition do not balance. -/
  | unbalancedTrailer (name : Text)
  | secondGroup
  | tooDeep (limit : Int)
  | tooManyLines (limit : Int)
  deriving DecidableEq, Repr

structure Fault where
  cause : Fault.Cause
  line : Option Nat := none
  deriving DecidableEq, Repr

namespace Fault

/-- The wording of a cause, with the depth limit as `depth` shows it. -/
def Cause.wording (depth : Int → String) : Cause → String
  | unnamedDefinition => "type definition without a name"
  | missingRightSide => "missing right-hand side after '::='"
  | unbalancedType name => s!"unbalanced braces in definition of {String.ofList name}"
  | unterminated name openedOn =>
    s!"unterminated definition of {String.ofList name} (opened on line {openedOn})"
  | unmatchedBrace name => s!"unmatched '\x7b' in definition of {String.ofList name}"
  | unbalancedTrailer name => s!"unbalanced braces after the body of {String.ofList name}"
  | secondGroup => "opening brace after a closed group"
  | tooDeep limit => s!"nesting deeper than {depth limit} levels"
  | tooManyLines limit => s!"iteration limit of {limit} exceeded"

def wording (depth : Int → String) (fault : Fault) : String :=
  match fault.line with
  | none => fault.cause.wording depth
  | some line => s!"Line {line}: {fault.cause.wording depth}"

def message (fault : Fault) : String := fault.wording toString

end Fault

end AsnLayout
