import AsnLayout.Layout.Document
import AsnLayout.Notice
import AsnLayout.Realign
import AsnLayout.Source
import AsnLayout.Tree.Reader

/-!
# Formatting

A schema is formatted by the layout of its tree.  If it has no tree, or its tree no layout, its
lines are re-indented instead, so formatting always has a result.
-/

set_option autoImplicit false

namespace AsnLayout

namespace Node

def read (text : Text) (options : Options := {}) : Noted (Except Fault Node) :=
  match ofText text options with
  | .error fault => { result := .error fault }
  | .ok root =>
    { result := .ok root, notices := [.parsed (Text.lines text).length root.children.length] }

end Node

namespace Format

/-- The layout of a schema in newlines and spaces, or its lines re-indented. -/
def layout (text : Text) (options : Options) : Noted Text :=
  let parsed := Node.read text options
  match parsed.result >>= (·.toText options) with
  | .ok result => { result, notices := parsed.notices }
  | .error fault =>
    { result := Text.realign text options.indentWidth
      notices := parsed.notices ++ [.realigned fault] }

/-- The options of a configuration; those that cannot be used are the defaults. -/
def options (configuration : Configuration) : Noted Options :=
  let settled := configuration.settle
  match settled.result with
  | .ok result => { result, notices := settled.notices }
  | .error fault => { result := {}, notices := settled.notices ++ [.ignoredOptions fault] }

/-- Formats a text; a blank one is empty, whatever the configuration. -/
def text (source : Text) (configuration : Configuration := .absent) : Noted Text :=
  if Text.isBlankText source then { result := [] }
  else
    let options := Format.options configuration
    let formatted :=
      layout (Text.plainSource source options.result.indentWidth) options.result
    { result := formatted.result, notices := options.notices ++ formatted.notices }

def value (source : Value) (configuration : Configuration := .absent) : Noted Text :=
  match source with
  | .null => { result := [] }
  | source => text source.asText configuration

/-- Formats a value a number of times, each time the result before, and keeps all results. -/
def passes (configuration : Configuration) : Nat → Value → Noted (List Text)
  | 0, _ => { result := [] }
  | count + 1, source =>
    let first := value source configuration
    let later := passes configuration count (.text first.result)
    { result := first.result :: later.result, notices := first.notices ++ later.notices }

end Format

end AsnLayout
