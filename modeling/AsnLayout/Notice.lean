import AsnLayout.Fault
import AsnLayout.Options

/-!
# Notices

What happened on the way to a result.  A notice has a weight, comes from one part of the formatter,
and stands beside the result instead of being printed where it arises.
-/

set_option autoImplicit false

namespace AsnLayout

inductive Weight where
  | debug
  | warning
  deriving DecidableEq, Repr

namespace Weight

def label : Weight → String
  | debug => "DEBUG"
  | warning => "WARNING"

end Weight

inductive Notice where
  | mended (mend : Mend)
  | ignoredOptions (fault : OptionFault)
  | parsed (lines nodes : Nat)
  | realigned (fault : Fault)
  | unterminatedFence (line : Nat)
  deriving Repr

namespace Notice

def weight : Notice → Weight
  | mended _ | ignoredOptions _ => .warning
  | parsed _ _ | realigned _ | unterminatedFence _ => .debug

def channel : Notice → String
  | mended _ => "asn1fmt.config"
  | ignoredOptions _ | realigned _ => "asn1fmt.formatter"
  | parsed _ _ => "asn1fmt.parser.structural_parser"
  | unterminatedFence _ => "asn1fmt.markdown"

def message : Notice → String
  | mended mend =>
    s!"Invalid {mend.option.name} {String.ofList mend.value.shown}, using {mend.used}"
  | ignoredOptions fault => s!"Ignoring unusable configuration: {fault.message}"
  | parsed lines nodes => s!"Parsed {lines} line(s) into {nodes} top-level node(s)"
  | realigned fault =>
    s!"Structural formatting failed, re-indenting instead: {fault.message}"
  | unterminatedFence line => s!"Unterminated asn1 block starting on line {line}"

end Notice

/-- How the depth limit of a draft is shown: a truth value by its name, a number in digits. -/
def Draft.shownDepth (draft : Draft) (limit : Int) : String :=
  match draft.maxDepth with
  | .bool value => String.ofList (Value.bool value).shown
  | _ => toString limit

def Fault.messageUnder (fault : Fault) (draft : Draft) : String := fault.wording draft.shownDepth

structure Noted (α : Type) where
  result : α
  notices : List Notice := []
  deriving Repr

namespace Configuration

def settle (configuration : Configuration) : Noted (Except OptionFault Options) :=
  match configuration.draft? with
  | .error fault => { result := .error fault }
  | .ok draft => { result := .ok draft.usable, notices := draft.mends.map .mended }

end Configuration

end AsnLayout
