import AsnLayout.Text.Quoted

/-!
# Values of settings

Settings come from a host program and may hold any value.  A value can be shown in a message, and
every value is true or false where a switch is asked for.
-/

set_option autoImplicit false

namespace AsnLayout

inductive Value where
  | null
  | bool (value : Bool)
  | int (value : Int)
  /-- A number with a fraction, by its shortest decimal text. -/
  | float (digits : Text)
  | text (value : Text)
  | list (items : List Value)
  /-- Entries in the order they were made. -/
  | map (entries : List (Text × Value))
  deriving Repr, Inhabited

namespace Value

mutual

def shown : Value → Text
  | null => "None".toList
  | bool true => "True".toList
  | bool false => "False".toList
  | int value => Text.ofInt value
  | float digits => digits
  | text value => Text.quoted value
  | list items => '[' :: shownItems items ++ [']']
  | map entries => '{' :: shownEntries entries ++ ['}']

def shownItems : List Value → Text
  | [] => []
  | [item] => shown item
  | item :: later => shown item ++ ", ".toList ++ shownItems later

def shownEntries : List (Text × Value) → Text
  | [] => []
  | [(key, value)] => Text.quoted key ++ ": ".toList ++ shown value
  | (key, value) :: later =>
    Text.quoted key ++ ": ".toList ++ shown value ++ ", ".toList ++ shownEntries later

end

def asText : Value → Text
  | text value => value
  | value => value.shown

/-- Whether a value switches on what it is given for: empty and zero values do not. -/
def isTrue : Value → Bool
  | null => false
  | bool value => value
  | int value => value ≠ 0
  | float digits => digits ≠ "0.0".toList && digits ≠ "-0.0".toList
  | text value => value ≠ []
  | list items => !items.isEmpty
  | map entries => !entries.isEmpty

def typeName : Value → String
  | null => "NoneType"
  | bool _ => "bool"
  | int _ => "int"
  | float _ => "float"
  | text _ => "str"
  | list _ => "list"
  | map _ => "dict"

end Value

end AsnLayout
