import AsnLayout.Text.Case

/-!
# Reserved words

The words of the schema language that are no names.
-/

set_option autoImplicit false

namespace AsnLayout

namespace Reserved

def types : List String :=
  ["BOOLEAN", "INTEGER", "BIT", "OCTET", "NULL", "OBJECT", "REAL", "ENUMERATED", "EMBEDDED",
   "UTF8String", "RELATIVE-OID", "SEQUENCE", "SET", "CHOICE", "STRING"]

def stringTypes : List String :=
  ["NumericString", "PrintableString", "TeletexString", "T61String", "VideotexString",
   "IA5String", "GraphicString", "VisibleString", "GeneralString", "UniversalString", "BMPString"]

def timeTypes : List String := ["UTCTime", "GeneralizedTime"]

def tagging : List String :=
  ["UNIVERSAL", "APPLICATION", "PRIVATE", "CONTEXT", "EXPLICIT", "IMPLICIT", "AUTOMATIC", "TAGS"]

def modules : List String := ["DEFINITIONS", "BEGIN", "END", "EXPORTS", "IMPORTS", "FROM"]

def constraints : List String :=
  ["SIZE", "WITH", "COMPONENT", "COMPONENTS", "PRESENT", "ABSENT", "OPTIONAL", "DEFAULT",
   "INCLUDES", "PATTERN"]

def setOperators : List String := ["UNION", "INTERSECTION", "EXCEPT", "ALL"]

def values : List String := ["TRUE", "FALSE", "PLUS-INFINITY", "MINUS-INFINITY", "MIN", "MAX"]

def objectClasses : List String :=
  ["CLASS", "TYPE-IDENTIFIER", "ABSTRACT-SYNTAX", "INSTANCE", "SYNTAX", "UNIQUE", "CONSTRAINED",
   "CHARACTER", "PDV", "EXTERNAL", "BY", "OF", "IDENTIFIER"]

def all : List String :=
  types ++ stringTypes ++ timeTypes ++ tagging ++ modules ++ constraints ++ setOperators ++
    values ++ objectClasses

end Reserved

def isReserved (word : Text) : Bool :=
  Reserved.all.any fun keyword => Text.toCapitals word = Text.toCapitals keyword.toList

end AsnLayout
