import IppCode.Text.Ascii

/-!
# Types of values

The four types of the language and their names.  Names are read regardless of the
case of their letters and written in lower case.
-/

namespace IppCode

/-- The type of a value. -/
inductive ValueType where
  | int
  | string
  | bool
  | nil
  deriving DecidableEq

namespace ValueType

/-- The name a type is written with. -/
def name : ValueType → String
  | int => "int"
  | string => "string"
  | bool => "bool"
  | nil => "nil"

/-- All types. -/
def all : List ValueType :=
  [int, string, bool, nil]

/-- The type that a name stands for. -/
def ofName? (s : String) : Option ValueType :=
  all.find? fun type => Text.sameLetters type.name s

/-- What is reported of a name that stands for no type. -/
def unknownMessage (s : String) : String :=
  "unknown type `" ++ s ++ "`"

end ValueType

end IppCode
