import IppCode.Text.Ascii
import IppCode.Text.Escape
import IppCode.Text.Numeral
import IppCode.ValueType

/-!
# Values and their literals

A value is an integer of 64 bits, a text, a truth value or nil.  A literal is a
type with a text; `Literal.value?` converts it and `Value.literalText` writes a
value back.  Equality is defined between values of one type and with nil,
the order only within one of the other three types.
-/

namespace IppCode

/-- A value of the language. -/
inductive Value where
  | int (n : Int64)
  | str (s : String)
  | bool (b : Bool)
  | nil
  deriving DecidableEq

/-- A constant as it stands in a program: a type and a text not yet converted. -/
structure Literal where
  type : ValueType
  text : String
  deriving DecidableEq

namespace Literal

/-- The value of a literal.  Every text is a string and a truth value, not every
text is an integer, and only one is nil. -/
def value? (l : Literal) : Option Value :=
  match l.type with
  | .int => (Text.Numeral.read? l.text).map .int
  | .string => some (.str (String.ofList (Text.Escape.decode l.text.toList)))
  | .bool => some (.bool (Text.sameLetters l.text "true"))
  | .nil => if l.text = "nil" then some .nil else none

/-- The literal with its type in front. -/
def render (l : Literal) : String :=
  l.type.name ++ "@" ++ l.text

end Literal

namespace Value

/-- The type of a value. -/
def type : Value → ValueType
  | int _ => .int
  | str _ => .string
  | bool _ => .bool
  | nil => .nil

/-- The name of a truth value. -/
def truth (b : Bool) : String :=
  if b then "true" else "false"

/-- The text that a program writes for a value.  Nil is written as nothing. -/
def text : Value → String
  | int n => Text.Numeral.write n.toInt
  | str s => s
  | bool b => truth b
  | nil => ""

/-- A text whose literal has this value. -/
def literalText : Value → String
  | int n => Text.Numeral.write n.toInt
  | str s => String.ofList (Text.Escape.encode s.toList)
  | bool b => truth b
  | nil => "nil"

/-- The literal of a value, with its type in front. -/
def render (v : Value) : String :=
  Literal.render ⟨v.type, v.literalText⟩

/-- Whether two values are equal, if they can be compared for equality: they have
one type, or one of them is nil. -/
def equals? (v w : Value) : Option Bool :=
  if v.type = w.type ∨ v = nil ∨ w = nil then some (decide (v = w)) else none

/-- The order of two values of one type other than nil.  Texts are ordered by the
codes of their characters, a proper beginning first, and false precedes true. -/
def compare? : Value → Value → Option Ordering
  | int n, int m => some (compare n.toInt m.toInt)
  | str s, str t => some (compareOfLessAndEq s t)
  | bool b, bool c => some (compare b c)
  | _, _ => none

end Value

end IppCode
