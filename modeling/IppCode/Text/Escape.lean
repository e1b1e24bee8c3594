import IppCode.Text.Blank

/-!
# Escaped text

In string constants a backslash followed by three decimal digits stands for the
character with that code.  `decode` reads such a text in one pass from the left,
so a backslash that an escape produces is not read again; `encode` writes a text
so that no blank, control character, `#` or backslash below code 1000 remains.
-/

namespace IppCode.Text.Escape

/-- The number written by three decimal digits, if all three are digits. -/
def code? (a b c : Char) : Option Nat :=
  if a.isDigit && b.isDigit && c.isDigit then
    some ((a.toNat - 48) * 100 + (b.toNat - 48) * 10 + (c.toNat - 48))
  else
    none

/-- Replaces each escape by its character and keeps every other character. -/
def decode : List Char → List Char
  | '\\' :: a :: b :: c :: tail =>
    match code? a b c with
    | some code => Char.ofNat code :: decode tail
    | none => '\\' :: decode (a :: b :: c :: tail)
  | c :: tail => c :: decode tail
  | [] => []

/-- Whether a character is in the category Cc. -/
def isControl (c : Char) : Bool :=
  c.toNat < 0x20 || (0x7F ≤ c.toNat && c.toNat ≤ 0x9F)

/-- Whether `encode` writes a character as an escape.  A code of more than three
digits has no escape, so such a character is kept. -/
def isEscaped (c : Char) : Bool :=
  c.toNat < 1000 && (isBlank c || isControl c || c == '#' || c == '\\')

/-- The decimal digit that a number below ten is written with. -/
def digit (n : Nat) : Char :=
  Char.ofNat (48 + n)

/-- The written form of one character. -/
def encodeChar (c : Char) : List Char :=
  if isEscaped c then
    ['\\', digit (c.toNat / 100), digit (c.toNat / 10 % 10), digit (c.toNat % 10)]
  else
    [c]

/-- Writes a text with every character that needs it as an escape. -/
def encode (cs : List Char) : List Char :=
  cs.flatMap encodeChar

end IppCode.Text.Escape
