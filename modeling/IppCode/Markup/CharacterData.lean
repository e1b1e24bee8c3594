import IppCode.Markup.Character
import IppCode.Text.Numeral

/-!
# Character data

The text between tags and in attribute values.  A character is written as itself
or by a reference, and line ends are made uniform: only those written as themselves
are.
-/

namespace IppCode.Markup

/-- The character with a number.  A number of 32 bits that is no Unicode scalar
value stands for the replacement character. -/
def charOfNumber? (n : Nat) : Option Char :=
  if n < UInt32.size then
    let c := if n.isValidChar then Char.ofNat n else Char.ofNat 0xFFFD
    if isAllowed c then some c else none
  else
    none

/-- The character that a reference stands for, given what is between its ampersand
and its semicolon. -/
def referenced? : List Char → Option Char
  | '#' :: 'x' :: digits => Text.Numeral.digits? 16 digits >>= charOfNumber?
  | '#' :: digits => Text.Numeral.digits? 10 digits >>= charOfNumber?
  | ['l', 't'] => some '<'
  | ['g', 't'] => some '>'
  | ['a', 'm', 'p'] => some '&'
  | ['q', 'u', 'o', 't'] => some '"'
  | ['a', 'p', 'o', 's'] => some '\''
  | _ => none

/-- A character of a text and how it is written. -/
inductive Piece where
  | literal (c : Char)
  | reference (c : Char)
  deriving DecidableEq

/-- The pieces of a text, when `pending` holds what has been read of a reference,
latest first. -/
def piecesFrom? : (pending : Option (List Char)) → List Char → Option (List Piece)
  | none, [] => some []
  | some _, [] => none
  | none, c :: rest =>
    if c = '&' then piecesFrom? (some []) rest
    else (piecesFrom? none rest).map (.literal c :: ·)
  | some body, c :: rest =>
    if c = ';' then
      match referenced? body.reverse with
      | none => none
      | some d => (piecesFrom? none rest).map (.reference d :: ·)
    else
      piecesFrom? (some (c :: body)) rest

/-- The characters of a text between tags.  A literal carriage return, and a line
feed that follows it, are read as one line feed.  It is kept when a reference
follows it, and when it ends the text right behind a reference. -/
def joinLines (behindReference : Bool) : List Piece → List Char
  | [] => []
  | .literal '\r' :: .literal '\n' :: rest => '\n' :: joinLines false rest
  | .literal '\r' :: .literal c :: rest => '\n' :: joinLines false (.literal c :: rest)
  | .literal '\r' :: .reference c :: rest => '\r' :: joinLines false (.reference c :: rest)
  | [.literal '\r'] => [if behindReference then '\r' else '\n']
  | .literal c :: rest => c :: joinLines false rest
  | .reference c :: rest => c :: joinLines true rest

/-- The characters of an attribute value.  A literal tab or line end is read as a
space. -/
def joinValue : List Piece → List Char
  | [] => []
  | .literal '\r' :: .literal '\n' :: rest => ' ' :: joinValue rest
  | .literal c :: rest => (if isSpace c then ' ' else c) :: joinValue rest
  | .reference c :: rest => c :: joinValue rest

/-- The text that characters between tags stand for. -/
def text? (cs : List Char) : Option String :=
  (piecesFrom? none cs).map fun pieces => String.ofList (joinLines false pieces)

/-- The text of a section in which nothing is a reference. -/
def sectionText (cs : List Char) : String :=
  String.ofList (joinLines false (cs.map .literal))

/-- The text that the characters of an attribute value stand for. -/
def value? (cs : List Char) : Option String :=
  (piecesFrom? none cs).map fun pieces => String.ofList (joinValue pieces)

end IppCode.Markup
