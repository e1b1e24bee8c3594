import IppCode.Fault

/-!
# Characters of texts

Texts as sequences of Unicode scalar values: reading and replacing one of them,
and going between a character and its code.
-/

namespace IppCode.Characters

/-! ## Codes -/

/-- The unsigned integer of 32 bits that an integer is equal to, if there is one. -/
def word? (n : Int64) : Option UInt32 :=
  (n.toInt.toNat?.filter (· < UInt32.size)).map UInt32.ofNat

/-- The character that a word is the code of; surrogates and what is behind the last code
have none. -/
def ofWord? (u : UInt32) : Option Char :=
  if h : u.isValidChar then some ⟨u, h⟩ else none

/-- The character with a code. -/
def ofCode (code : Int64) : Except StringError Char :=
  match (word? code).bind ofWord? with
  | some c => .ok c
  | none => .error (.codepoint code.toInt)

/-- The code of a character. -/
def code (c : Char) : Int64 :=
  Int64.ofInt c.toNat

/-! ## Indices -/

/-- The number of characters, if it fits an integer. -/
def length? (s : String) : Option Int64 :=
  int64? s.length

/-- The place that an index names among a number of characters. -/
def place (i : Int64) (length : Nat) : Except StringError Nat :=
  match i.toInt.toNat?.filter (· < length) with
  | some k => .ok k
  | none => .error (.outOfBounds i.toInt length)

/-- The code of the character at an index. -/
def codeAt (s : String) (i : Int64) : Except StringError Int64 :=
  match place i s.length with
  | .error e => .error e
  | .ok k =>
    match s.toList[k]? with
    | none => .error (.noCharacter i.toInt)
    | some c => .ok (code c)

/-- The text from an index on, cut off behind its first character. -/
def textAt (s : String) (i : Int64) : Except StringError String :=
  match place i s.length with
  | .error e => .error e
  | .ok k => .ok (String.ofList ((s.toList.drop k).take 1))

/-- The text with the character at an index replaced by the first one of another
text.  The index is judged before the replacement. -/
def set (s : String) (i : Int64) (replacement : String) : Except StringError String :=
  match place i s.length with
  | .error e => .error e
  | .ok k =>
    match replacement.toList.head? with
    | none => .error .emptyReplacement
    | some new =>
      .ok (String.ofList (s.toList.mapIdx fun position c => if position = k then new else c))

end IppCode.Characters
