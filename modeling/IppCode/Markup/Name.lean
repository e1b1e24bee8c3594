import IppCode.Markup.Scanner

/-!
# Names in documents

Elements and attributes have names that may be qualified: a qualifier, a colon and
the name proper.  An empty qualifier is the same as none.
-/

namespace IppCode.Markup

/-- A name and its qualifier, which is empty for a name without one. -/
structure QName where
  qualifier : String
  name : String
  deriving DecidableEq

/-- Whether characters begin as a name does. -/
def beginsName : List Char → Bool
  | [] => false
  | c :: _ => isNameStart c

/-- The name that characters between two ends of a name make up. -/
def QName.ofChars? (cs : List Char) : Option QName :=
  match cs.takeWhile (· != ':'), cs.dropWhile (· != ':') with
  | name, [] => if beginsName name then some ⟨"", String.ofList name⟩ else none
  | qualifier, _ :: name =>
    if (qualifier.isEmpty || beginsName qualifier) && beginsName name && !name.contains ':' then
      some ⟨String.ofList qualifier, String.ofList name⟩
    else
      none

namespace Scanner

/-- Reads a name as a whole, colons included. -/
def name : Scanner (List Char) := do
  let cs ← spanning isNameChar
  require (beginsName cs)
  return cs

/-- Reads a name that may be qualified. -/
def qname : Scanner QName := fun s =>
  (QName.ofChars? (s.takeWhile isNameChar)).map fun q => (q, s.dropWhile isNameChar)

theorem nonGrowing_name : NonGrowing name :=
  (nonGrowing_spanning _).bind fun _ => (nonGrowing_require _).bind fun _ => nonGrowing_pure _

theorem nonGrowing_qname : NonGrowing qname := by
  intro s q rest h
  obtain ⟨q', -, heq⟩ := Option.map_eq_some_iff.1 h
  cases heq
  exact (List.dropWhile_suffix _).length_le

end Scanner

end IppCode.Markup
