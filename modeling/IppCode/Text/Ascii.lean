/-!
# Letters regardless of case

Keywords are compared with the case of the letters `A` to `Z` ignored.  Letters
outside ASCII keep their case: they never equal one another across it.
-/

namespace IppCode.Text

/-- The text with the letters `A` to `Z` in lower case. -/
def lower (s : String) : String :=
  String.ofList (s.toList.map Char.toLower)

/-- Whether two texts agree once the case of ASCII letters is ignored. -/
def sameLetters (s t : String) : Bool :=
  s.toList.map Char.toLower == t.toList.map Char.toLower

end IppCode.Text
