import IppCode.Markup.Namespace
import IppCode.Markup.Token

/-!
# Documents

A document is one element, with comments and processing instructions before and
behind it and a declaration at the very start.  Document types are refused.

The element is read with a stack of the elements that are open: a tag that begins
an element opens one, a tag that ends the innermost one makes it a child of the next.
-/

namespace IppCode.Markup

/-- An element whose end has not been read: its name and scope, and its children so
far, latest first. -/
structure OpenElement where
  name : QName
  scope : Scope
  attributes : List Attribute
  children : List Node

namespace OpenElement

/-- The element with a further child.  A text behind a text is joined to it. -/
def add (e : OpenElement) (child : Node) : OpenElement :=
  match child, e.children with
  | .text s, .text before :: rest => { e with children := .text (before ++ s) :: rest }
  | child, children => { e with children := child :: children }

/-- The element once its end has been read. -/
def close (e : OpenElement) : Element :=
  ⟨e.name.name, e.attributes, e.children.reverse⟩

end OpenElement

/-- Reads what is left of an element and of those around it, up to the end of the
outermost one. -/
def content? (inner : OpenElement) (outer : List OpenElement) (s : List Char) :
    Option (Element × List Char) :=
  match h : Token.next? s with
  | none => none
  | some (token, rest) =>
    have := Token.length_lt_of_next? h
    match token with
    | .text t => content? (inner.add (.text t)) outer rest
    | .comment t => content? (inner.add (.comment t)) outer rest
    | .instruction target t => content? (inner.add (.instruction target t)) outer rest
    | .start q attributes empty =>
      match enter? inner.scope q attributes with
      | none => none
      | some (scope, attributes) =>
        if empty then content? (inner.add (.element q.name attributes [])) outer rest
        else content? ⟨q, scope, attributes, []⟩ (inner :: outer) rest
    | .finish q =>
      if q = inner.name then
        match outer with
        | [] => some (inner.close, rest)
        | next :: outer => content? (next.add inner.close.toNode) outer rest
      else
        none
termination_by s.length

/-- Reads an element from its first character on. -/
def element? (s : List Char) : Option (Element × List Char) :=
  match Token.next? s with
  | some (.start q attributes empty, rest) =>
    match enter? [] q attributes with
    | none => none
    | some (scope, attributes) =>
      if empty then some (⟨q.name, attributes, []⟩, rest)
      else content? ⟨q, scope, attributes, []⟩ [] rest
  | _ => none

/-- Skips blanks, comments and processing instructions. -/
def skipMisc (s : List Char) : List Char :=
  let t := s.dropWhile isSpace
  match h : Token.next? t with
  | none => t
  | some (token, rest) =>
    have : rest.length < s.length :=
      Nat.lt_of_lt_of_le (Token.length_lt_of_next? h) (List.dropWhile_suffix _).length_le
    match token with
    | .comment _ => skipMisc rest
    | .instruction .. => skipMisc rest
    | _ => t
termination_by s.length

/-! ## The declaration -/

namespace Scanner

/-- Reads the blanks between the parts of a declaration; there are none at its end. -/
def divider : Scanner Unit := fun s =>
  match s with
  | [] => some ((), s)
  | c :: _ =>
    if isSpace c || ['?', '>'].isPrefixOf s then spaces s else none

/-- Reads a part of a declaration whose name begins with a text, and the blanks behind
it. -/
def part (text : List Char) : Scanner Unit := fun s =>
  if text.isPrefixOf s then (do let _ ← namedValue; divider) s else none

/-- Reads a part of a declaration that may be missing. -/
def optionalPart (text : String) : Scanner Unit := fun s =>
  if text.toList.isPrefixOf s then part text.toList s else some ((), s)

/-- Reads a declaration behind its name: a version, and then perhaps an encoding and
whether the document stands alone. -/
def declaration : Scanner Unit := do
  spaces
  part "version".toList
  optionalPart "encoding"
  optionalPart "standalone"
  spaces
  exactly ['?', '>']

end Scanner

/-- Skips a byte order mark. -/
def skipMark : List Char → List Char
  | c :: rest => if c.toNat = 0xFEFF then rest else c :: rest
  | [] => []

/-- Reads a declaration if there is one. -/
def skipDeclaration? (s : List Char) : Option (List Char) :=
  if beginsDeclaration s then (Scanner.declaration (s.drop 5)).map Prod.snd else some s

/-- The element that a document consists of. -/
def document? (s : String) : Option Element := do
  let start ← skipDeclaration? (skipMark s.toList)
  let (root, rest) ← element? (skipMisc start)
  if (skipMisc rest).isEmpty then return root else none

end IppCode.Markup
