/-!
# Document trees

The tree of a document: elements with attributes and children, and between them
texts, comments and processing instructions.  Adjacent texts are one node.
-/

namespace IppCode.Markup

/-- An attribute with the address of its namespace; there is none for a name
without qualifier. -/
structure Attribute where
  space : Option String
  name : String
  value : String
  deriving DecidableEq

/-- A node of a document tree. -/
inductive Node where
  | element (name : String) (attributes : List Attribute) (children : List Node)
  | text (s : String)
  | comment (s : String)
  | instruction (target content : String)

/-- An element of a document tree. -/
structure Element where
  name : String
  attributes : List Attribute
  children : List Node

/-- The element that a node is, if it is one. -/
def Node.element? : Node → Option Element
  | .element name attributes children => some ⟨name, attributes, children⟩
  | _ => none

namespace Element

/-- The element as a node. -/
def toNode (e : Element) : Node :=
  .element e.name e.attributes e.children

/-- The elements among the children. -/
def elements (e : Element) : List Element :=
  e.children.filterMap Node.element?

/-- The value of the attribute with a name and no qualifier. -/
def attribute? (e : Element) (name : String) : Option String :=
  (e.attributes.find? fun a => a.space.isNone && a.name == name).map Attribute.value

/-- The text that an element begins with, empty if it begins with none. -/
def leadingText (e : Element) : String :=
  match e.children with
  | .text s :: _ => s
  | _ => ""

end Element

end IppCode.Markup
