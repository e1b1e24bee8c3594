import IppCode.Markup.Name
import IppCode.Markup.Node

/-!
# Namespaces

Qualifiers stand for the addresses of namespaces.  They are declared by attributes
of an element and hold for it and for all within it.
-/

namespace IppCode.Markup

/-- The address of a reserved namespace, by the steps of its path. -/
def reservedAddress (steps : List String) : String :=
  "/".intercalate (["http:", "", "www.w3.org"] ++ steps)

/-- The address that the qualifier `xml` stands for. -/
def xmlAddress : String :=
  reservedAddress ["XML", "1998", "namespace"]

/-- The address that belongs to declarations. -/
def declarationAddress : String :=
  reservedAddress ["2000", "xmlns", ""]

/-- The qualifiers that hold for an element and their addresses.  The address for
names without qualifier stands under the empty one; an earlier entry hides a later
one of the same qualifier. -/
abbrev Scope := List (String × String)

/-- Divides the attributes of an element into the declarations of qualifiers, added
to those read before, and the others.  The qualifier `xml` can only be declared for
its own address, which no other can have, and none for that of declarations; no
qualifier is declared twice. -/
def declarations? (scope : Scope) :
    List (QName × String) → Option (Scope × List (QName × String))
  | [] => some (scope, [])
  | (q, v) :: rest =>
    if q.qualifier = "xmlns" then
      if v = declarationAddress ∨ (q.name = "xml") ≠ (v = xmlAddress) then none
      else if (scope.lookup q.name).isSome then none
      else if q.name = "xml" then declarations? scope rest
      else declarations? (scope ++ [(q.name, v)]) rest
    else if q.name = "xmlns" then
      if v = declarationAddress ∨ v = xmlAddress then none
      else declarations? (scope ++ [("", v)]) rest
    else
      (declarations? scope rest).map fun (scope, others) => (scope, (q, v) :: others)

/-- The attribute with its qualifier replaced by an address.  The qualifier `xml`
needs no declaration. -/
def Attribute.resolve? (scope : Scope) (q : QName) (v : String) : Option Attribute :=
  if q.qualifier = "" then some ⟨none, q.name, v⟩
  else if q.qualifier = "xml" then some ⟨some xmlAddress, q.name, v⟩
  else (scope.lookup q.qualifier).map fun address => ⟨some address, q.name, v⟩

/-- The attributes with their qualifiers replaced by addresses.  No two of them
agree in name and address. -/
def Attribute.resolveAll? (scope : Scope) : List (QName × String) → Option (List Attribute)
  | [] => some []
  | (q, v) :: rest =>
    match Attribute.resolve? scope q v, resolveAll? scope rest with
    | some a, some others =>
      if others.any fun b => b.space = a.space ∧ b.name = a.name then none else some (a :: others)
    | _, _ => none

/-- Whether the name of an element is one that can be used among the qualifiers that
hold for it. -/
def isKnown (scope : Scope) (q : QName) : Bool :=
  q.qualifier == "" || (q.qualifier != "xmlns" && (scope.lookup q.qualifier).isSome)

/-- What the attributes in the tag of an element amount to: the qualifiers that hold
for it, and its attributes proper. -/
def enter? (outer : Scope) (q : QName) (attributes : List (QName × String)) :
    Option (Scope × List Attribute) := do
  let (own, others) ← declarations? [] attributes
  let scope := own ++ outer
  if isKnown scope q then
    let resolved ← Attribute.resolveAll? scope others
    return (scope, resolved)
  else
    none

end IppCode.Markup
