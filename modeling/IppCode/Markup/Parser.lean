import IppCode.Markup.Document

/-!
# Parsers

A parser makes the element of a document out of its text, or says why it cannot.  All
that is asked of its elements is that no two attributes of one agree in name and
namespace.  `parser` is the one of this library, and there may be others, with
other words for what is wrong.
-/

namespace IppCode.Markup

/-- Two attributes differ in their name or in its namespace. -/
def Attribute.Differ (a b : Attribute) : Prop :=
  ¬ (a.space = b.space ∧ a.name = b.name)

instance : Std.Symm Attribute.Differ :=
  ⟨fun _ _ h heq => h ⟨heq.1.symm, heq.2.symm⟩⟩

/-! ## The attributes of a document -/

theorem Attribute.pairwise_resolveAll? {scope : Scope} {qs : List (QName × String)}
    {attributes : List Attribute} (h : resolveAll? scope qs = some attributes) :
    attributes.Pairwise Attribute.Differ := by
  induction qs generalizing attributes with
  | nil =>
      cases h
      exact .nil
  | cons q qs ih =>
      obtain ⟨q, v⟩ := q
      rw [resolveAll?] at h
      split at h
      · rename_i a others ha hothers
        split at h
        · cases h
        · rename_i hany
          cases h
          refine .cons (fun b hb heq => hany ?_) (ih hothers)
          rw [List.any_eq_true]
          exact ⟨b, hb, by simpa using ⟨heq.1.symm, heq.2.symm⟩⟩
      · cases h

theorem pairwise_enter? {outer scope : Scope} {q : QName} {qs : List (QName × String)}
    {attributes : List Attribute} (h : enter? outer q qs = some (scope, attributes)) :
    attributes.Pairwise Attribute.Differ := by
  simp only [enter?, Option.bind_eq_bind, Option.bind_eq_some_iff] at h
  obtain ⟨⟨own, others⟩, -, h⟩ := h
  split at h
  · obtain ⟨resolved, hresolved, hpure⟩ := Option.bind_eq_some_iff.1 h
    cases hpure
    exact Attribute.pairwise_resolveAll? hresolved
  · cases h

/-- The outermost of the elements that are open. -/
def outermost (inner : OpenElement) : List OpenElement → OpenElement
  | [] => inner
  | next :: outer => outermost next outer

theorem attributes_outermost_add (inner : OpenElement) (child : Node) (outer : List OpenElement) :
    (outermost (inner.add child) outer).attributes = (outermost inner outer).attributes := by
  cases outer with
  | cons next outer => rfl
  | nil =>
      unfold OpenElement.add
      split <;> rfl

/-- What is read within elements leaves the attributes of the outermost one alone. -/
theorem attributes_of_content? {inner : OpenElement} {outer : List OpenElement} {s rest : List Char}
    {root : Element} (h : content? inner outer s = some (root, rest)) :
    root.attributes = (outermost inner outer).attributes := by
  fun_induction content? inner outer s with
  | case1 | case5 | case10 => cases h
  | case2 | case3 | case4 | case6 =>
      rename_i ih
      rw [ih h, attributes_outermost_add]
  | case7 =>
      rename_i ih
      exact ih h
  | case8 =>
      cases h
      rfl
  | case9 =>
      rename_i ih
      rw [ih h, attributes_outermost_add]
      rfl

/-- No two attributes of the element of a document agree in name and namespace. -/
theorem pairwise_document? {source : String} {root : Element} (h : document? source = some root) :
    root.attributes.Pairwise Attribute.Differ := by
  simp only [document?, Option.bind_eq_bind, Option.bind_eq_some_iff] at h
  obtain ⟨start, -, ⟨element, rest⟩, helement, hrest⟩ := h
  obtain rfl : element = root := by
    split at hrest
    · exact Option.some.inj hrest
    · cases hrest
  unfold element? at helement
  split at helement
  · split at helement
    · cases helement
    · rename_i henter
      split at helement
      · cases helement
        exact pairwise_enter? henter
      · rw [attributes_of_content? helement]
        exact pairwise_enter? henter
  · cases helement

/-! ## Parsers -/

/-- A way to read documents: the outermost element, or the reason why there is none. -/
structure Parser where
  read : String → Except String Element
  differ : ∀ {s : String} {root : Element}, read s = .ok root →
    root.attributes.Pairwise Attribute.Differ

/-- The element of a document, if this library finds one. -/
def readDocument (s : String) : Except String Element :=
  match document? s with
  | some root => .ok root
  | none => .error "the text is not one element with its tags in order"

theorem readDocument_eq_ok_iff {s : String} {root : Element} :
    readDocument s = .ok root ↔ document? s = some root := by
  unfold readDocument
  cases document? s <;> simp

/-- The parser of this library. -/
def parser : Parser where
  read := readDocument
  differ h := pairwise_document? (readDocument_eq_ok_iff.1 h)

end IppCode.Markup
