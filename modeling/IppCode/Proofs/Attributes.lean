import Mathlib.Data.List.Pairwise
import Mathlib.Data.List.Perm.Subperm
import IppCode.Markup.Parser

/-!
# The attributes of elements

No two attributes of the element of a document agree in name and namespace, so what is looked up
under a name is the only attribute that has it (`Element.attribute?_eq_some_iff`).
-/

namespace IppCode.Markup

namespace Element

variable {e : Element} {name value : String}

theorem attribute?_congr {e' : Element} (h : e'.attributes = e.attributes) (name : String) :
    e'.attribute? name = e.attribute? name := by
  rw [attribute?, h, attribute?]

theorem mem_of_attribute? (h : e.attribute? name = some value) :
    ⟨none, name, value⟩ ∈ e.attributes := by
  obtain ⟨a, hfind, rfl⟩ := Option.map_eq_some_iff.1 h
  have hmem := List.mem_of_find?_eq_some hfind
  have hkey := List.find?_some hfind
  obtain ⟨space, name', value⟩ := a
  simp only [Bool.and_eq_true, Option.isNone_iff_eq_none, beq_iff_eq] at hkey
  obtain ⟨rfl, rfl⟩ := hkey
  exact hmem

/-- Where attributes differ, the one that is looked up is the only one of its name. -/
theorem attribute?_eq_some_iff (hdiffer : e.attributes.Pairwise Attribute.Differ) :
    e.attribute? name = some value ↔ ⟨none, name, value⟩ ∈ e.attributes := by
  refine ⟨mem_of_attribute?, fun hmem => ?_⟩
  cases hfound : e.attribute? name with
  | none =>
      have hnone := List.find?_eq_none.1 (Option.map_eq_none_iff.1 hfound) _ hmem
      simp at hnone
  | some found =>
      have hmem' := mem_of_attribute? hfound
      by_contra hne
      have hattributes : (⟨none, name, value⟩ : Attribute) ≠ ⟨none, name, found⟩ := by
        simpa [eq_comm] using hne
      exact hdiffer.forall hmem hmem' hattributes ⟨rfl, rfl⟩

/-- An element has two attributes of different names and no others. -/
theorem attributes_perm_pair_iff {name' value' : String} (hne : name ≠ name') :
    e.attributes.Perm [⟨none, name, value⟩, ⟨none, name', value'⟩] ↔
      e.attributes.length = 2 ∧ e.attribute? name = some value ∧
        e.attribute? name' = some value' := by
  constructor
  · intro hperm
    have hpair : [(⟨none, name, value⟩ : Attribute), ⟨none, name', value'⟩].Pairwise
        Attribute.Differ := by
      simp [Attribute.Differ, hne]
    have hdiffer := (hperm.pairwise_iff fun h => Std.Symm.symm _ _ h).2 hpair
    refine ⟨hperm.length_eq, (attribute?_eq_some_iff hdiffer).2 (hperm.mem_iff.2 ?_),
      (attribute?_eq_some_iff hdiffer).2 (hperm.mem_iff.2 ?_)⟩ <;> simp
  · rintro ⟨hlength, hfirst, hsecond⟩
    have hnodup : [(⟨none, name, value⟩ : Attribute), ⟨none, name', value'⟩].Nodup := by
      simp [hne]
    have hsub : [⟨none, name, value⟩, ⟨none, name', value'⟩] ⊆ e.attributes := by
      simp [mem_of_attribute? hfirst, mem_of_attribute? hsecond]
    exact ((List.subperm_of_subset hnodup hsub).perm_of_length_le (Nat.le_of_eq hlength)).symm

end Element

end IppCode.Markup
