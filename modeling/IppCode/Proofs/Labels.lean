import Mathlib.Data.List.Induction
import IppCode.Proofs.Constants

/-!
# The pass over the labels

`collectLabels` walks over a program once.  It stops at the first instruction that
does not fit or declares a label anew, and otherwise ends with a table of labels.

* `Violates is p` says, without the pass, that something is wrong at position `p`, and
  `Diagnosis is p i e` what is to be reported of it;
* `Table.Indexes` is the invariant of the pass: the table finds exactly the labels
  declared so far, each at the position of its declaration;
* `collectLabels_of_clean`: a program without violations is walked to its end;
* `collectLabels_of_violation`: otherwise the first violation is reported, whatever
  stands behind it.

Both rest on `collectLabels_append`, which cuts the pass at any position, so that the
part before the position is judged by itself.
-/

namespace IppCode

/-- The instruction that declares a label. -/
def declaration (name : String) : Instruction :=
  ⟨.label, [.label name]⟩

theorem declaration_injective {name other : String} (h : declaration name = declaration other) :
    name = other := by
  simpa [declaration] using h

namespace Instruction

variable {i : Instruction} {name : String}

/-- An instruction that may continue at a label. -/
def Targets (i : Instruction) (name : String) : Prop :=
  i.opcode ∈ [.call, .jump, .jumpIfEq, .jumpIfNeq] ∧ i.operands.head? = some (.label name)

theorem targetLabel?_eq_some_iff : i.targetLabel? = some name ↔ i.Targets name := by
  obtain ⟨opcode, operands⟩ := i
  have htargets : opcode.targetsLabel = true ↔ opcode ∈ [.call, .jump, .jumpIfEq, .jumpIfNeq] := by
    cases opcode <;> decide
  unfold targetLabel? Targets
  split
  · rename_i other rest hoperands
    rw [← htargets, hoperands]
    split <;> simp_all
  · rename_i hoperands
    refine iff_of_false (by simp) ?_
    rintro ⟨-, hhead⟩
    obtain ⟨rest, hrest⟩ := List.head?_eq_some_iff.1 hhead
    exact hoperands name rest hrest

/-- What fits and declares a label is the declaration of that label and nothing more. -/
theorem declaredLabel?_eq_some_iff (hfits : i.Fits) :
    i.declaredLabel? = some name ↔ i = declaration name := by
  constructor
  · intro h
    unfold declaredLabel? at h
    split at h
    · rename_i other rest hopcode hoperands
      cases h
      have hlength : i.operands.length = 1 := by rw [← hfits.length_eq, hopcode]; rfl
      have hrest : rest = [] := by simpa [hoperands] using hlength
      obtain ⟨opcode, operands⟩ := i
      rw [declaration, Instruction.mk.injEq]
      exact ⟨hopcode, hrest ▸ hoperands⟩
    · cases h
  · rintro rfl
    rfl

end Instruction

/-! ## Violations -/

/-- Something is wrong at a position: the instruction there does not fit, or it declares
a label that is declared before it. -/
def Violates (is : List Instruction) (p : Nat) : Prop :=
  ∃ i, is[p]? = some i ∧
    (¬ i.Fits ∨ ¬ i.ConstantsFit ∨
      ∃ name, i = declaration name ∧ ∃ q < p, is[q]? = some (declaration name))

/-- The error of the instruction at a position: that of its shape, else that of its
constants, else that of a label declared twice, with the position of the only
declaration before. -/
inductive Diagnosis (is : List Instruction) (p : Nat) (i : Instruction) : ExecError → Prop
  | shape {e : ExecError} (h : i.ShapeError e) : Diagnosis is p i e
  | constants {e : ExecError} (hfits : i.Fits) (h : i.ConstantError e) : Diagnosis is p i e
  | duplicate {name : String} {first : Nat} (hfits : i.Fits) (hconstants : i.ConstantsFit)
      (hlabel : i = declaration name) (hlt : first < p)
      (hfirst : is[first]? = some (declaration name))
      (honly : ∀ q < p, is[q]? = some (declaration name) → q = first) :
      Diagnosis is p i (.duplicateLabel name first)

/-- Whether a position is violated depends on the instructions up to it only. -/
theorem violates_append {is : List Instruction} (more : List Instruction) {p : Nat}
    (hp : p < is.length) : Violates (is ++ more) p ↔ Violates is p := by
  unfold Violates
  rw [List.getElem?_append_left hp]
  refine exists_congr fun i => and_congr_right fun _ => or_congr_right (or_congr_right ?_)
  refine exists_congr fun name => and_congr_right fun _ => exists_congr fun q => ?_
  refine and_congr_right fun hq => ?_
  rw [List.getElem?_append_left (Nat.lt_trans hq hp)]

theorem Violates.lt_length {is : List Instruction} {p : Nat} (h : Violates is p) :
    p < is.length := by
  obtain ⟨i, hi, -⟩ := h
  exact (List.getElem?_eq_some_iff.1 hi).1

/-- The table finds exactly the declared labels, at the positions of their declarations. -/
def Table.Indexes (labels : Table Nat) (is : List Instruction) : Prop :=
  ∀ name p, labels.find? name = some p ↔ is[p]? = some (declaration name)

theorem indexes_empty : (∅ : Table Nat).Indexes [] := by
  intro name p
  simp

namespace Table.Indexes

variable {labels : Table Nat} {is : List Instruction} {name : String}

/-- The table tells whether a label is declared. -/
theorem contains_iff (h : labels.Indexes is) :
    labels.contains name = true ↔ declaration name ∈ is := by
  rw [Table.contains, Option.isSome_iff_exists, List.mem_iff_getElem?]
  exact exists_congr fun p => h name p

theorem find?_eq_none_iff (h : labels.Indexes is) :
    labels.find? name = none ↔ declaration name ∉ is := by
  rw [← h.contains_iff, Table.contains]
  simp

/-- No label is declared at two positions. -/
theorem unique (h : labels.Indexes is) {p q : Nat} (hp : is[p]? = some (declaration name))
    (hq : is[q]? = some (declaration name)) : p = q :=
  Option.some.inj (((h name p).2 hp).symm.trans ((h name q).2 hq))

/-- Another instruction leaves the table as it is. -/
theorem append_other (h : labels.Indexes is) {i : Instruction} (hi : ∀ name, i ≠ declaration name) :
    labels.Indexes (is ++ [i]) := by
  intro name p
  rw [h name p, List.getElem?_append]
  split
  · rfl
  · rename_i hp
    rw [List.getElem?_eq_none (Nat.le_of_not_lt hp)]
    simp only [reduceCtorEq, false_iff, List.getElem?_singleton]
    split <;> simp [hi name]

/-- A declaration of a new label is entered with its position. -/
theorem append_declaration (h : labels.Indexes is) (hnew : declaration name ∉ is) :
    (labels.insert name is.length).Indexes (is ++ [declaration name]) := by
  intro other p
  rw [Table.find?_insert, List.getElem?_append]
  by_cases hother : other = name
  · -- the name is new, so both sides leave only the position behind the list
    subst hother
    rw [if_pos rfl]
    split
    · rename_i hp
      constructor
      · intro heq
        cases heq
        exact absurd hp (Nat.lt_irrefl _)
      · intro hmem
        exact absurd (List.mem_of_getElem? hmem) hnew
    · rename_i hp
      rw [List.getElem?_singleton]
      constructor
      · intro heq
        cases heq
        rw [Nat.sub_self, if_pos rfl]
      · intro heq
        split at heq
        · congr 1
          omega
        · cases heq
  · rw [if_neg hother, h other p]
    split
    · rfl
    · rename_i hp
      rw [List.getElem?_eq_none (Nat.le_of_not_lt hp), List.getElem?_singleton]
      refine iff_of_false (by simp) ?_
      split
      · intro heq
        exact hother (declaration_injective (Option.some.inj heq)).symm
      · simp

end Table.Indexes

/-! ## The pass -/

/-- A pass over two lists is a pass over the first and then one over the second. -/
theorem collectLabels_append {first second : List Instruction} {position : Nat}
    {labels after : Table Nat} (h : collectLabels position labels first = .ok after) :
    collectLabels position labels (first ++ second) =
      collectLabels (position + first.length) after second := by
  induction first generalizing position labels with
  | nil =>
      cases h
      rfl
  | cons i rest ih =>
      rw [List.cons_append, collectLabels, List.length_cons, Nat.add_comm rest.length,
        ← Nat.add_assoc]
      rw [collectLabels] at h
      cases hdefect : i.defect? with
      | some e => simp [hdefect] at h
      | none =>
          cases hname : i.declaredLabel? with
          | none =>
              simp only [hdefect, hname] at h ⊢
              exact ih h
          | some name =>
              cases hfind : labels.find? name with
              | some first => simp [hdefect, hname, hfind] at h
              | none =>
                  simp only [hdefect, hname, hfind] at h ⊢
                  exact ih h

section Step

variable {before rest : List Instruction} {labels : Table Nat} {i : Instruction}

/-- An instruction without a violation is passed, and the table stays right. -/
theorem collectLabels_singleton (hlabels : labels.Indexes before)
    (h : ¬ Violates (before ++ [i]) before.length) :
    ∃ after, collectLabels before.length labels [i] = .ok after ∧
      after.Indexes (before ++ [i]) := by
  have hi : (before ++ [i])[before.length]? = some i := by simp
  have hfits : i.Fits := by
    by_contra hnot
    exact h ⟨i, hi, .inl hnot⟩
  have hconstants : i.ConstantsFit := by
    by_contra hnot
    exact h ⟨i, hi, .inr (.inl hnot)⟩
  have hdefect : i.defect? = none := Instruction.defect?_eq_none_iff.2 ⟨hfits, hconstants⟩
  cases hname : i.declaredLabel? with
  | none =>
      refine ⟨labels, by simp [collectLabels, hdefect, hname], hlabels.append_other ?_⟩
      rintro name rfl
      cases hname
  | some name =>
      have hlabel := (Instruction.declaredLabel?_eq_some_iff hfits).1 hname
      have hnew : declaration name ∉ before := by
        intro hmem
        obtain ⟨q, hq, hget⟩ := List.mem_iff_getElem.1 hmem
        refine h ⟨i, hi, .inr (.inr ⟨name, hlabel, q, hq, ?_⟩)⟩
        rw [List.getElem?_append_left hq, List.getElem?_eq_getElem hq, hget]
      have hfind : labels.find? name = none := hlabels.find?_eq_none_iff.2 hnew
      refine ⟨labels.insert name before.length, by simp [collectLabels, hdefect, hname, hfind], ?_⟩
      rw [hlabel]
      exact hlabels.append_declaration hnew

/-- At a violation the pass stops with its diagnosis. -/
theorem collectLabels_cons_of_violation (hlabels : labels.Indexes before)
    (h : Violates (before ++ i :: rest) before.length) :
    ∃ e, Diagnosis (before ++ i :: rest) before.length i e ∧ ∀ more,
      collectLabels before.length labels (i :: more) =
        .error ⟨e, some (before.length, i.opcode)⟩ := by
  obtain ⟨i', hi, h⟩ := h
  have hsame : i = i' := by simpa using hi
  subst hsame
  cases hdefect : i.defect? with
  | some e =>
      refine ⟨e, ?_, fun more => by simp [collectLabels, hdefect]⟩
      rcases Instruction.defect?_eq_some_iff.1 hdefect with hshape | ⟨hfits, hconstants⟩
      · exact .shape hshape
      · exact .constants hfits hconstants
  | none =>
      -- the instruction is right by itself, so its label is declared before
      obtain ⟨hfits, hconstants⟩ := Instruction.defect?_eq_none_iff.1 hdefect
      rcases h with hnot | hnot | ⟨name, hlabel, q, hq, hget⟩
      · exact absurd hfits hnot
      · exact absurd hconstants hnot
      · have hname := (Instruction.declaredLabel?_eq_some_iff hfits).2 hlabel
        have hfind : labels.find? name = some q := by
          rw [List.getElem?_append_left hq] at hget
          exact (hlabels name q).2 hget
        refine ⟨.duplicateLabel name q, .duplicate hfits hconstants hlabel hq hget ?_,
          fun more => by simp [collectLabels, hdefect, hname, hfind]⟩
        intro p hp hdeclared
        rw [List.getElem?_append_left hp] at hdeclared
        rw [List.getElem?_append_left hq] at hget
        exact hlabels.unique hdeclared hget

end Step

/-- A program without violations is passed to its end. -/
theorem collectLabels_of_clean {is : List Instruction} (h : ∀ p, ¬ Violates is p) :
    ∃ labels, collectLabels 0 ∅ is = .ok labels ∧ labels.Indexes is := by
  -- from the end, since the table at a position is that of the instructions before it
  induction is using List.reverseRecOn with
  | nil => exact ⟨∅, rfl, indexes_empty⟩
  | append_singleton before i ih =>
      have hbefore : ∀ p, ¬ Violates before p := fun p hp =>
        h p ((violates_append [i] hp.lt_length).2 hp)
      obtain ⟨labels, hpass, hlabels⟩ := ih hbefore
      obtain ⟨after, hstep, hafter⟩ := collectLabels_singleton hlabels (h before.length)
      refine ⟨after, ?_, hafter⟩
      rw [collectLabels_append hpass, Nat.zero_add]
      exact hstep

/-- The first violation is reported, whatever stands behind it. -/
theorem collectLabels_of_violation {is : List Instruction} {p : Nat} (hp : Violates is p)
    (hfirst : ∀ q < p, ¬ Violates is q) :
    ∃ i e, is[p]? = some i ∧ Diagnosis is p i e ∧ ∀ other : List Instruction,
      other.take (p + 1) = is.take (p + 1) →
        collectLabels 0 ∅ other = .error ⟨e, some (p, i.opcode)⟩ := by
  obtain ⟨before, i, rest, rfl, rfl⟩ : ∃ before i rest, before ++ i :: rest = is ∧
      before.length = p := by
    have hlt := hp.lt_length
    exact ⟨is.take p, is[p], is.drop (p + 1), by simp, by rw [List.length_take]; omega⟩
  have hclean : ∀ q, ¬ Violates before q := fun q hq =>
    hfirst q hq.lt_length ((violates_append _ hq.lt_length).2 hq)
  obtain ⟨labels, hpass, hlabels⟩ := collectLabels_of_clean hclean
  obtain ⟨e, hdiagnosis, hstop⟩ := collectLabels_cons_of_violation hlabels hp
  refine ⟨i, e, by simp, hdiagnosis, fun other hother => ?_⟩
  -- the other program begins alike, so its pass comes to the same instruction
  have hother' : other = before ++ i :: other.drop (before.length + 1) := by
    conv_lhs => rw [← List.take_append_drop (before.length + 1) other, hother]
    simp [List.take_append, List.take_of_length_le]
  rw [hother', collectLabels_append hpass, Nat.zero_add]
  exact hstop _

end IppCode
