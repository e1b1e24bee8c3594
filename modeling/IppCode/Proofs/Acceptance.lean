import Mathlib.Data.Nat.Find
import IppCode.Proofs.Labels

/-!
# What the check accepts and what it reports

The check is one pass with early stops, followed by a look at the labels that were
asked for.  Here it is compared with rules for the whole program.

* `Accepted` lists the rules: operands and constants fit, labels are declared once, and
  every label that is continued at is declared, before or behind.
  `check_eq_ok_iff` says that exactly these programs pass, with a table of
  exactly their labels.
* A program that breaks a rule at some position is reported at the first such position
  and with the diagnosis of the instruction there; nothing behind it matters.  If only
  declarations are missing, these are reported together.  `check_error_explained` says
  both.
-/

namespace IppCode

/-- The rules that a program has to obey. -/
structure Accepted (is : List Instruction) : Prop where
  /-- Operands match the signatures in number and kind. -/
  fits : ∀ i ∈ is, i.Fits
  /-- Constants have values that suit their places. -/
  constants : ∀ i ∈ is, i.ConstantsFit
  /-- No label is declared twice. -/
  distinct : ∀ (p q : Nat) (name : String), is[p]? = some (declaration name) →
    is[q]? = some (declaration name) → p = q
  /-- A label that is continued at is declared somewhere. -/
  defined : ∀ i ∈ is, ∀ name, i.Targets name → declaration name ∈ is

/-! ## Labels that are continued at -/

/-- The label `a` is asked for before `b` is for the first time. -/
def AskedBefore (is : List Instruction) (a b : String) : Prop :=
  ∃ (p : Nat) (i : Instruction), is[p]? = some i ∧ i.Targets a ∧
    ∀ q ≤ p, ∀ j, is[q]? = some j → ¬ j.Targets b

/-- The labels that are continued at and not declared: each once, in the order in which
they are first asked for. -/
structure Undeclared (is : List Instruction) (names : List String) : Prop where
  mem_iff : ∀ name, name ∈ names ↔ (∃ i ∈ is, i.Targets name) ∧ declaration name ∉ is
  nodup : names.Nodup
  ordered : names.Pairwise (AskedBefore is)

section Targets

variable {is : List Instruction} {i : Instruction} {name a b : String}

theorem targetLabels_cons_of_none (h : i.targetLabel? = none) :
    targetLabels (i :: is) = targetLabels is := by
  rw [targetLabels, List.filterMap_cons_none h, targetLabels]

theorem targetLabels_cons_of_some (h : i.targetLabel? = some name) :
    targetLabels (i :: is) = name :: (targetLabels is).filter (· != name) := by
  rw [targetLabels, List.filterMap_cons_some h, distinct, targetLabels]

theorem Instruction.Targets.eq (ha : i.Targets a) (hb : i.Targets b) : a = b := by
  have h := ha.2.symm.trans hb.2
  simpa using h

theorem mem_targetLabels : name ∈ targetLabels is ↔ ∃ i ∈ is, i.Targets name := by
  induction is with
  | nil => simp [targetLabels, distinct]
  | cons i is ih =>
      rw [List.exists_mem_cons_iff, ← ih, ← Instruction.targetLabel?_eq_some_iff]
      cases htarget : i.targetLabel? with
      | none => simp [targetLabels_cons_of_none htarget]
      | some other =>
          rw [targetLabels_cons_of_some htarget, List.mem_cons, List.mem_filter]
          by_cases h : name = other
          · simp [h]
          · simp [h, Ne.symm h]

theorem nodup_targetLabels (is : List Instruction) : (targetLabels is).Nodup := by
  induction is with
  | nil => exact List.nodup_nil
  | cons i is ih =>
      cases htarget : i.targetLabel? with
      | none =>
          rw [targetLabels_cons_of_none htarget]
          exact ih
      | some name =>
          rw [targetLabels_cons_of_some htarget, List.nodup_cons]
          exact ⟨by simp, ih.filter _⟩

/-- An instruction in front that does not ask for `b` keeps the order. -/
theorem AskedBefore.cons (h : AskedBefore is a b) (hi : ¬ i.Targets b) :
    AskedBefore (i :: is) a b := by
  obtain ⟨p, j, hj, ha, hb⟩ := h
  refine ⟨p + 1, j, hj, ha, ?_⟩
  rintro (_ | q) hq k hk
  · cases hk
    exact hi
  · exact hb q (Nat.le_of_succ_le_succ hq) k hk

theorem askedBefore_head (ha : i.Targets a) (hne : b ≠ a) : AskedBefore (i :: is) a b := by
  refine ⟨0, i, rfl, ha, ?_⟩
  intro q hq j hj hb
  rw [Nat.le_zero.1 hq] at hj
  cases hj
  exact hne (hb.eq ha)

theorem pairwise_targetLabels (is : List Instruction) :
    (targetLabels is).Pairwise (AskedBefore is) := by
  induction is with
  | nil => exact .nil
  | cons i is ih =>
      cases htarget : i.targetLabel? with
      | none =>
          rw [targetLabels_cons_of_none htarget]
          refine ih.imp fun h => h.cons ?_
          rw [← Instruction.targetLabel?_eq_some_iff, htarget]
          simp
      | some name =>
          have hname := Instruction.targetLabel?_eq_some_iff.1 htarget
          rw [targetLabels_cons_of_some htarget, List.pairwise_cons]
          refine ⟨fun b hb => askedBefore_head hname (by simpa using (List.mem_filter.1 hb).2), ?_⟩
          -- what is left asks for labels other than the first one
          refine (ih.filter _).imp_of_mem fun {a b} _ hb h => h.cons fun hib => ?_
          have hne : b ≠ name := by simpa using (List.mem_filter.1 hb).2
          exact hne (hib.eq hname)

/-- The labels that the table of a program does not hold are the undeclared ones. -/
theorem undeclared_filter {labels : Table Nat} (h : labels.Indexes is) :
    Undeclared is ((targetLabels is).filter fun name => !labels.contains name) where
  mem_iff name := by
    rw [List.mem_filter, mem_targetLabels, Bool.not_eq_true', ← Bool.not_eq_true, h.contains_iff]
  nodup := (nodup_targetLabels is).filter _
  ordered := (pairwise_targetLabels is).filter _

end Targets

/-! ## The check as a whole -/

section Check

variable {is : List Instruction}

/-- The rules that do not look at the labels continued at are broken at a position, or
are not broken. -/
theorem clean_iff : (∀ p, ¬ Violates is p) ↔
    (∀ i ∈ is, i.Fits) ∧ (∀ i ∈ is, i.ConstantsFit) ∧
      ∀ (p q : Nat) (name : String), is[p]? = some (declaration name) →
        is[q]? = some (declaration name) → p = q := by
  constructor
  · intro h
    obtain ⟨labels, -, hlabels⟩ := collectLabels_of_clean h
    refine ⟨fun i hi => ?_, fun i hi => ?_, fun p q name => hlabels.unique⟩
    · obtain ⟨p, hp⟩ := List.mem_iff_getElem?.1 hi
      by_contra hnot
      exact h p ⟨i, hp, .inl hnot⟩
    · obtain ⟨p, hp⟩ := List.mem_iff_getElem?.1 hi
      by_contra hnot
      exact h p ⟨i, hp, .inr (.inl hnot)⟩
  · rintro ⟨hfits, hconstants, hdistinct⟩ p ⟨i, hi, hnot | hnot | ⟨name, rfl, q, hq, hget⟩⟩
    · exact hnot (hfits i (List.mem_of_getElem? hi))
    · exact hnot (hconstants i (List.mem_of_getElem? hi))
    · have heq := hdistinct p q name hi hget
      omega

theorem accepted_iff : Accepted is ↔
    (∀ p, ¬ Violates is p) ∧ ∀ i ∈ is, ∀ name, i.Targets name → declaration name ∈ is := by
  rw [clean_iff]
  exact ⟨fun h => ⟨⟨h.fits, h.constants, h.distinct⟩, h.defined⟩,
    fun ⟨⟨hfits, hconstants, hdistinct⟩, hdefined⟩ => ⟨hfits, hconstants, hdistinct, hdefined⟩⟩

/-- A program without violations passes, or its undeclared labels are reported. -/
theorem check_of_clean (h : ∀ p, ¬ Violates is p) :
    (∃ labels, labels.Indexes is ∧ Accepted is ∧ check is = .ok labels) ∨
      ∃ names, names ≠ [] ∧ Undeclared is names ∧
        check is = .error ⟨.undefinedLabels names, none⟩ := by
  obtain ⟨labels, hpass, hlabels⟩ := collectLabels_of_clean h
  have hundeclared := undeclared_filter hlabels
  unfold check
  rw [hpass]
  -- the pass has succeeded, so it is up to the labels that are asked for
  cases hnames : (targetLabels is).filter fun name => !labels.contains name with
  | nil =>
      rw [hnames] at hundeclared
      refine .inl
        ⟨labels, hlabels, accepted_iff.2 ⟨h, fun i hi name htarget => ?_⟩, by simp [hnames]⟩
      by_contra hnot
      exact List.not_mem_nil ((hundeclared.mem_iff name).2 ⟨⟨i, hi, htarget⟩, hnot⟩)
  | cons name names =>
      rw [hnames] at hundeclared
      exact .inr ⟨name :: names, by simp, hundeclared, by simp [hnames]⟩

theorem Undeclared.not_accepted {names : List String} (hne : names ≠ [])
    (h : Undeclared is names) : ¬ Accepted is := by
  intro haccepted
  obtain ⟨name, hname⟩ := List.exists_mem_of_ne_nil names hne
  obtain ⟨⟨i, hi, htarget⟩, hnot⟩ := (h.mem_iff name).1 hname
  exact hnot (haccepted.defined i hi name htarget)

theorem exists_first_violation (h : ∃ p, Violates is p) :
    ∃ p, Violates is p ∧ ∀ q < p, ¬ Violates is q := by
  classical
  exact ⟨Nat.find h, Nat.find_spec h, fun q hq => Nat.find_min h hq⟩

/-- A program with violations is reported at the first of them. -/
theorem check_of_violation (h : ∃ p, Violates is p) :
    ∃ p i e, is[p]? = some i ∧ Violates is p ∧ (∀ q < p, ¬ Violates is q) ∧
      Diagnosis is p i e ∧ ∀ other : List Instruction, (∀ q ≤ p, other[q]? = is[q]?) →
        check other = .error ⟨e, some (p, i.opcode)⟩ := by
  obtain ⟨p, hp, hfirst⟩ := exists_first_violation h
  obtain ⟨i, e, hi, hdiagnosis, hstop⟩ := collectLabels_of_violation hp hfirst
  refine ⟨p, i, e, hi, hp, hfirst, hdiagnosis, fun other hother => ?_⟩
  have htake : other.take (p + 1) = is.take (p + 1) := by
    apply List.ext_getElem?
    intro q
    rw [List.getElem?_take, List.getElem?_take]
    split
    · exact hother q (by omega)
    · rfl
  rw [check, hstop other htake]

/-- What the check accepts obeys the rules, and the table is the one of its labels. -/
theorem accepted_of_check {labels : Table Nat} (h : check is = .ok labels) :
    Accepted is ∧ labels.Indexes is := by
  by_cases hclean : ∀ p, ¬ Violates is p
  · rcases check_of_clean hclean with ⟨labels', hlabels, haccepted, hcheck⟩ | ⟨names, -, -, hcheck⟩
    · rw [hcheck] at h
      cases h
      exact ⟨haccepted, hlabels⟩
    · rw [hcheck] at h
      cases h
  · push Not at hclean
    obtain ⟨p, i, e, -, -, -, -, hstop⟩ := check_of_violation hclean
    rw [hstop is fun r _ => rfl] at h
    cases h

theorem exists_check_of_accepted (h : Accepted is) : ∃ labels, check is = .ok labels := by
  rcases check_of_clean (accepted_iff.1 h).1 with
    ⟨labels, -, -, hcheck⟩ | ⟨names, hne, hundeclared, -⟩
  · exact ⟨labels, hcheck⟩
  · exact absurd h (hundeclared.not_accepted hne)

/-- A program has one table of labels. -/
theorem Table.Indexes.eq {labels others : Table Nat} (h : labels.Indexes is)
    (h' : others.Indexes is) : labels = others := by
  refine Table.ext_find? fun name => Option.ext fun p => ?_
  exact (h name p).trans (h' name p).symm

/-- **Acceptance.**  Exactly the programs that obey all rules pass the check, and the
check gives exactly the table of their labels. -/
theorem check_eq_ok_iff (is : List Instruction) :
    ((∃ labels, check is = .ok labels) ↔ Accepted is) ∧
      ∀ labels, check is = .ok labels ↔
        Accepted is ∧ ∀ name p, labels.find? name = some p ↔ is[p]? = some (declaration name) := by
  refine ⟨⟨?_, exists_check_of_accepted⟩, fun labels => ⟨accepted_of_check, ?_⟩⟩
  · rintro ⟨labels, h⟩
    exact (accepted_of_check h).1
  · rintro ⟨haccepted, hlabels⟩
    obtain ⟨others, hcheck⟩ := exists_check_of_accepted haccepted
    rw [hcheck, Table.Indexes.eq (accepted_of_check hcheck).2 hlabels]

/-- **Diagnosis.**  A refused program with violations is reported at the first of them,
with the diagnosis of the instruction there, and so is every program that agrees with it
up to that position.  Without violations the undeclared labels are reported, at no
position. -/
theorem check_error_explained {f : Fault} (h : check is = .error f) :
    ((∃ p, Violates is p) → ∃ p i, is[p]? = some i ∧ Violates is p ∧
      (∀ q < p, ¬ Violates is q) ∧ f.location = some (p, i.opcode) ∧ Diagnosis is p i f.error ∧
        ∀ other : List Instruction, (∀ q ≤ p, other[q]? = is[q]?) → check other = .error f) ∧
    ((∀ p, ¬ Violates is p) → f.location = none ∧
      ∃ names, f.error = .undefinedLabels names ∧ Undeclared is names) := by
  constructor
  · intro hviolated
    obtain ⟨p, i, e, hi, hp, hfirst, hdiagnosis, hstop⟩ := check_of_violation hviolated
    rw [hstop is fun q _ => rfl] at h
    cases h
    exact ⟨p, i, hi, hp, hfirst, rfl, hdiagnosis, hstop⟩
  · intro hclean
    rcases check_of_clean hclean with ⟨labels, -, -, hcheck⟩ | ⟨names, -, hundeclared, hcheck⟩
    · rw [hcheck] at h
      cases h
    · rw [hcheck] at h
      cases h
      exact ⟨rfl, names, rfl, hundeclared⟩

/-- A second declaration of `a` is reported with the first one, whatever follows and
although `b` is not declared.  Behind declarations that are right, `x` and `y` are
reported once each. -/
theorem check_error_explained_labels :
    (check [declaration "a", ⟨.jump, [.label "b"]⟩, declaration "a"] =
        .error ⟨.duplicateLabel "a" 0, some (2, .label)⟩ ∧
      ∀ more, check ([declaration "a", ⟨.jump, [.label "b"]⟩, declaration "a"] ++ more) =
        .error ⟨.duplicateLabel "a" 0, some (2, .label)⟩) ∧
    (check [⟨.jump, [.label "y"]⟩, declaration "a", ⟨.call, [.label "x"]⟩, ⟨.jump, [.label "y"]⟩] =
        .error ⟨.undefinedLabels ["y", "x"], none⟩ ∧
      Undeclared [⟨.jump, [.label "y"]⟩, declaration "a", ⟨.call, [.label "x"]⟩,
        ⟨.jump, [.label "y"]⟩] ["y", "x"]) := by
  refine ⟨⟨rfl, fun more => ?_⟩, rfl, ?_⟩
  · have hviolated : ∃ p, Violates [declaration "a", ⟨.jump, [.label "b"]⟩, declaration "a"] p :=
      ⟨2, declaration "a", rfl, .inr (.inr ⟨"a", rfl, 0, by omega, rfl⟩)⟩
    obtain ⟨p, i, hi, -, -, hlocation, -, hsame⟩ := (check_error_explained rfl).1 hviolated
    obtain ⟨rfl, -⟩ := Prod.mk.inj (Option.some.inj hlocation)
    refine hsame _ fun q hq => ?_
    exact List.getElem?_append_left (Nat.lt_succ_of_le hq)
  · by_cases hviolated : ∃ p, Violates [⟨.jump, [.label "y"]⟩, declaration "a",
        ⟨.call, [.label "x"]⟩, ⟨.jump, [.label "y"]⟩] p
    · obtain ⟨p, i, -, -, -, hlocation, -⟩ := (check_error_explained rfl).1 hviolated
      cases hlocation
    · obtain ⟨-, names, hnames, hundeclared⟩ :=
        (check_error_explained rfl).2 (not_exists.1 hviolated)
      cases hnames
      exact hundeclared

end Check

end IppCode
