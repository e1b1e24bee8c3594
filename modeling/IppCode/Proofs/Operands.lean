import Mathlib.Data.List.Forall2
import IppCode.Check

/-!
# What the operands of an instruction have to be

The check of a single instruction is a chain of functions that stop at the first
defect, its shape before its constants.  Here is what the first part looks for, said
without it: `Instruction.Fits`, that there is one operand for each slot of the signature
and that each slot takes its operand, and `Instruction.ShapeError`, the error of an
instruction that does not fit, that is the one met first from the left.

`shapeDefect?_eq_none_iff` says that an instruction has no defect of shape exactly if it
fits, and `shapeDefect?_eq_some_iff` that a defect is the error of the instruction.
-/

namespace IppCode

/-- The operands that a slot takes. -/
inductive Slot.Takes : Slot → Operand → Prop
  | var (x : Variable) : Takes .var (.variable x)
  | ofVariable (allowed : List ValueType) (x : Variable) : Takes (.symbol allowed) (.variable x)
  | ofConstant (allowed : List ValueType) (l : Literal) : Takes (.symbol allowed) (.constant l)
  | label (name : String) : Takes .label (.label name)
  | type (t : ValueType) : Takes .type (.type t)

theorem Slot.admits_iff {slot : Slot} {operand : Operand} :
    slot.admits operand = true ↔ slot.Takes operand := by
  constructor
  · intro h
    cases slot <;> cases operand <;> first | constructor | simp [Slot.admits] at h
  · rintro (_ | _ | _ | _ | _) <;> rfl

/-! ## Failing from the left -/

section Failure

variable {Good : Slot → Operand → Prop} {slots : List Slot} {operands : List Operand}
  {slot s : Slot} {operand o : Operand} {k : Nat}

/-- All operands are good for their slots. -/
def Throughout (Good : Slot → Operand → Prop) (slots : List Slot) (operands : List Operand) :
    Prop :=
  ∀ (k : Nat) (slot : Slot) (operand : Operand),
    slots[k]? = some slot → operands[k]? = some operand → Good slot operand

/-- The operand at an index is not good for its slot, and all before it are. -/
structure FirstFailure (Good : Slot → Operand → Prop) (slots : List Slot) (operands : List Operand)
    (k : Nat) (slot : Slot) (operand : Operand) : Prop where
  slot_at : slots[k]? = some slot
  operand_at : operands[k]? = some operand
  fails : ¬ Good slot operand
  before : ∀ j < k, ∀ s o, slots[j]? = some s → operands[j]? = some o → Good s o

theorem FirstFailure.not_throughout (h : FirstFailure Good slots operands k slot operand) :
    ¬ Throughout Good slots operands :=
  fun hall => h.fails (hall k slot operand h.slot_at h.operand_at)

theorem throughout_cons :
    Throughout Good (s :: slots) (o :: operands) ↔ Good s o ∧ Throughout Good slots operands := by
  constructor
  · intro h
    exact ⟨h 0 s o rfl rfl,
      fun k slot operand hslot hoperand => h (k + 1) slot operand hslot hoperand⟩
  · rintro ⟨hhead, htail⟩ (_ | k) slot operand hslot hoperand
    · cases hslot
      cases hoperand
      exact hhead
    · exact htail k slot operand hslot hoperand

/-- A list fails first at its head, or its head is good and its tail fails first. -/
theorem firstFailure_cons :
    FirstFailure Good (s :: slots) (o :: operands) k slot operand ↔
      (k = 0 ∧ slot = s ∧ operand = o ∧ ¬ Good s o) ∨
        ∃ j, k = j + 1 ∧ Good s o ∧ FirstFailure Good slots operands j slot operand := by
  constructor
  · intro h
    cases k with
    | zero =>
        cases h.slot_at
        cases h.operand_at
        exact .inl ⟨rfl, rfl, rfl, h.fails⟩
    | succ j =>
        refine .inr
          ⟨j, rfl, h.before 0 j.succ_pos s o rfl rfl, h.slot_at, h.operand_at, h.fails, ?_⟩
        intro n hn
        exact h.before (n + 1) (Nat.succ_lt_succ hn)
  · rintro (⟨rfl, rfl, rfl, hbad⟩ | ⟨j, rfl, hgood, h⟩)
    · exact ⟨rfl, rfl, hbad, fun n hn => absurd hn n.not_lt_zero⟩
    · refine ⟨h.slot_at, h.operand_at, h.fails, ?_⟩
      rintro (_ | n) hn s' o' hs' ho'
      · cases hs'
        cases ho'
        exact hgood
      · exact h.before n (Nat.lt_of_succ_lt_succ hn) s' o' hs' ho'

end Failure

namespace Instruction

variable {i : Instruction} {e : ExecError}

/-! ## Shape -/

/-- The operands match the signature of the opcode, in number and in kind. -/
def Fits (i : Instruction) : Prop :=
  List.Forall₂ Slot.Takes i.opcode.signature i.operands

/-- The error of an instruction of the wrong shape. -/
inductive ShapeError (i : Instruction) : ExecError → Prop
  | count (h : i.operands.length ≠ i.opcode.signature.length) :
      ShapeError i (.malformed (.operandCount i.opcode i.operands.length))
  | kind {k : Nat} {slot : Slot} {operand : Operand}
      (h : i.operands.length = i.opcode.signature.length)
      (hfirst : FirstFailure Slot.Takes i.opcode.signature i.operands k slot operand) :
      ShapeError i (.malformed (.operandKind i.opcode k operand))

theorem kindDefect?_eq_some_iff {opcode : Opcode} {index : Nat} {slots : List Slot}
    {operands : List Operand} :
    kindDefect? opcode index slots operands = some e ↔
      ∃ k slot operand, FirstFailure Slot.Takes slots operands k slot operand ∧
        e = .malformed (.operandKind opcode (index + k) operand) := by
  fun_induction kindDefect? opcode index slots operands with
  | case1 index slot slots operand operands hadmits ih =>
      -- the tail counts from the next index, so a failure of it is one place further on
      rw [ih]
      have htakes := Slot.admits_iff.1 hadmits
      constructor
      · rintro ⟨k, s, o, hfirst, rfl⟩
        refine ⟨k + 1, s, o, firstFailure_cons.2 (.inr ⟨k, rfl, htakes, hfirst⟩), ?_⟩
        rw [Nat.add_right_comm, Nat.add_assoc]
      · rintro ⟨k, s, o, hfirst, rfl⟩
        rcases firstFailure_cons.1 hfirst with ⟨_, _, _, hbad⟩ | ⟨j, rfl, _, hfirst⟩
        · exact absurd htakes hbad
        · refine ⟨j, s, o, hfirst, ?_⟩
          rw [Nat.add_right_comm, Nat.add_assoc]
  | case2 index slot slots operand operands hrefuses =>
      have hbad : ¬ slot.Takes operand := fun h => hrefuses (Slot.admits_iff.2 h)
      constructor
      · intro h
        cases h
        exact ⟨0, slot, operand, firstFailure_cons.2 (.inl ⟨rfl, rfl, rfl, hbad⟩), rfl⟩
      · rintro ⟨k, s, o, hfirst, rfl⟩
        rcases firstFailure_cons.1 hfirst with ⟨rfl, rfl, rfl, _⟩ | ⟨j, rfl, hgood, _⟩
        · rfl
        · exact absurd hgood hbad
  | case3 slots index operands hnot =>
      refine iff_of_false (by simp) ?_
      rintro ⟨k, s, o, hfirst, -⟩
      cases slots with
      | nil => simpa using hfirst.slot_at
      | cons slot slots =>
          cases operands with
          | nil => simpa using hfirst.operand_at
          -- with both lists going on one of the other cases applies
          | cons operand operands => exact hnot slot slots operand operands rfl rfl

/-- No kind is wrong if all operands are what their slots take. -/
theorem kindDefect?_eq_none_of_forall₂ {opcode : Opcode} {index : Nat} {slots : List Slot}
    {operands : List Operand} (h : List.Forall₂ Slot.Takes slots operands) :
    kindDefect? opcode index slots operands = none := by
  induction h generalizing index with
  | nil => rfl
  | cons htakes _ ih =>
      rw [kindDefect?, if_pos (Slot.admits_iff.2 htakes)]
      exact ih

theorem forall₂_of_kindDefect?_eq_none {opcode : Opcode} {index : Nat} {slots : List Slot}
    {operands : List Operand} (hlength : operands.length = slots.length)
    (h : kindDefect? opcode index slots operands = none) :
    List.Forall₂ Slot.Takes slots operands := by
  induction slots generalizing index operands with
  | nil =>
      rw [List.length_eq_zero_iff.1 hlength]
      exact .nil
  | cons slot slots ih =>
      cases operands with
      | nil => simp at hlength
      | cons operand operands =>
          rw [kindDefect?] at h
          split at h
          · rename_i hadmits
            exact .cons (Slot.admits_iff.1 hadmits) (ih (Nat.succ.inj hlength) h)
          · simp at h

/-- An instruction has no defect of shape exactly if its operands fit. -/
theorem shapeDefect?_eq_none_iff : i.shapeDefect? = none ↔ i.Fits := by
  unfold shapeDefect?
  constructor
  · intro h
    split at h
    · rename_i hlength
      exact forall₂_of_kindDefect?_eq_none hlength h
    · simp at h
  · intro h
    rw [if_pos h.length_eq.symm]
    exact kindDefect?_eq_none_of_forall₂ h

/-- A defect of shape is the error of the instruction's shape. -/
theorem shapeDefect?_eq_some_iff : i.shapeDefect? = some e ↔ i.ShapeError e := by
  unfold shapeDefect?
  constructor
  · intro h
    split at h
    · rename_i hlength
      obtain ⟨k, slot, operand, hfirst, rfl⟩ := kindDefect?_eq_some_iff.1 h
      rw [Nat.zero_add]
      exact .kind hlength hfirst
    · rename_i hlength
      cases h
      exact .count hlength
  · rintro (hlength | ⟨hlength, hfirst⟩)
    · rw [if_neg hlength]
    · rw [if_pos hlength, kindDefect?_eq_some_iff]
      exact ⟨_, _, _, hfirst, by rw [Nat.zero_add]⟩

theorem ShapeError.not_fits (h : i.ShapeError e) : ¬ i.Fits := by
  rw [← shapeDefect?_eq_some_iff] at h
  rw [← shapeDefect?_eq_none_iff, h]
  simp

end Instruction

end IppCode
