import IppCode.Proofs.Operands

/-!
# What the constants of an instruction have to be

The second part of the check of a single instruction, for one whose operands fit.
`Instruction.ConstantsFit` says that each constant has a value of a type its slot allows,
that two constants go together, and that a constant divisor or exit code is in range;
`Instruction.ConstantError` is the error of an instruction whose constants break a rule.
`constantDefect?_eq_none_iff` and `constantDefect?_eq_some_iff` say that the check finds
exactly these.

With both parts together `defect?_eq_none_iff` and `defect?_eq_some_iff` say what the
check of an instruction comes to.
-/

namespace IppCode

theorem Slot.Takes.value?_eq_none {slot : Slot} {operand : Operand} (h : slot.Takes operand)
    (hslot : slot = .var ∨ slot = .label) : operand.value? = none := by
  cases h <;> first | rfl | simp at hslot

/-- Whether two types go together. -/
def Pairing.Permits : Pairing → ValueType → ValueType → Prop
  | .independent, _, _ => True
  | .sameType, t, u => t = u
  | .sameTypeOrNil, t, u => t = u ∨ t = .nil ∨ u = .nil

theorem Value.type_eq_nil_iff {v : Value} : v.type = .nil ↔ v = .nil := by
  cases v <;> simp [Value.type]

theorem Pairing.admits_iff {pairing : Pairing} {v w : Value} :
    pairing.admits v w = true ↔ pairing.Permits v.type w.type := by
  cases pairing with
  | independent => simp [Pairing.admits, Pairing.Permits]
  | sameType => simp [Pairing.admits, Pairing.Permits]
  | sameTypeOrNil =>
      simp only [Pairing.admits, Pairing.Permits, Value.equals?, Value.type_eq_nil_iff]
      split <;> simp_all

/-- Whether a slot allows the value of an operand.  Only constants have values. -/
def Slot.Allows : Slot → Operand → Prop
  | .symbol allowed, .constant l => ∃ v, l.value? = some v ∧ v.type ∈ allowed
  | _, _ => True

namespace Instruction

variable {i : Instruction} {e : ExecError}

/-- A constant operand with a value, at an index counted from zero. -/
def HasConstant (i : Instruction) (k : Nat) (v : Value) : Prop :=
  i.operands[k]?.bind Operand.value? = some v

/-- The rules that the constants of an instruction obey. -/
structure ConstantsFit (i : Instruction) : Prop where
  /-- Each constant has a value, of a type that its slot allows. -/
  allowed : Throughout Slot.Allows i.opcode.signature i.operands
  /-- Two constants have types that go together. -/
  paired : ∀ j k v w, j < k → i.HasConstant j v → i.HasConstant k w →
    i.opcode.pairing.Permits v.type w.type
  /-- A constant divisor is not zero. -/
  divisor : i.opcode = .idiv → ¬ i.HasConstant 2 (.int 0)
  /-- A constant exit code is in range. -/
  exitCode : i.opcode = .exit → ∀ n, i.HasConstant 0 (.int n) → 0 ≤ n.toInt ∧ n.toInt ≤ 49

/-- The error of an instruction whose constants break a rule. -/
inductive ConstantError (i : Instruction) : ExecError → Prop
  | literal {k : Nat} {allowed : List ValueType} {l : Literal}
      (hfirst : FirstFailure Slot.Allows i.opcode.signature i.operands k (.symbol allowed)
        (.constant l))
      (hvalue : l.value? = none) : ConstantError i (.malformed (.literal l))
  | type {k : Nat} {allowed : List ValueType} {l : Literal} {v : Value}
      (hfirst : FirstFailure Slot.Allows i.opcode.signature i.operands k (.symbol allowed)
        (.constant l))
      (hvalue : l.value? = some v) : ConstantError i (.operandType i.opcode [v.type])
  | pairing {j k : Nat} {v w : Value}
      (hall : Throughout Slot.Allows i.opcode.signature i.operands) (hlt : j < k)
      (hv : i.HasConstant j v) (hw : i.HasConstant k w)
      (hpair : ¬ i.opcode.pairing.Permits v.type w.type) :
      ConstantError i (.operandType i.opcode [v.type, w.type])
  | divisor (hall : Throughout Slot.Allows i.opcode.signature i.operands)
      (hopcode : i.opcode = .idiv) (hzero : i.HasConstant 2 (.int 0)) :
      ConstantError i (.operandValue .divisionByZero)
  | exitCode {n : Int64} (hall : Throughout Slot.Allows i.opcode.signature i.operands)
      (hopcode : i.opcode = .exit) (hcode : i.HasConstant 0 (.int n))
      (hrange : ¬ (0 ≤ n.toInt ∧ n.toInt ≤ 49)) :
      ConstantError i (.operandValue (.exitCode n.toInt))

section SymbolValues

variable {opcode : Opcode} {slot : Slot} {slots : List Slot} {operand : Operand}
  {operands : List Operand}

/-- The error of a constant that its slot does not allow. -/
def refusal (opcode : Opcode) (l : Literal) : ExecError :=
  match l.value? with
  | none => .malformed (.literal l)
  | some v => .operandType opcode [v.type]

theorem symbolValues_cons_of_not_allows (opcode : Opcode) (slots : List Slot)
    (operands : List Operand) (h : ¬ slot.Allows operand) :
    ∃ allowed l, slot = .symbol allowed ∧ operand = .constant l ∧
      symbolValues opcode (slot :: slots) (operand :: operands) = .error (refusal opcode l) := by
  cases slot with
  | symbol allowed =>
      cases operand with
      | constant l =>
          refine ⟨allowed, l, rfl, rfl, ?_⟩
          cases hvalue : l.value? with
          | none => simp [symbolValues, refusal, hvalue]
          | some v =>
              have hv : v.type ∉ allowed := fun hmem => h ⟨v, hvalue, hmem⟩
              simp [symbolValues, refusal, hvalue, hv]
      | «variable» x => exact absurd trivial h
      | label name => exact absurd trivial h
      | type t => exact absurd trivial h
  | var => exact absurd trivial h
  | label => exact absurd trivial h
  | type => exact absurd trivial h

/-- A symbol that is allowed puts its value, if it has one, before those that follow. -/
theorem symbolValues_cons_symbol {allowed : List ValueType}
    (htakes : (Slot.symbol allowed).Takes operand) (h : (Slot.symbol allowed).Allows operand) :
    symbolValues opcode (.symbol allowed :: slots) (operand :: operands) =
      (symbolValues opcode slots operands).map (operand.value? :: ·) := by
  cases htakes with
  | ofVariable allowed x => rfl
  | ofConstant allowed l =>
      obtain ⟨v, hvalue, hmem⟩ := h
      simp [symbolValues, Operand.value?, hvalue, hmem]

theorem symbolValues_cons_eq_error_iff {e : ExecError} (h : slot.Allows operand) :
    symbolValues opcode (slot :: slots) (operand :: operands) = .error e ↔
      symbolValues opcode slots operands = .error e := by
  have hmap : ∀ (x : Except ExecError (List (Option Value))) (v : Option Value),
      x.map (v :: ·) = .error e ↔ x = .error e := by
    rintro (_ | _) _ <;> simp [Except.map]
  cases slot with
  | symbol allowed =>
      cases operand with
      | constant l =>
          rw [symbolValues_cons_symbol (.ofConstant allowed l) h]
          exact hmap _ _
      | «variable» x => exact hmap _ _
      | label name => exact hmap _ _
      | type t => exact hmap _ _
  | var => rfl
  | label => rfl
  | type => rfl

/-- The constants are refused at the first one that its slot does not allow. -/
theorem symbolValues_eq_error_iff {e : ExecError} :
    symbolValues opcode slots operands = .error e ↔
      ∃ k allowed l, FirstFailure Slot.Allows slots operands k (.symbol allowed) (.constant l) ∧
        e = refusal opcode l := by
  induction slots generalizing operands with
  | nil =>
      refine iff_of_false (by simp [symbolValues]) ?_
      rintro ⟨k, allowed, l, hfirst, -⟩
      simpa using hfirst.slot_at
  | cons slot slots ih =>
      cases operands with
      | nil =>
          refine iff_of_false (by simp [symbolValues]) ?_
          rintro ⟨k, allowed, l, hfirst, -⟩
          simpa using hfirst.operand_at
      | cons operand operands =>
          by_cases h : slot.Allows operand
          · rw [symbolValues_cons_eq_error_iff h, ih]
            simp only [firstFailure_cons, h, not_true_eq_false, and_false, true_and, false_or]
            constructor
            · rintro ⟨k, allowed, l, hfirst, rfl⟩
              exact ⟨k + 1, allowed, l, ⟨k, rfl, hfirst⟩, rfl⟩
            · rintro ⟨_, allowed, l, ⟨k, rfl, hfirst⟩, rfl⟩
              exact ⟨k, allowed, l, hfirst, rfl⟩
          · obtain ⟨allowed, l, rfl, rfl, herror⟩ :=
              symbolValues_cons_of_not_allows opcode slots operands h
            simp only [herror, firstFailure_cons, h, false_and, and_false, exists_false, or_false]
            constructor
            · intro he
              cases he
              exact ⟨0, allowed, l, ⟨rfl, rfl, rfl, not_false⟩, rfl⟩
            · rintro ⟨_, _, _, ⟨-, -, ⟨⟩, -⟩, rfl⟩
              rfl

theorem throughout_of_symbolValues {values : List (Option Value)}
    (h : symbolValues opcode slots operands = .ok values) :
    Throughout Slot.Allows slots operands := by
  induction slots generalizing operands values with
  | nil => exact fun k slot operand hslot => by simp at hslot
  | cons slot slots ih =>
      cases operands with
      | nil => exact fun k slot operand _ hoperand => by simp at hoperand
      | cons operand operands =>
          by_cases hallows : slot.Allows operand
          · refine throughout_cons.2 ⟨hallows, ?_⟩
            cases hrest : symbolValues opcode slots operands with
            | ok rest => exact ih hrest
            | error e =>
                rw [(symbolValues_cons_eq_error_iff hallows).2 hrest] at h
                cases h
          · obtain ⟨allowed, l, rfl, rfl, herror⟩ :=
              symbolValues_cons_of_not_allows opcode slots operands hallows
            rw [herror] at h
            cases h

end SymbolValues

theorem pairingDefect?_eq_some_iff {opcode : Opcode} {values : List (Option Value)} :
    pairingDefect? opcode values = some e ↔
      ∃ v w, values = [some v, some w] ∧ ¬ opcode.pairing.Permits v.type w.type ∧
        e = .operandType opcode [v.type, w.type] := by
  unfold pairingDefect?
  split
  · rename_i v w
    split
    · rename_i hadmits
      refine iff_of_false (by simp) ?_
      rintro ⟨v', w', hvalues, hpair, -⟩
      cases hvalues
      exact hpair (Pairing.admits_iff.1 hadmits)
    · rename_i hrefuses
      constructor
      · intro h
        cases h
        exact ⟨v, w, rfl, fun hpair => hrefuses (Pairing.admits_iff.2 hpair), rfl⟩
      · rintro ⟨v', w', hvalues, -, rfl⟩
        cases hvalues
        rfl
  · rename_i hvalues
    refine iff_of_false (by simp) ?_
    rintro ⟨v, w, rfl, -, -⟩
    exact hvalues v w rfl

theorem valueDefect?_eq_some_iff {opcode : Opcode} {values : List (Option Value)} :
    valueDefect? opcode values = some e ↔
      (opcode = .idiv ∧ ∃ v, values = [v, some (.int 0)] ∧ e = .operandValue .divisionByZero) ∨
        (opcode = .exit ∧ ∃ n, values = [some (.int n)] ∧ ¬ (0 ≤ n.toInt ∧ n.toInt ≤ 49) ∧
          e = .operandValue (.exitCode n.toInt)) := by
  unfold valueDefect?
  split
  · rename_i v n
    split
    · rename_i hzero
      subst hzero
      simp [eq_comm]
    · rename_i hzero
      simp [hzero]
  · rename_i n
    split
    · rename_i hrange
      refine iff_of_false (by simp) ?_
      rintro (⟨hopcode, -⟩ | ⟨-, n', hvalues, hnot, -⟩)
      · cases hopcode
      · cases hvalues
        exact hnot hrange
    · rename_i hrange
      constructor
      · intro h
        cases h
        exact .inr ⟨rfl, n, rfl, hrange, rfl⟩
      · rintro (⟨hopcode, -⟩ | ⟨-, n', hvalues, -, rfl⟩)
        · cases hopcode
        · cases hvalues
          rfl
  · rename_i hidiv hexit
    refine iff_of_false (by simp) ?_
    rintro (⟨rfl, v, rfl, -⟩ | ⟨rfl, n, rfl, -, -⟩)
    · exact hidiv v 0 rfl rfl
    · exact hexit n rfl rfl

/-- An opcode whose constants are compared, or divided, has two symbols behind one
operand that is none. -/
theorem signature_of_two_symbols {opcode : Opcode}
    (h : opcode.pairing ≠ .independent ∨ opcode = .idiv) :
    ∃ slot allowed, (slot = .var ∨ slot = .label) ∧
      opcode.signature = [slot, .symbol allowed, .symbol allowed] := by
  cases opcode <;> first
    | exact ⟨.var, _, .inl rfl, rfl⟩
    | exact ⟨.label, _, .inr rfl, rfl⟩
    | simp [Opcode.pairing] at h

/-- The constants of an instruction with two symbols are at the indices 1 and 2. -/
theorem symbolValues_two (hfits : i.Fits)
    (hall : Throughout Slot.Allows i.opcode.signature i.operands)
    (htwo : i.opcode.pairing ≠ .independent ∨ i.opcode = .idiv) :
    ∃ o a b, i.operands = [o, a, b] ∧ o.value? = none ∧
      symbolValues i.opcode i.opcode.signature i.operands = .ok [a.value?, b.value?] := by
  obtain ⟨slot, allowed, hslot, hsignature⟩ := signature_of_two_symbols htwo
  unfold Fits at hfits
  rw [hsignature] at hfits hall ⊢
  obtain ⟨o, _, ho, hrest, hoperands⟩ := List.forall₂_cons_left_iff.1 hfits
  obtain ⟨a, _, ha, hlast, rfl⟩ := List.forall₂_cons_left_iff.1 hrest
  obtain ⟨b, _, hb, hnil, rfl⟩ := List.forall₂_cons_left_iff.1 hlast
  cases hnil
  rw [hoperands] at hall ⊢
  obtain ⟨-, hall⟩ := throughout_cons.1 hall
  obtain ⟨hallowsa, hall⟩ := throughout_cons.1 hall
  obtain ⟨hallowsb, -⟩ := throughout_cons.1 hall
  refine ⟨o, a, b, rfl, ho.value?_eq_none hslot, ?_⟩
  -- the operand in front holds no symbol and leaves no value
  have hskip : symbolValues i.opcode [slot, .symbol allowed, .symbol allowed] [o, a, b] =
      symbolValues i.opcode [.symbol allowed, .symbol allowed] [a, b] := by
    rcases hslot with rfl | rfl <;> rfl
  rw [hskip, symbolValues_cons_symbol ha hallowsa, symbolValues_cons_symbol hb hallowsb]
  rfl

theorem symbolValues_exit (hfits : i.Fits)
    (hall : Throughout Slot.Allows i.opcode.signature i.operands) (hexit : i.opcode = .exit) :
    ∃ a, i.operands = [a] ∧
      symbolValues i.opcode i.opcode.signature i.operands = .ok [a.value?] := by
  unfold Fits at hfits
  rw [hexit] at hfits hall ⊢
  obtain ⟨a, _, ha, hnil, hoperands⟩ := List.forall₂_cons_left_iff.1 hfits
  cases hnil
  rw [hoperands] at hall ⊢
  obtain ⟨hallows, -⟩ := throughout_cons.1 hall
  refine ⟨a, rfl, ?_⟩
  exact symbolValues_cons_symbol ha hallows

/-! ## The defect of the constants -/

theorem constantDefect?_of_error
    (h : symbolValues i.opcode i.opcode.signature i.operands = .error e) :
    i.constantDefect? = some e := by
  simp only [constantDefect?, h]

theorem constantDefect?_eq_some_of_ok {values : List (Option Value)}
    (h : symbolValues i.opcode i.opcode.signature i.operands = .ok values) :
    i.constantDefect? = some e ↔
      pairingDefect? i.opcode values = some e ∨
        (pairingDefect? i.opcode values = none ∧ valueDefect? i.opcode values = some e) := by
  simp only [constantDefect?, h]
  cases pairingDefect? i.opcode values <;> simp

/-- A refused constant is an error of the constants. -/
theorem ConstantError.of_firstFailure {k : Nat} {allowed : List ValueType} {l : Literal}
    (h : FirstFailure Slot.Allows i.opcode.signature i.operands k (.symbol allowed)
      (.constant l)) : i.ConstantError (refusal i.opcode l) := by
  unfold refusal
  cases hvalue : l.value? with
  | none => exact .literal h hvalue
  | some v => exact .type h hvalue

/-- A defect of the constants is the error of the constants. -/
theorem ConstantError.of_constantDefect? (hfits : i.Fits) (h : i.constantDefect? = some e) :
    i.ConstantError e := by
  cases hvalues : symbolValues i.opcode i.opcode.signature i.operands with
  | error e' =>
      rw [constantDefect?_of_error hvalues] at h
      cases h
      obtain ⟨k, allowed, l, hfirst, rfl⟩ := symbolValues_eq_error_iff.1 hvalues
      exact .of_firstFailure hfirst
  | ok values =>
      have hall := throughout_of_symbolValues hvalues
      rcases (constantDefect?_eq_some_of_ok hvalues).1 h with hdefect | ⟨-, hdefect⟩
      · obtain ⟨v, w, rfl, hpair, rfl⟩ := pairingDefect?_eq_some_iff.1 hdefect
        -- the values that were compared are those at the indices 1 and 2
        have htwo : i.opcode.pairing ≠ .independent := fun hind => hpair (by rw [hind]; trivial)
        obtain ⟨o, a, b, hoperands, -, htwo⟩ := symbolValues_two hfits hall (.inl htwo)
        rw [hvalues] at htwo
        injection htwo with htwo
        simp only [List.cons.injEq, and_true] at htwo
        refine .pairing hall (show 1 < 2 by omega) ?_ ?_ hpair
        · simp [HasConstant, hoperands, htwo.1]
        · simp [HasConstant, hoperands, htwo.2]
      · rcases valueDefect?_eq_some_iff.1 hdefect with
          ⟨hopcode, v, rfl, rfl⟩ | ⟨hopcode, n, rfl, hrange, rfl⟩
        · obtain ⟨o, a, b, hoperands, -, htwo⟩ := symbolValues_two hfits hall (.inr hopcode)
          rw [hvalues] at htwo
          injection htwo with htwo
          simp only [List.cons.injEq, and_true] at htwo
          exact .divisor hall hopcode (by simp [HasConstant, hoperands, htwo.2])
        · obtain ⟨a, hoperands, hone⟩ := symbolValues_exit hfits hall hopcode
          rw [hvalues] at hone
          injection hone with hone
          simp only [List.cons.injEq, and_true] at hone
          exact .exitCode hall hopcode (by simp [HasConstant, hoperands, hone]) hrange

theorem pairingDefect?_of_independent {opcode : Opcode} (values : List (Option Value))
    (h : opcode.pairing = .independent) : pairingDefect? opcode values = none := by
  cases hdefect : pairingDefect? opcode values with
  | none => rfl
  | some e =>
      obtain ⟨v, w, -, hpair, -⟩ := pairingDefect?_eq_some_iff.1 hdefect
      rw [h] at hpair
      exact absurd trivial hpair

theorem HasConstant.of_two {o a b : Operand} {k : Nat} {v : Value} (h : i.HasConstant k v)
    (hoperands : i.operands = [o, a, b]) (ho : o.value? = none) :
    (k = 1 ∧ a.value? = some v) ∨ (k = 2 ∧ b.value? = some v) := by
  unfold HasConstant at h
  rw [hoperands] at h
  match k with
  | 0 => simp [ho] at h
  | 1 => exact .inl ⟨rfl, by simpa using h⟩
  | 2 => exact .inr ⟨rfl, by simpa using h⟩
  | k + 3 => simp at h

theorem constantDefect?_of_constantError (hfits : i.Fits) (h : i.ConstantError e) :
    i.constantDefect? = some e := by
  cases h with
  | literal hfirst hvalue =>
      apply constantDefect?_of_error
      exact symbolValues_eq_error_iff.2 ⟨_, _, _, hfirst, by rw [refusal, hvalue]⟩
  | type hfirst hvalue =>
      apply constantDefect?_of_error
      exact symbolValues_eq_error_iff.2 ⟨_, _, _, hfirst, by rw [refusal, hvalue]⟩
  | pairing hall hlt hv hw hpair =>
      have htwo : i.opcode.pairing ≠ .independent := fun hind => hpair (by rw [hind]; trivial)
      obtain ⟨o, a, b, hoperands, ho, hvalues⟩ := symbolValues_two hfits hall (.inl htwo)
      refine (constantDefect?_eq_some_of_ok hvalues).2 (.inl (pairingDefect?_eq_some_iff.2 ?_))
      -- the earlier of two constants is the first symbol, the later one the second
      rcases hv.of_two hoperands ho with ⟨rfl, ha⟩ | ⟨rfl, hb⟩
      · rcases hw.of_two hoperands ho with ⟨rfl, -⟩ | ⟨rfl, hb⟩
        · omega
        · exact ⟨_, _, by rw [ha, hb], hpair, rfl⟩
      · rcases hw.of_two hoperands ho with ⟨rfl, -⟩ | ⟨rfl, -⟩ <;> omega
  | divisor hall hopcode hzero =>
      obtain ⟨o, a, b, hoperands, ho, hvalues⟩ := symbolValues_two hfits hall (.inr hopcode)
      refine (constantDefect?_eq_some_of_ok hvalues).2 (.inr ⟨?_, valueDefect?_eq_some_iff.2 ?_⟩)
      · exact pairingDefect?_of_independent _ (by rw [hopcode]; rfl)
      -- a constant at the index 2 is the second symbol
      · rcases hzero.of_two hoperands ho with ⟨h, -⟩ | ⟨-, hb⟩
        · omega
        · exact .inl ⟨hopcode, a.value?, by rw [hb], rfl⟩
  | @exitCode n hall hopcode hcode hrange =>
      obtain ⟨a, hoperands, hvalues⟩ := symbolValues_exit hfits hall hopcode
      refine (constantDefect?_eq_some_of_ok hvalues).2 (.inr ⟨?_, valueDefect?_eq_some_iff.2 ?_⟩)
      · exact pairingDefect?_of_independent _ (by rw [hopcode]; rfl)
      · have ha : a.value? = some (.int n) := by simpa [HasConstant, hoperands] using hcode
        exact .inr ⟨hopcode, n, by rw [ha], hrange, rfl⟩

theorem constantDefect?_eq_some_iff (hfits : i.Fits) :
    i.constantDefect? = some e ↔ i.ConstantError e :=
  ⟨.of_constantDefect? hfits, constantDefect?_of_constantError hfits⟩

/-- The constants obey the rules exactly if there is no error of the constants. -/
theorem constantsFit_iff : i.ConstantsFit ↔ ∀ e, ¬ i.ConstantError e := by
  constructor
  · intro h e herror
    cases herror with
    | literal hfirst _ => exact hfirst.not_throughout h.allowed
    | type hfirst _ => exact hfirst.not_throughout h.allowed
    | pairing _ hlt hv hw hpair => exact hpair (h.paired _ _ _ _ hlt hv hw)
    | divisor _ hopcode hzero => exact h.divisor hopcode hzero
    | exitCode _ hopcode hcode hrange => exact hrange (h.exitCode hopcode _ hcode)
  · intro h
    have hall : Throughout Slot.Allows i.opcode.signature i.operands := by
      cases hvalues : symbolValues i.opcode i.opcode.signature i.operands with
      | ok values => exact throughout_of_symbolValues hvalues
      | error e =>
          obtain ⟨k, allowed, l, hfirst, -⟩ := symbolValues_eq_error_iff.1 hvalues
          exact absurd (.of_firstFailure hfirst) (h _)
    refine ⟨hall, ?_, ?_, ?_⟩
    · intro j k v w hlt hv hw
      by_contra hpair
      exact h _ (.pairing hall hlt hv hw hpair)
    · intro hopcode hzero
      exact h _ (.divisor hall hopcode hzero)
    · intro hopcode n hcode
      by_contra hrange
      exact h _ (.exitCode hall hopcode hcode hrange)

/-- An instruction that fits has no defect of its constants exactly if these obey the
rules. -/
theorem constantDefect?_eq_none_iff (hfits : i.Fits) :
    i.constantDefect? = none ↔ i.ConstantsFit := by
  rw [constantsFit_iff, Option.eq_none_iff_forall_ne_some]
  exact forall_congr' fun e => not_congr (constantDefect?_eq_some_iff hfits)

/-- An instruction has no defect exactly if its operands and constants fit. -/
theorem defect?_eq_none_iff : i.defect? = none ↔ i.Fits ∧ i.ConstantsFit := by
  unfold defect?
  cases hshape : i.shapeDefect? with
  | some e =>
      have hnot := (shapeDefect?_eq_some_iff.1 hshape).not_fits
      simp [hnot]
  | none =>
      have hfits := shapeDefect?_eq_none_iff.1 hshape
      simp [hfits, constantDefect?_eq_none_iff hfits]

/-- The defect of an instruction is that of its shape, and that of its constants if
its shape is right. -/
theorem defect?_eq_some_iff :
    i.defect? = some e ↔ i.ShapeError e ∨ (i.Fits ∧ i.ConstantError e) := by
  unfold defect?
  cases hshape : i.shapeDefect? with
  | some e' =>
      have hnot := (shapeDefect?_eq_some_iff.1 hshape).not_fits
      simp [← shapeDefect?_eq_some_iff, hshape, hnot]
  | none =>
      have hfits := shapeDefect?_eq_none_iff.1 hshape
      simp [← shapeDefect?_eq_some_iff, hshape, hfits, constantDefect?_eq_some_iff hfits]

end Instruction

end IppCode
