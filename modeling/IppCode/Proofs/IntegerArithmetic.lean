import IppCode.Operator

/-!
# Arithmetic is exact or refused

The sum, the difference and the product of two 64-bit integers are the mathematical ones, or
there is no result because that one does not fit.

A quotient is rounded towards negative infinity.  `floorDiv?` takes the quotient rounded towards
zero and lessens it by one where the remainder and the divisor differ in sign.  That quotient
does not fit in one case only, the least integer divided by minus one; the correction is made
only for divisors of an absolute value above one, and then the quotient is far from the least
integer (`natAbs_tdiv_le`).
-/

namespace IppCode

namespace Arithmetic

/-- The integers that 64 bits with a sign can hold. -/
def Fits (n : Int) : Prop :=
  -9223372036854775808 ≤ n ∧ n ≤ 9223372036854775807

/-- `q` is the quotient of `l` by `r` rounded towards negative infinity: what is left is zero,
or it has the sign of `r` and is smaller in absolute value. -/
def IsFloorQuotient (l r q : Int) : Prop :=
  ∃ m, l = q * r + m ∧ (m = 0 ∨ m.sign = r.sign ∧ m.natAbs < r.natAbs)

/-- The remainder of the quotient rounded towards zero, as far as it can be computed along with
that quotient: there is none by zero, and none of a quotient that does not fit. -/
def truncMod? (l r : Int64) : Option Int64 :=
  if r = 0 ∨ l = Int64.minValue ∧ r = -1 then none else int64? (l.toInt.tmod r.toInt)

variable {l r q : Int64}

theorem fits_toInt (n : Int64) : Fits n.toInt :=
  ⟨n.le_toInt, Int.le_of_lt_add_one n.toInt_lt⟩

theorem toInt_ne_zero (h : r ≠ 0) : r.toInt ≠ 0 := by
  intro hzero
  exact h (Int64.toInt_inj.1 hzero)

/-! ## Quotients rounded towards zero -/

/-- Dividing by anything but one and minus one at least halves an integer. -/
theorem natAbs_tdiv_le {a b : Int} (h : 2 ≤ b.natAbs) : (a.tdiv b).natAbs ≤ a.natAbs / 2 := by
  rw [Int.natAbs_tdiv]
  exact Nat.div_le_div_left h (by omega)

/-- Only one quotient is out of range: a divisor that is neither one nor its opposite halves at
least. -/
theorem fits_tdiv_iff (hr : r ≠ 0) :
    Fits (l.toInt.tdiv r.toInt) ↔ ¬ (l.toInt = -9223372036854775808 ∧ r.toInt = -1) := by
  obtain ⟨hlow, hhigh⟩ := fits_toInt l
  have hzero := toInt_ne_zero hr
  unfold Fits
  by_cases hone : r.toInt = 1
  · rw [hone, Int.tdiv_one]
    omega
  by_cases hminus : r.toInt = -1
  · rw [hminus, Int.tdiv_neg, Int.tdiv_one]
    omega
  have hhalf := natAbs_tdiv_le (a := l.toInt) (b := r.toInt) (by omega)
  omega

theorem eq_minValue_iff : l = Int64.minValue ↔ l.toInt = -9223372036854775808 := by
  rw [← Int64.toInt_inj]
  rfl

theorem eq_neg_one_iff : r = -1 ↔ r.toInt = -1 := by
  rw [← Int64.toInt_inj]
  rfl

/-- Division fails for zero and for the one quotient that does not fit. -/
theorem truncDiv?_eq_none_iff :
    truncDiv? l r = none ↔ r = 0 ∨ l = Int64.minValue ∧ r = -1 := by
  unfold truncDiv?
  by_cases hr : r = 0
  · simp [hr]
  · rw [if_neg hr, int64?_eq_none_iff, eq_minValue_iff, eq_neg_one_iff]
    change ¬ Fits _ ↔ _
    rw [fits_tdiv_iff hr]
    simp [hr]

theorem toInt_of_truncDiv? (h : truncDiv? l r = some q) :
    r ≠ 0 ∧ q.toInt = l.toInt.tdiv r.toInt := by
  unfold truncDiv? at h
  split at h
  · cases h
  · rename_i hr
    exact ⟨hr, int64?_eq_some_iff.1 h⟩

/-- The remainder can be computed whenever the quotient can. -/
theorem truncMod?_of_truncDiv? (h : truncDiv? l r = some q) : truncMod? l r = some (l % r) := by
  have hnone : ¬ (r = 0 ∨ l = Int64.minValue ∧ r = -1) := by
    rw [← truncDiv?_eq_none_iff, h]
    exact Option.some_ne_none q
  rw [truncMod?, if_neg hnone, int64?_eq_some_iff, Int64.toInt_mod]

/-- A quotient with a remainder is not the least integer. -/
theorem sub?_one_of_truncDiv? (h : truncDiv? l r = some q) (hrest : l % r ≠ 0) :
    sub? q 1 = some (q - 1) := by
  obtain ⟨hr, hq⟩ := toInt_of_truncDiv? h
  obtain ⟨hlow, hhigh⟩ := fits_toInt l
  have hzero := toInt_ne_zero hr
  have hmod : l.toInt.tmod r.toInt ≠ 0 := by
    rw [← Int64.toInt_mod]
    exact toInt_ne_zero hrest
  -- by one and minus one nothing would be left
  have htwo : 2 ≤ r.toInt.natAbs := by
    rcases Nat.lt_or_ge r.toInt.natAbs 2 with hlt | hge
    · have hone : r.toInt.natAbs = 1 := by omega
      refine absurd ?_ hmod
      rw [← Int.natAbs_eq_zero, Int.natAbs_tmod, hone, Nat.mod_one]
    · exact hge
  have hhalf := natAbs_tdiv_le (a := l.toInt) htwo
  rw [← hq] at hhalf
  have hone : (1 : Int64).toInt = 1 := rfl
  rw [sub?, int64?_eq_some_iff, Int64.toInt_sub, hone]
  exact Int.bmod_eq_of_le (by omega) (by omega)

/-! ## Quotients rounded towards negative infinity -/

theorem rest_iff_of_pos {b m : Int} (h : 0 < b) :
    (m = 0 ∨ m.sign = b.sign ∧ m.natAbs < b.natAbs) ↔ 0 ≤ m ∧ m < b := by
  rw [Int.sign_eq_one_of_pos h, Int.sign_eq_one_iff_pos]
  omega

theorem rest_iff_of_neg {b m : Int} (h : b < 0) :
    (m = 0 ∨ m.sign = b.sign ∧ m.natAbs < b.natAbs) ↔ b < m ∧ m ≤ 0 := by
  rw [Int.sign_eq_neg_one_of_neg h, Int.sign_eq_neg_one_iff_neg]
  omega

/-- There is exactly one such quotient. -/
theorem isFloorQuotient_iff {a b n : Int} (h : b ≠ 0) :
    IsFloorQuotient a b n ↔ a.fdiv b = n := by
  have hsum : ∀ m, a = n * b + m ↔ m + b * n = a := by
    intro m
    rw [Int.mul_comm, Int.add_comm, eq_comm]
  unfold IsFloorQuotient
  rcases Int.lt_or_gt_of_ne h with hneg | hpos
  · simp only [hsum, rest_iff_of_neg hneg, ← Int.fdiv_fmod_unique' hneg, exists_and_left,
      exists_eq', and_true]
  · simp only [hsum, rest_iff_of_pos hpos, ← Int.fdiv_fmod_unique hpos, exists_and_left,
      exists_eq', and_true]

theorem eq_tdiv_mul_add (a b : Int) : a = a.tdiv b * b + a.tmod b := by
  rw [Int.mul_comm, Int.mul_tdiv_add_tmod]

theorem natAbs_tmod_lt {b : Int} (a : Int) (h : b ≠ 0) : (a.tmod b).natAbs < b.natAbs := by
  rw [Int.natAbs_tmod]
  exact Nat.mod_lt _ (by omega)

/-- If the rest has not the sign of the divisor, then the quotient was rounded up. -/
theorem isFloorQuotient_tdiv_sub_one {a b : Int} (h : b ≠ 0) (hrest : a.tmod b ≠ 0)
    (hsigns : ¬ (a.tmod b < 0 ↔ b < 0)) : IsFloorQuotient a b (a.tdiv b - 1) := by
  have hdivision := eq_tdiv_mul_add a b
  have hsmall := natAbs_tmod_lt a h
  refine ⟨a.tmod b + b, ?_, ?_⟩
  · rw [Int.sub_mul]
    omega
  · rcases Int.lt_or_gt_of_ne h with hneg | hpos
    · rw [rest_iff_of_neg hneg]
      omega
    · rw [rest_iff_of_pos hpos]
      omega

theorem isFloorQuotient_tdiv {a b : Int} (h : b ≠ 0)
    (hsigns : a.tmod b ≠ 0 → (a.tmod b < 0 ↔ b < 0)) : IsFloorQuotient a b (a.tdiv b) := by
  have hsmall := natAbs_tmod_lt a h
  refine ⟨a.tmod b, eq_tdiv_mul_add a b, ?_⟩
  rcases Int.lt_or_gt_of_ne h with hneg | hpos
  · rw [rest_iff_of_neg hneg]
    omega
  · rw [rest_iff_of_pos hpos]
    omega

theorem floorDiv?_eq_none_iff :
    floorDiv? l r = none ↔ r = 0 ∨ l = Int64.minValue ∧ r = -1 := by
  rw [← truncDiv?_eq_none_iff]
  unfold floorDiv?
  split
  · rename_i hnone
    simp [hnone]
  · rename_i quotient hsome
    rw [hsome]
    refine iff_of_false ?_ (Option.some_ne_none quotient)
    dsimp only
    split <;> exact Option.some_ne_none _

/-- The correction of a quotient does not wrap around: a quotient with a rest is not the least
number. -/
theorem toInt_sub_one (h : truncDiv? l r = some q) (hrest : l % r ≠ 0) :
    (q - 1).toInt = q.toInt - 1 :=
  int64?_eq_some_iff.1 (sub?_one_of_truncDiv? h hrest)

theorem isFloorQuotient_of_floorDiv? (h : floorDiv? l r = some q) :
    IsFloorQuotient l.toInt r.toInt q.toInt := by
  unfold floorDiv? at h
  split at h
  · cases h
  · rename_i quotient hquotient
    obtain ⟨hr, htrunc⟩ := toInt_of_truncDiv? hquotient
    have hdivisor := toInt_ne_zero hr
    -- the tests on machine words are tests on integers
    have hzero : l % r = 0 ↔ l.toInt.tmod r.toInt = 0 := by
      rw [← Int64.toInt_inj, Int64.toInt_mod]
      rfl
    have hsign : l % r < 0 ↔ l.toInt.tmod r.toInt < 0 := by
      rw [Int64.lt_iff_toInt_lt, Int64.toInt_mod]
      rfl
    have hsign' : r < 0 ↔ r.toInt < 0 := Int64.lt_iff_toInt_lt
    simp only [ne_eq, decide_eq_decide] at h
    split at h
    · rename_i hsigns
      cases h
      rw [toInt_sub_one hquotient hsigns.1, htrunc]
      rw [hzero, hsign, hsign'] at hsigns
      exact isFloorQuotient_tdiv_sub_one hdivisor hsigns.1 hsigns.2
    · rename_i hsigns
      cases h
      rw [hzero, hsign, hsign'] at hsigns
      rw [htrunc]
      refine isFloorQuotient_tdiv hdivisor ?_
      intro hrest
      exact Decidable.of_not_not fun hdiffer => hsigns ⟨hrest, hdiffer⟩

end Arithmetic

/-! ## Operators -/

namespace BinaryOp

open Arithmetic

/-- A result that refuses the values of the operands. -/
def RefusesValues (result : Except ExecError Value) : Prop :=
  ∃ e, result = .error e ∧ e.kind = .operandValue ∧ e.code = 57

/-- A result that is the integer `n`, or a refusal where `n` does not fit. -/
def ExactOrRefused (result : Except ExecError Value) (n : Int) : Prop :=
  (Fits n → ∃ v : Int64, result = .ok (.int v) ∧ v.toInt = n) ∧
    (¬ Fits n → RefusesValues result)

theorem refusesValues_integer_none (f : BinaryOp) : RefusesValues (integer f none) :=
  ⟨_, rfl, rfl, rfl⟩

theorem exactOrRefused_integer (f : BinaryOp) (n : Int) :
    ExactOrRefused (integer f (int64? n)) n := by
  constructor
  · intro hfits
    cases hresult : int64? n with
    | none => exact absurd hfits (int64?_eq_none_iff.1 hresult)
    | some v => exact ⟨v, rfl, int64?_eq_some_iff.1 hresult⟩
  · intro hfits
    rw [int64?_eq_none_iff.2 hfits]
    exact refusesValues_integer_none f

/-- Arithmetic on 64-bit integers is exact or refused.

* Sums, differences and products are the mathematical ones where they fit, and refused
  elsewhere.
* A quotient by zero is refused, and so is the one quotient that does not fit.  Every other one
  is the only quotient that is rounded towards negative infinity.
* On the way to it nothing overflows: with the quotient rounded towards zero there is the
  remainder, and where that quotient is lessened by one the difference fits. -/
theorem integer_arithmetic_exact (l r : Int64) :
    ExactOrRefused (BinaryOp.add.eval (.int l) (.int r)) (l.toInt + r.toInt) ∧
    ExactOrRefused (BinaryOp.sub.eval (.int l) (.int r)) (l.toInt - r.toInt) ∧
    ExactOrRefused (BinaryOp.mul.eval (.int l) (.int r)) (l.toInt * r.toInt) ∧
    (r = 0 ∨ l = Int64.minValue ∧ r = -1 →
      RefusesValues (BinaryOp.idiv.eval (.int l) (.int r))) ∧
    (¬ (r = 0 ∨ l = Int64.minValue ∧ r = -1) →
      ∃ q : Int64, BinaryOp.idiv.eval (.int l) (.int r) = .ok (.int q) ∧
        ∀ n, IsFloorQuotient l.toInt r.toInt n ↔ n = q.toInt) ∧
    ∀ quotient, truncDiv? l r = some quotient →
      truncMod? l r = some (l % r) ∧
      (l % r ≠ 0 ∧ decide (l % r < 0) ≠ decide (r < 0) →
        sub? quotient 1 = some (quotient - 1)) := by
  refine ⟨exactOrRefused_integer .add _, exactOrRefused_integer .sub _,
    exactOrRefused_integer .mul _, ?_, ?_, ?_⟩
  · intro hundefined
    by_cases hzero : r = 0
    · exact ⟨_, if_pos hzero, rfl, rfl⟩
    · have hnone := floorDiv?_eq_none_iff.2 hundefined
      change RefusesValues (if r = 0 then _ else integer .idiv (floorDiv? l r))
      rw [if_neg hzero, hnone]
      exact refusesValues_integer_none .idiv
  · intro hdefined
    have hzero : r ≠ 0 := fun h => hdefined (.inl h)
    cases hquotient : floorDiv? l r with
    | none => exact absurd (floorDiv?_eq_none_iff.1 hquotient) hdefined
    | some q =>
        refine ⟨q, ?_, ?_⟩
        · change (if r = 0 then _ else integer .idiv (floorDiv? l r)) = _
          rw [if_neg hzero, hquotient]
          rfl
        · intro n
          have hq := isFloorQuotient_of_floorDiv? hquotient
          rw [isFloorQuotient_iff (toInt_ne_zero hzero)] at hq ⊢
          rw [hq, eq_comm]
  · intro quotient hquotient
    refine ⟨truncMod?_of_truncDiv? hquotient, ?_⟩
    intro hsigns
    exact sub?_one_of_truncDiv? hquotient hsigns.1

/-- Minus seven by two is minus four, one less than the quotient rounded towards zero, and the
least integer has no product with minus one and no quotient by it. -/
theorem integer_arithmetic_exact_corrected :
    ¬ ((2 : Int64) = 0 ∨ (-7 : Int64) = Int64.minValue ∧ (2 : Int64) = -1) ∧
    truncDiv? (-7) 2 = some (-3) ∧ sub? (-3) 1 = some (-4) ∧
    BinaryOp.idiv.eval (.int (-7)) (.int 2) = .ok (.int (-4)) ∧
    (∀ n, IsFloorQuotient (-7) 2 n ↔ n = -4) ∧
    ¬ Fits 9223372036854775808 ∧
    RefusesValues (BinaryOp.mul.eval (.int Int64.minValue) (.int (-1))) ∧
    RefusesValues (BinaryOp.idiv.eval (.int Int64.minValue) (.int (-1))) := by
  obtain ⟨-, -, -, -, hquotient, hsteps⟩ := integer_arithmetic_exact (-7) 2
  obtain ⟨-, -, hproduct, hrefused, -⟩ := integer_arithmetic_exact Int64.minValue (-1)
  have hdefined : ¬ ((2 : Int64) = 0 ∨ (-7 : Int64) = Int64.minValue ∧ (2 : Int64) = -1) := by
    decide
  have htrunc : truncDiv? (-7) 2 = some (-3) := by decide
  have heval : BinaryOp.idiv.eval (.int (-7)) (.int 2) = .ok (.int (-4)) := rfl
  have hlarge : ¬ Fits 9223372036854775808 := by
    unfold Fits
    decide
  obtain ⟨q, hq, hunique⟩ := hquotient hdefined
  cases heval.symm.trans hq
  exact ⟨hdefined, htrunc, (hsteps (-3) htrunc).2 (by decide), heval, hunique, hlarge,
    hproduct.2 hlarge, hrefused (by decide)⟩

end BinaryOp

end IppCode
