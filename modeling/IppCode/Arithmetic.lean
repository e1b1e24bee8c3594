import IppCode.Text.Numeral

/-!
# Integer arithmetic

Arithmetic on 64-bit signed integers that is exact or has no result.  Division
rounds towards negative infinity.
-/

namespace IppCode.Arithmetic

/-- The sum, if it fits. -/
def add? (l r : Int64) : Option Int64 :=
  int64? (l.toInt + r.toInt)

/-- The difference, if it fits. -/
def sub? (l r : Int64) : Option Int64 :=
  int64? (l.toInt - r.toInt)

/-- The product, if it fits. -/
def mul? (l r : Int64) : Option Int64 :=
  int64? (l.toInt * r.toInt)

/-- The quotient rounded towards zero, if the divisor is not zero and it fits. -/
def truncDiv? (l r : Int64) : Option Int64 :=
  if r = 0 then none else int64? (l.toInt.tdiv r.toInt)

/-- The quotient rounded towards negative infinity, if it fits: the one rounded
towards zero, less one when the remainder and the divisor differ in sign. -/
def floorDiv? (l r : Int64) : Option Int64 :=
  match truncDiv? l r with
  | none => none
  | some quotient =>
    let remainder := l % r
    if remainder ≠ 0 ∧ decide (remainder < 0) ≠ decide (r < 0) then some (quotient - 1)
    else some quotient

end IppCode.Arithmetic
