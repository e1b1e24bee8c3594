/-!
# Integer numerals

An integer is written as an optional sign and digits: hexadecimal after `0x` or
`0X`, octal after `0o` or `0O`, decimal otherwise.  `Numeral.read?` gives its
value if it is one of the 64-bit signed integers, and `Numeral.write` writes an
integer in decimal.
-/

namespace IppCode

/-- The 64-bit signed integer with a given value, if there is one. -/
def int64? (n : Int) : Option Int64 :=
  if -9223372036854775808 ≤ n ∧ n ≤ 9223372036854775807 then some (Int64.ofInt n) else none

theorem int64?_eq_some_iff {n : Int} {v : Int64} : int64? n = some v ↔ v.toInt = n := by
  have hle := v.le_toInt
  have hlt := v.toInt_lt
  unfold int64?
  split
  · rename_i hrange
    have hvalue : (Int64.ofInt n).toInt = n := Int64.toInt_ofInt_of_le (by omega) (by omega)
    rw [Option.some.injEq, ← Int64.toInt_inj, hvalue, eq_comm]
  · rename_i hrange
    exact iff_of_false (by simp) (by omega)

theorem int64?_eq_none_iff {n : Int} :
    int64? n = none ↔ ¬ (-9223372036854775808 ≤ n ∧ n ≤ 9223372036854775807) := by
  simp only [int64?, ite_eq_right_iff, reduceCtorEq, imp_false]

namespace Text.Numeral

/-- The value of a digit in a base of at most sixteen. -/
def digit? (base : Nat) (c : Char) : Option Nat :=
  let value? : Option Nat :=
    if '0' ≤ c ∧ c ≤ '9' then some (c.toNat - 48)
    else if 'a' ≤ c ∧ c ≤ 'f' then some (c.toNat - 87)
    else if 'A' ≤ c ∧ c ≤ 'F' then some (c.toNat - 55)
    else none
  value?.filter (· < base)

/-- The number that digits continue when `high` is what stands before them. -/
def extend? (base : Nat) : Nat → List Char → Option Nat
  | high, [] => some high
  | high, c :: rest =>
    match digit? base c with
    | some low => extend? base (high * base + low) rest
    | none => none

/-- The number written by one or more digits. -/
def digits? (base : Nat) : List Char → Option Nat
  | [] => none
  | cs => extend? base 0 cs

/-- The number written by digits in the base that their first two characters
announce. -/
def magnitude? : List Char → Option Nat
  | '0' :: 'x' :: rest => digits? 16 rest
  | '0' :: 'X' :: rest => digits? 16 rest
  | '0' :: 'o' :: rest => digits? 8 rest
  | '0' :: 'O' :: rest => digits? 8 rest
  | cs => digits? 10 cs

/-- The integer written by an optional sign and a magnitude. -/
def integer? : List Char → Option Int
  | '-' :: rest => (magnitude? rest).map fun n : Nat => -(n : Int)
  | '+' :: rest => (magnitude? rest).map fun n : Nat => (n : Int)
  | cs => (magnitude? cs).map fun n : Nat => (n : Int)

/-- The 64-bit signed integer that a text writes, if it writes one. -/
def read? (s : String) : Option Int64 :=
  integer? s.toList >>= int64?

/-- The decimal digits of an integer, after a minus sign if it is negative. -/
def write : Int → String
  | .ofNat n => Nat.repr n
  | .negSucc n => "-" ++ Nat.repr (n + 1)

end Text.Numeral

end IppCode
