import Mathlib.Algebra.Group.Nat.Defs
import IppCode.Proofs.LiteralText

/-!
# The words of documents

Attributes and arguments of a document are words of four kinds: keywords, which are read
regardless of the case of their letters, orders, which are decimal numbers of 64 bits, variables,
and names that can be anything.  For the readers of keywords and of orders: which words they accept,
and what they make of them, said without the reader.
-/

namespace IppCode

/-! ## Keywords -/

namespace Text

variable {s t u : String}

/-- Two words have the same letters if they are equal in lower case. -/
theorem sameLetters_iff : sameLetters s t = true ↔ lower s = lower t := by
  rw [sameLetters, beq_iff_eq, lower, lower, String.ofList_inj]

theorem sameLetters_comm : sameLetters s t = true ↔ sameLetters t s = true := by
  rw [sameLetters_iff, sameLetters_iff, eq_comm]

theorem sameLetters_trans (h : sameLetters s t = true) (h' : sameLetters t u = true) :
    sameLetters s u = true := by
  rw [sameLetters_iff] at h h' ⊢
  exact h.trans h'

theorem lower_lower (s : String) : lower (lower s) = lower s := by
  have htoLower : ∀ c : Char, c.toLower.toLower = c.toLower := by
    intro c
    unfold Char.toLower
    grind
  simp only [lower, String.toList_ofList, List.map_map]
  congr 2
  exact funext htoLower

/-- Comparing with a word in lower case. -/
theorem lower_eq_iff (ht : lower t = t) : lower s = t ↔ sameLetters s t = true := by
  rw [sameLetters_iff, ht]

/-- Keywords that differ in more than the case of their letters are told apart by a word. -/
theorem find?_keyword {α : Type} {all : List α} {keyword : α → String} {a : α}
    (hall : ∀ b, b ∈ all)
    (hdistinct : ∀ b ∈ all, ∀ c ∈ all, sameLetters (keyword b) (keyword c) = true → b = c) :
    all.find? (fun b => sameLetters (keyword b) s) = some a ↔ sameLetters s (keyword a) = true := by
  constructor
  · intro h
    have hfound := List.find?_some h
    exact sameLetters_comm.1 hfound
  · intro h
    cases hfind : all.find? fun b => sameLetters (keyword b) s with
    | none => exact absurd (sameLetters_comm.1 h) (List.find?_eq_none.1 hfind a (hall a))
    | some b =>
        have hfound := List.find?_some hfind
        rw [hdistinct b (hall b) a (hall a) (sameLetters_trans hfound h)]

end Text

namespace Opcode

theorem mem_all (opcode : Opcode) : opcode ∈ all := by
  cases opcode <;> decide

/-- A mnemonic is recognised in any case. -/
theorem ofMnemonic?_eq_some_iff {s : String} {opcode : Opcode} :
    ofMnemonic? s = some opcode ↔ Text.sameLetters s opcode.mnemonic = true :=
  Text.find?_keyword mem_all (by decide +kernel)

end Opcode

namespace ValueType

theorem mem_all (type : ValueType) : type ∈ all := by
  cases type <;> decide

theorem ofName?_eq_some_iff {s : String} {type : ValueType} :
    ofName? s = some type ↔ Text.sameLetters s type.name = true :=
  Text.find?_keyword mem_all (by decide)

/-- A type that is looked up in lower case is recognised in any case. -/
theorem ofName?_lower {s : String} {type : ValueType} :
    ofName? (Text.lower s) = some type ↔ Text.sameLetters s type.name = true := by
  rw [ofName?_eq_some_iff, Text.sameLetters_iff, Text.lower_lower, Text.sameLetters_iff]

end ValueType

/-! ## Orders -/

namespace Text.Numeral

theorem isDigit_of_digit? {c : Char} {n : Nat} (h : digit? 10 c = some n) : c.isDigit = true := by
  unfold digit? at h
  obtain ⟨hvalue, hlt⟩ := Option.filter_eq_some_iff.1 h
  split at hvalue
  · rename_i hrange
    simpa [Char.isDigit, Char.le_def] using hrange
  -- the values of letters are ten and more
  · split at hvalue
    · rename_i hrange
      have hle : 97 ≤ c.toNat := hrange.1
      injection hvalue with hvalue
      simp only [decide_eq_true_eq] at hlt
      omega
    · split at hvalue
      · rename_i hrange
        have hle : 65 ≤ c.toNat := hrange.1
        injection hvalue with hvalue
        simp only [decide_eq_true_eq] at hlt
        omega
      · cases hvalue

theorem isDigit_of_extend? {cs : List Char} {high n : Nat} (h : extend? 10 high cs = some n) :
    ∀ c ∈ cs, c.isDigit = true := by
  induction cs generalizing high with
  | nil => exact fun c hc => absurd hc List.not_mem_nil
  | cons d cs ih =>
      rw [extend?] at h
      split at h
      · rename_i low hlow
        intro c hc
        rcases List.mem_cons.1 hc with rfl | hc
        · exact isDigit_of_digit? hlow
        · exact ih h c hc
      · cases h

/-- The digits of an order are decimal, at least one, and read from the left. -/
theorem digits?_eq_some_iff {cs : List Char} {n : Nat} :
    digits? 10 cs = some n ↔
      cs ≠ [] ∧ (∀ c ∈ cs, c.isDigit = true) ∧ Nat.ofDigitChars 10 cs 0 = n := by
  cases cs with
  | nil => simp [digits?]
  | cons c cs =>
      rw [digits?]
      · constructor
        · intro h
          have hdigits := isDigit_of_extend? h
          rw [extend?_of_isDigit hdigits] at h
          exact ⟨List.cons_ne_nil c cs, hdigits, Option.some.inj h⟩
        · rintro ⟨-, hdigits, rfl⟩
          exact extend?_of_isDigit hdigits 0
      · exact List.cons_ne_nil c cs

end Text.Numeral

namespace Document

/-- A word is an order: decimal digits of a positive number of 64 bits. -/
structure IsOrder (word : String) (n : Nat) : Prop where
  nonempty : word ≠ ""
  digits : ∀ c ∈ word.toList, c.isDigit = true
  value : Nat.ofDigitChars 10 word.toList 0 = n
  range : 1 ≤ n ∧ n ≤ 2 ^ 64 - 1

/-- An order may stand between blanks. -/
theorem order?_eq_some_iff {s : String} {n : Nat} :
    order? s = some n ↔ IsOrder (Text.trim s) n := by
  have hsize : UInt64.size = 2 ^ 64 := rfl
  have hempty : (Text.trim s).toList ≠ [] ↔ Text.trim s ≠ "" := by
    rw [ne_eq, String.toList_eq_nil_iff]
  rw [order?, Option.filter_eq_some_iff, Text.Numeral.digits?_eq_some_iff, hempty,
    decide_eq_true_eq, hsize]
  constructor
  · rintro ⟨⟨hnonempty, hdigits, hvalue⟩, hrange⟩
    exact ⟨hnonempty, hdigits, hvalue, by omega⟩
  · rintro ⟨hnonempty, hdigits, hvalue, hrange⟩
    exact ⟨⟨hnonempty, hdigits, hvalue⟩, by omega⟩

end Document

end IppCode
