import IppCode.Proofs.CharacterArrays

/-!
# Characters and their codes

Two instructions go between characters and integers, the one from a code to a text of one
character, the other one from a character of a text to its code.  Not every integer is a code:
negative ones are not, nor are those behind the last code, nor the surrogates, which stand in the
middle of the range (`IsCode`).

For all others the two ways undo each other: `ofCode` and `code` are a bijection between the codes
and the characters (`ofCode_eq_ok_iff`).  On the way an integer is first made one of 32 bits without
a sign, which fails for some, and that is made a character, which fails for others
(`word?_eq_some_iff`, `ofWord?_eq_some_iff`).

A character and its code are read from a text in different ways, the one as the beginning of what
is left behind an index, the other one by its number.  Both see the same (`textAt_eq`,
`codeAt_eq`).
-/

namespace IppCode

namespace Characters

variable {n : Int64} {c : Char}

/-- The integer is the code of a character: one up to the last of them and no surrogate. -/
def IsCode (n : Int64) : Prop :=
  0 ≤ n.toInt ∧ n.toInt ≤ 0x10FFFF ∧ ¬ (0xD800 ≤ n.toInt ∧ n.toInt ≤ 0xDFFF)

instance (n : Int64) : Decidable (IsCode n) :=
  inferInstanceAs (Decidable (0 ≤ n.toInt ∧ n.toInt ≤ 0x10FFFF ∧
    ¬ (0xD800 ≤ n.toInt ∧ n.toInt ≤ 0xDFFF)))

theorem isCode_iff : IsCode n ↔ 0 ≤ n.toInt ∧ n.toInt.toNat.isValidChar := by
  unfold IsCode Nat.isValidChar
  omega

theorem toInt_code (c : Char) : (code c).toInt = c.toNat := by
  have hvalid : c.toNat < 0xD800 ∨ 0xDFFF < c.toNat ∧ c.toNat < 0x110000 := c.valid
  have hnonneg : (0 : Int) ≤ c.toNat := Int.natCast_nonneg _
  exact Int64.toInt_ofInt_of_le (by omega) (by omega)

theorem isCode_code (c : Char) : IsCode (code c) := by
  rw [isCode_iff, toInt_code, Int.toNat_natCast]
  exact ⟨Int.natCast_nonneg _, c.valid⟩

/-- Integers below zero and of more than 32 bits are lost. -/
theorem word?_eq_some_iff {u : UInt32} : word? n = some u ↔ n.toInt = u.toNat := by
  simp only [word?, Option.map_eq_some_iff, Option.filter_eq_some_iff, Int.mem_toNat?,
    decide_eq_true_eq]
  constructor
  · rintro ⟨k, ⟨hk, hlt⟩, rfl⟩
    rw [hk, UInt32.toNat_ofNat_of_lt' hlt]
  · intro h
    exact ⟨u.toNat, ⟨h, u.toNat_lt⟩, UInt32.ofNat_toNat⟩

/-- Surrogates and what is behind the last character are lost. -/
theorem ofWord?_eq_some_iff {u : UInt32} : ofWord? u = some c ↔ c.val = u := by
  unfold ofWord?
  constructor
  · intro h
    split at h
    · cases h
      rfl
    · cases h
  · rintro rfl
    rw [dif_pos c.valid]

theorem bind_ofWord?_eq_some_iff : (word? n).bind ofWord? = some c ↔ code c = n := by
  rw [Option.bind_eq_some_iff, ← Int64.toInt_inj, toInt_code]
  constructor
  · rintro ⟨u, hword, hscalar⟩
    rw [word?_eq_some_iff.1 hword, ← ofWord?_eq_some_iff.1 hscalar]
    rfl
  · intro h
    exact ⟨c.val, word?_eq_some_iff.2 h.symm, ofWord?_eq_some_iff.2 rfl⟩

/-- A character is found for an integer exactly if that is its code. -/
theorem ofCode_eq_ok_iff : ofCode n = .ok c ↔ code c = n := by
  rw [← bind_ofWord?_eq_some_iff, ofCode]
  cases (word? n).bind ofWord? <;> simp

theorem exists_ofCode (h : IsCode n) : ∃ c, ofCode n = .ok c ∧ code c = n := by
  obtain ⟨hnonneg, hvalid⟩ := isCode_iff.1 h
  have hcode : code (Char.ofNatAux n.toInt.toNat hvalid) = n := by
    rw [← Int64.toInt_inj, toInt_code]
    exact Int.toNat_of_nonneg hnonneg
  exact ⟨_, ofCode_eq_ok_iff.2 hcode, hcode⟩

theorem ofCode_eq_error (h : ¬ IsCode n) : ofCode n = .error (.codepoint n.toInt) := by
  unfold ofCode
  cases hfound : (word? n).bind ofWord? with
  | none => rfl
  | some c =>
      obtain rfl := bind_ofWord?_eq_some_iff.1 hfound
      exact absurd (isCode_code c) h

/-- The code is that of the character at the index, which is there whenever the index has a
place. -/
theorem codeAt_eq (s : String) (i : Int64) :
    codeAt s i = (charAt? s i).elim (.error (.outOfBounds i.toInt s.length))
      fun c => .ok (code c) := by
  rw [codeAt, place_eq]
  by_cases h : InBounds s i
  · obtain ⟨c, hc⟩ := exists_charAt? h
    rw [if_pos h, hc]
    rw [charAt?_of_nonneg h.1] at hc
    simp only [hc, Option.elim]
  · rw [if_neg h, charAt?_eq_none_iff.2 h]
    rfl

theorem charAt?_singleton (c : Char) : charAt? (String.singleton c) 0 = some c := by
  rw [charAt?_of_nonneg (by decide), String.toList_singleton]
  rfl

end Characters

/-! ## The operators -/

section Operators

open Characters

variable {n i : Int64} {s : String} {c : Char}

theorem eval_int2Char (h : code c = n) :
    UnaryOp.int2Char.eval (.int n) = .ok (.str (String.singleton c)) := by
  simp only [UnaryOp.eval, ofCode_eq_ok_iff.2 h]

theorem failsWith_int2Char (h : ¬ IsCode n) :
    FailsWith .string 58 (UnaryOp.int2Char.eval (.int n)) := by
  simp only [UnaryOp.eval, ofCode_eq_error h]
  exact failsWith_string _

theorem eval_stri2Int (s : String) (i : Int64) :
    BinaryOp.stri2Int.eval (.str s) (.int i) =
      (charAt? s i).elim (.error (.string (.outOfBounds i.toInt s.length)))
        fun c => .ok (.int (code c)) := by
  simp only [BinaryOp.eval, codeAt_eq]
  cases charAt? s i <;> rfl

theorem eval_stri2Int_of_some (h : charAt? s i = some c) :
    BinaryOp.stri2Int.eval (.str s) (.int i) = .ok (.int (code c)) := by
  rw [eval_stri2Int, h]
  rfl

/-- Reading a character and reading its code fail alike, or both see the same character. -/
theorem getChar_and_stri2Int (s : String) (i : Int64) :
    (∃ e, BinaryOp.stri2Int.eval (.str s) (.int i) = .error e ∧
      BinaryOp.getChar.eval (.str s) (.int i) = .error e) ∨
    ∃ c, BinaryOp.stri2Int.eval (.str s) (.int i) = .ok (.int (code c)) ∧
      BinaryOp.getChar.eval (.str s) (.int i) = .ok (.str (String.singleton c)) := by
  cases hchar : charAt? s i with
  | none =>
      refine .inl ⟨.string (.outOfBounds i.toInt s.length), ?_, ?_⟩
      · rw [eval_stri2Int, hchar]
        rfl
      · rw [eval_getChar, hchar]
        rfl
  | some c => exact .inr ⟨c, eval_stri2Int_of_some hchar, eval_getChar_of_some hchar⟩

/-- **Characters and their codes.**

* The code of a character is turned into a text of this one character, the code of which it is.
  Any other integer is an error of texts.
* The code of a character of a text can be read exactly where the character can, and else both fail
  with the same error.  Turned into a text, the code is that character. -/
theorem codes_and_characters (n : Int64) (s : String) (i : Int64) :
    (IsCode n → ∃ t, UnaryOp.int2Char.eval (.int n) = .ok (.str t) ∧
      UnaryOp.strlen.eval (.str t) = .ok (.int 1) ∧
      BinaryOp.stri2Int.eval (.str t) (.int 0) = .ok (.int n)) ∧
    (¬ IsCode n → FailsWith .string 58 (UnaryOp.int2Char.eval (.int n))) ∧
    ((∃ v, BinaryOp.stri2Int.eval (.str s) (.int i) = .ok v) ↔
      ∃ v, BinaryOp.getChar.eval (.str s) (.int i) = .ok v) ∧
    (∀ e, BinaryOp.stri2Int.eval (.str s) (.int i) = .error e ↔
      BinaryOp.getChar.eval (.str s) (.int i) = .error e) ∧
    ∀ v, BinaryOp.stri2Int.eval (.str s) (.int i) = .ok v →
      ∃ t, UnaryOp.int2Char.eval v = .ok (.str t) ∧
        BinaryOp.getChar.eval (.str s) (.int i) = .ok (.str t) := by
  refine ⟨?_, failsWith_int2Char, ?_⟩
  · intro hn
    obtain ⟨c, -, hc⟩ := exists_ofCode hn
    refine ⟨String.singleton c, eval_int2Char hc, eval_strlen_eq_ok_iff.2 ?_, ?_⟩
    · rw [String.length_singleton]
      rfl
    · rw [eval_stri2Int_of_some (charAt?_singleton c), hc]
  · rcases getChar_and_stri2Int s i with ⟨e, hcode, hchar⟩ | ⟨c, hcode, hchar⟩
    · rw [hcode, hchar]
      exact ⟨by simp, fun _ => .rfl, by simp⟩
    · rw [hcode, hchar]
      refine ⟨by simp, by simp, ?_⟩
      intro v hv
      cases hv
      exact ⟨String.singleton c, eval_int2Char rfl, rfl⟩

/-- A code of five hexadecimal digits, the first surrogate and the code behind the last one; and a
character that is read from the middle of a text. -/
theorem codes_and_characters_wide :
    (∃ t, UnaryOp.int2Char.eval (.int 0x1F600) = .ok (.str t) ∧
      BinaryOp.stri2Int.eval (.str t) (.int 0) = .ok (.int 0x1F600)) ∧
    FailsWith .string 58 (UnaryOp.int2Char.eval (.int 0xD800)) ∧
    FailsWith .string 58 (UnaryOp.int2Char.eval (.int 0x110000)) ∧
    BinaryOp.stri2Int.eval (.str "a😀b") (.int 1) = .ok (.int 0x1F600) ∧
    ∃ t, UnaryOp.int2Char.eval (.int 0x1F600) = .ok (.str t) ∧
      BinaryOp.getChar.eval (.str "a😀b") (.int 1) = .ok (.str t) := by
  obtain ⟨hcode, -, -, -, hread⟩ := codes_and_characters 0x1F600 "a😀b" 1
  obtain ⟨-, hsurrogate, -⟩ := codes_and_characters 0xD800 "" 0
  obtain ⟨-, hbehind, -⟩ := codes_and_characters 0x110000 "" 0
  obtain ⟨t, ht, -, hback⟩ := hcode (by decide)
  have hcharacter : BinaryOp.stri2Int.eval (.str "a😀b") (.int 1) = .ok (.int 0x1F600) :=
    eval_stri2Int_of_some (c := '😀') (by decide)
  exact ⟨⟨t, ht, hback⟩, hsurrogate (by decide), hbehind (by decide), hcharacter,
    hread _ hcharacter⟩

end Operators

end IppCode
