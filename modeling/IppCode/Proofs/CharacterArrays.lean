import IppCode.Proofs.Typing

/-!
# Texts as arrays of characters

The instructions on texts count characters from zero, by integers of 64 bits.  `charAt?` is what
they see of a text: the character at an index, if there is one.  Reading a character is looking
there, though what is read is the beginning of a rest of the text (`textAt_eq`).  Replacing one
changes what is seen at its index only (`charAt?_setAt`), and of two texts put together the second
one is seen behind the first (`charAt?_append_left`, `charAt?_append_right`).

A text is put together again from what is read of it, character by character (`spell_eq`).
-/

namespace IppCode

/-! ## What is seen of a text -/

namespace Characters

variable {s t r : String} {i j : Int64} {c : Char} {cs : List Char}

/-- The character of a text at an index. -/
def charAt? (s : String) (i : Int64) : Option Char :=
  if 0 ≤ i.toInt then s.toList[i.toInt.toNat]? else none

/-- The index is one of a text. -/
def InBounds (s : String) (i : Int64) : Prop :=
  0 ≤ i.toInt ∧ i.toInt < s.length

instance (s : String) (i : Int64) : Decidable (InBounds s i) :=
  inferInstanceAs (Decidable (0 ≤ i.toInt ∧ i.toInt < s.length))

/-- The text with a character replaced. -/
def setAt (s : String) (i : Int64) (c : Char) : String :=
  String.ofList (s.toList.set i.toInt.toNat c)

theorem InBounds.toNat_lt (h : InBounds s i) : i.toInt.toNat < s.toList.length := by
  obtain ⟨hnonneg, hlt⟩ := h
  rw [String.length_toList]
  omega

theorem charAt?_of_nonneg (h : 0 ≤ i.toInt) : charAt? s i = s.toList[i.toInt.toNat]? :=
  if_pos h

/-- Exactly the places within bounds have a character. -/
theorem charAt?_eq_none_iff : charAt? s i = none ↔ ¬ InBounds s i := by
  unfold charAt? InBounds
  rw [← String.length_toList]
  split
  · rw [List.getElem?_eq_none_iff]
    omega
  · exact iff_of_true rfl (by omega)

theorem exists_charAt? (h : InBounds s i) : ∃ c, charAt? s i = some c := by
  cases hchar : charAt? s i with
  | some c => exact ⟨c, rfl⟩
  | none => exact absurd h (charAt?_eq_none_iff.1 hchar)

theorem length_setAt (s : String) (i : Int64) (c : Char) : (setAt s i c).length = s.length := by
  rw [← String.length_toList, ← String.length_toList, setAt, String.toList_ofList, List.length_set]

theorem charAt?_setAt_self (h : InBounds s i) (c : Char) : charAt? (setAt s i c) i = some c := by
  rw [charAt?_of_nonneg h.1, setAt, String.toList_ofList, List.getElem?_set_self h.toNat_lt]

/-- All other characters stay. -/
theorem charAt?_setAt (hi : 0 ≤ i.toInt) (hne : j ≠ i) (c : Char) :
    charAt? (setAt s i c) j = charAt? s j := by
  unfold charAt?
  split
  · have hplace : i.toInt.toNat ≠ j.toInt.toNat := by
      intro heq
      apply hne
      apply Int64.toInt_inj.1
      omega
    rw [setAt, String.toList_ofList, List.getElem?_set_ne hplace]
  · rfl

theorem charAt?_append_left (h : InBounds s i) (t : String) : charAt? (s ++ t) i = charAt? s i := by
  rw [charAt?_of_nonneg h.1, charAt?_of_nonneg h.1, String.toList_append,
    List.getElem?_append_left h.toNat_lt]

/-- The places of the second text are shifted by the length of the first. -/
theorem charAt?_append_right (h : s.length ≤ i.toInt) (hj : j.toInt = i.toInt - s.length)
    (t : String) : charAt? (s ++ t) i = charAt? t j := by
  have hle : s.toList.length ≤ i.toInt.toNat := by
    rw [String.length_toList]
    omega
  have hindex : i.toInt.toNat - s.toList.length = j.toInt.toNat := by
    rw [String.length_toList]
    omega
  rw [charAt?_of_nonneg (by omega), charAt?_of_nonneg (by omega), String.toList_append,
    List.getElem?_append_right hle, hindex]

/-! ## Reading and replacing -/

/-- A place is checked once for all operations, with one error. -/
theorem place_eq (s : String) (i : Int64) :
    place i s.length =
      if InBounds s i then .ok i.toInt.toNat else .error (.outOfBounds i.toInt s.length) := by
  have hfound : ∀ k, i.toInt.toNat?.filter (· < s.length) = some k ↔
      InBounds s i ∧ i.toInt.toNat = k := by
    intro k
    simp only [Option.filter_eq_some_iff, Int.mem_toNat?, decide_eq_true_eq, InBounds]
    omega
  unfold place
  cases hplace : i.toInt.toNat?.filter (· < s.length) with
  | some k =>
      obtain ⟨hbounds, rfl⟩ := (hfound k).1 hplace
      rw [if_pos hbounds]
  | none =>
      have hbounds : ¬ InBounds s i := by
        intro hbounds
        rw [(hfound _).2 ⟨hbounds, rfl⟩] at hplace
        cases hplace
      rw [if_neg hbounds]

/-- The rest of a text from an index on begins with the character at the index. -/
theorem textAt_eq (s : String) (i : Int64) :
    textAt s i = (charAt? s i).elim (.error (.outOfBounds i.toInt s.length))
      fun c => .ok (String.singleton c) := by
  rw [textAt, place_eq]
  by_cases h : InBounds s i
  · obtain ⟨c, hc⟩ := exists_charAt? h
    rw [if_pos h, hc]
    rw [charAt?_of_nonneg h.1] at hc
    have hfirst : (s.toList.drop i.toInt.toNat).take 1 = [c] := by
      rw [List.take_one, List.head?_drop, hc]
      rfl
    simp only [hfirst, Option.elim]
    rfl
  · rw [if_neg h, charAt?_eq_none_iff.2 h]
    rfl

/-- To replace a character wherever one is at its place is to replace the one that is there. -/
theorem mapIdx_replace {α : Type} (l : List α) (k : Nat) (new : α) :
    l.mapIdx (fun position a => if position = k then new else a) = l.set k new := by
  apply List.ext_getElem (by simp)
  intro position hposition _
  simp only [List.getElem_mapIdx, List.getElem_set, eq_comm]

theorem set_eq_ok (h : InBounds s i) (hr : r.toList = c :: cs) :
    set s i r = .ok (setAt s i c) := by
  simp only [set, place_eq, if_pos h, hr, List.head?_cons, setAt, mapIdx_replace]

theorem exists_set_eq_error (h : ¬ (InBounds s i ∧ r ≠ "")) : ∃ e, set s i r = .error e := by
  by_cases hbounds : InBounds s i
  · have hempty : r.toList = [] := by
      rw [String.toList_eq_nil_iff]
      exact Decidable.of_not_not fun hne => h ⟨hbounds, hne⟩
    exact ⟨.emptyReplacement, by simp only [set, place_eq, if_pos hbounds, hempty, List.head?_nil]⟩
  · exact ⟨.outOfBounds i.toInt s.length, by simp only [set, place_eq, if_neg hbounds]⟩

end Characters

/-! ## The operators -/

/-- The result is an error of a kind, which leads to an exit code. -/
def FailsWith (kind : ErrorKind) (code : Nat) (result : Except ExecError Value) : Prop :=
  ∃ e, result = .error e ∧ e.kind = kind ∧ e.code = code

theorem failsWith_string (why : StringError) : FailsWith .string 58 (.error (.string why)) :=
  ⟨_, rfl, rfl, rfl⟩

theorem failsWith_mismatch (opcode : Opcode) (values : List Value) :
    FailsWith .operandType 53 (.error (mismatch opcode values)) :=
  ⟨_, rfl, rfl, rfl⟩

section Operators

open Characters

variable {s t r : String} {i j : Int64} {c : Char}

/-- A character that is not there is an error with the place and the length. -/
theorem eval_getChar (s : String) (i : Int64) :
    BinaryOp.getChar.eval (.str s) (.int i) =
      (charAt? s i).elim (.error (.string (.outOfBounds i.toInt s.length)))
        fun c => .ok (.str (String.singleton c)) := by
  simp only [BinaryOp.eval, textAt_eq]
  cases charAt? s i <;> rfl

theorem eval_getChar_of_some (h : charAt? s i = some c) :
    BinaryOp.getChar.eval (.str s) (.int i) = .ok (.str (String.singleton c)) := by
  rw [eval_getChar, h]
  rfl

theorem failsWith_getChar (h : ¬ InBounds s i) :
    FailsWith .string 58 (BinaryOp.getChar.eval (.str s) (.int i)) := by
  rw [eval_getChar, charAt?_eq_none_iff.2 h]
  exact failsWith_string _

/-- Texts of one length that look alike at an index are read alike there. -/
theorem eval_getChar_congr (hlength : t.length = s.length) (h : charAt? t i = charAt? s i) :
    BinaryOp.getChar.eval (.str t) (.int i) = BinaryOp.getChar.eval (.str s) (.int i) := by
  rw [eval_getChar, eval_getChar, h, hlength]

/-- Texts that look alike at two of their indices are read alike there. -/
theorem eval_getChar_of_inBounds (hi : InBounds s i) (h : charAt? t j = charAt? s i) :
    BinaryOp.getChar.eval (.str t) (.int j) = BinaryOp.getChar.eval (.str s) (.int i) := by
  obtain ⟨c, hc⟩ := exists_charAt? hi
  rw [eval_getChar_of_some hc, eval_getChar_of_some (h.trans hc)]

theorem eval_strlen_eq_ok_iff {n : Int64} :
    UnaryOp.strlen.eval (.str s) = .ok (.int n) ↔ n.toInt = s.length := by
  have hlength : length? s = some n ↔ n.toInt = s.length := int64?_eq_some_iff
  rw [← hlength]
  cases h : length? s with
  | none => simp [UnaryOp.eval, h]
  | some length => simp [UnaryOp.eval, h]

theorem eval_strlen_congr (h : t.length = s.length) :
    UnaryOp.strlen.eval (.str t) = UnaryOp.strlen.eval (.str s) := by
  have hlength : length? t = length? s := by rw [length?, h, length?]
  cases hs : length? s with
  | none => simp only [UnaryOp.eval, hlength.trans hs, hs]
  | some n => simp only [UnaryOp.eval, hlength.trans hs, hs]

theorem eval_concat (s t : String) :
    BinaryOp.concat.eval (.str s) (.str t) = .ok (.str (s ++ t)) := by
  simp only [BinaryOp.eval]

/-- An index behind a first text is an index of the second one, less the length of the first. -/
theorem exists_index_behind (h : s.length ≤ i.toInt) :
    ∃ n, UnaryOp.strlen.eval (.str s) = .ok (.int n) ∧ (i - n).toInt = i.toInt - s.length := by
  have hlt := i.toInt_lt
  have hn : (Int64.ofInt s.length).toInt = s.length := Int64.toInt_ofInt_of_le (by omega) (by omega)
  refine ⟨Int64.ofInt s.length, eval_strlen_eq_ok_iff.2 hn, ?_⟩
  rw [Int64.toInt_sub, hn]
  exact Int.bmod_eq_of_le (by omega) (by omega)

theorem evalSetChar_eq_ok (h : InBounds s i) (hr : r ≠ "") :
    ∃ c, charAt? r 0 = some c ∧
      evalSetChar (.str s) (.int i) (.str r) = .ok (.str (setAt s i c)) := by
  obtain ⟨c, cs, hchars⟩ := List.exists_cons_of_ne_nil (mt String.toList_eq_nil_iff.1 hr)
  refine ⟨c, ?_, ?_⟩
  · rw [charAt?_of_nonneg (by decide), hchars]
    rfl
  · simp only [evalSetChar, set_eq_ok h hchars]

theorem failsWith_setChar (h : ¬ (InBounds s i ∧ r ≠ "")) :
    FailsWith .string 58 (evalSetChar (.str s) (.int i) (.str r)) := by
  obtain ⟨e, he⟩ := exists_set_eq_error h
  simp only [evalSetChar, he]
  exact failsWith_string e

/-! ## Operands of other types -/

variable {v w u : Value}

theorem failsWith_of_unary {f : UnaryOp} {type : ValueType} (hf : f.opcode.symbolTypes = [[type]])
    (h : v.type ≠ type) : FailsWith .operandType 53 (f.eval v) := by
  rw [UnaryOp.eval_eq_mismatch_iff.2 (mt (Opcode.typed_single hf).1 h)]
  exact failsWith_mismatch _ _

/-- An operator of two symbols fails for a wrong type of any of them. -/
theorem failsWith_of_binary {f : BinaryOp} {type type' : ValueType}
    (hf : f.opcode.symbolTypes = [[type], [type']]) (hpairing : f.opcode.pairing = .independent)
    (h : ¬ (v.type = type ∧ w.type = type')) : FailsWith .operandType 53 (f.eval v w) := by
  rw [BinaryOp.eval_eq_mismatch_iff.2 (mt (Opcode.typed_pair hf hpairing).1 h)]
  exact failsWith_mismatch _ _

theorem failsWith_setChar_types (h : ¬ (v.type = .string ∧ w.type = .int ∧ u.type = .string)) :
    FailsWith .operandType 53 (evalSetChar v w u) := by
  unfold evalSetChar
  split
  · exact absurd ⟨rfl, rfl, rfl⟩ h
  · exact failsWith_mismatch _ _

/-! ## Spelling -/

/-- The characters of a text before an index, read one after the other and put together. -/
def spell (s : String) : Nat → Except ExecError Value
  | 0 => .ok (.str "")
  | k + 1 => do
    let front ← spell s k
    let c ← BinaryOp.getChar.eval (.str s) (.int (Int64.ofNat k))
    BinaryOp.concat.eval front c

theorem spell_succ {k : Nat} {front : String} (hfront : spell s k = .ok (.str front))
    (hc : charAt? s (Int64.ofNat k) = some c) :
    spell s (k + 1) = .ok (.str (front ++ String.singleton c)) := by
  rw [spell, hfront, eval_getChar_of_some hc]
  exact eval_concat _ _

/-- What has been spelled is the beginning of the text. -/
theorem spell_eq {k : Nat} (hk : k ≤ s.length) (hfits : k ≤ 9223372036854775807) :
    spell s k = .ok (.str (String.ofList (s.toList.take k))) := by
  induction k with
  | zero => rfl
  | succ k ih =>
      have hlt : k < s.toList.length := by
        rw [String.length_toList]
        omega
      have hindex : (Int64.ofNat k).toInt = k := Int64.toInt_ofNat_of_lt (by omega)
      have hc : charAt? s (Int64.ofNat k) = some (s.toList.get ⟨k, hlt⟩) := by
        rw [charAt?_of_nonneg (by omega), hindex, Int.toNat_natCast, List.getElem?_eq_getElem hlt]
        rfl
      rw [spell_succ (ih (by omega) (by omega)) hc]
      apply congrArg (Except.ok ∘ Value.str)
      apply String.toList_injective
      rw [String.toList_append, String.toList_ofList, String.toList_ofList, String.toList_singleton]
      exact (List.take_succ_eq_append_getElem hlt).symm

/-- A text is spelled by the characters that its length announces. -/
theorem spell_strlen {n : Int64} (h : UnaryOp.strlen.eval (.str s) = .ok (.int n)) :
    spell s n.toInt.toNat = .ok (.str s) := by
  rw [eval_strlen_eq_ok_iff] at h
  have hlt := n.toInt_lt
  rw [spell_eq (by omega) (by omega), List.take_of_length_le, String.ofList_toList]
  rw [String.length_toList]
  omega

/-! ## The laws -/

/-- **Texts are arrays of characters.**

* The length is the number of characters.  A character can be read at the indices below it, and
  reading anywhere else is an error of texts.
* At an index of a text its character can be replaced by the first one of a text that is not empty.
  Then the length is as before, at this index the other character is read, and at all others what
  was read there before.  Replacing is an error of texts otherwise.
* Two texts put together are as long as both, and their characters are those of the first one and
  then those of the second one.
* A text is what its characters put together are.
* Operands of other types are an error of types, whatever the other operands are. -/
theorem texts_are_arrays (s t r : String) (i : Int64) :
    (∀ n, UnaryOp.strlen.eval (.str s) = .ok (.int n) ↔ n.toInt = s.length) ∧
    (InBounds s i → ∃ c, s.toList[i.toInt.toNat]? = some c ∧
      BinaryOp.getChar.eval (.str s) (.int i) = .ok (.str (String.singleton c))) ∧
    (¬ InBounds s i → FailsWith .string 58 (BinaryOp.getChar.eval (.str s) (.int i))) ∧
    (InBounds s i ∧ r ≠ "" → ∃ u, evalSetChar (.str s) (.int i) (.str r) = .ok (.str u) ∧
      UnaryOp.strlen.eval (.str u) = UnaryOp.strlen.eval (.str s) ∧
      BinaryOp.getChar.eval (.str u) (.int i) = BinaryOp.getChar.eval (.str r) (.int 0) ∧
      ∀ j, j ≠ i →
        BinaryOp.getChar.eval (.str u) (.int j) = BinaryOp.getChar.eval (.str s) (.int j)) ∧
    (¬ (InBounds s i ∧ r ≠ "") →
      FailsWith .string 58 (evalSetChar (.str s) (.int i) (.str r))) ∧
    (∃ u, BinaryOp.concat.eval (.str s) (.str t) = .ok (.str u) ∧
      (∀ n, UnaryOp.strlen.eval (.str u) = .ok (.int n) ↔ n.toInt = s.length + t.length) ∧
      (InBounds s i →
        BinaryOp.getChar.eval (.str u) (.int i) = BinaryOp.getChar.eval (.str s) (.int i)) ∧
      (s.length ≤ i.toInt → i.toInt < s.length + t.length →
        ∃ n, UnaryOp.strlen.eval (.str s) = .ok (.int n) ∧
          BinaryOp.getChar.eval (.str u) (.int i) =
            BinaryOp.getChar.eval (.str t) (.int (i - n)))) ∧
    (∀ n, UnaryOp.strlen.eval (.str s) = .ok (.int n) → spell s n.toInt.toNat = .ok (.str s)) ∧
    ∀ v w u : Value,
      (v.type ≠ .string → FailsWith .operandType 53 (UnaryOp.strlen.eval v)) ∧
      (¬ (v.type = .string ∧ w.type = .int) →
        FailsWith .operandType 53 (BinaryOp.getChar.eval v w)) ∧
      (¬ (v.type = .string ∧ w.type = .string) →
        FailsWith .operandType 53 (BinaryOp.concat.eval v w)) ∧
      (¬ (v.type = .string ∧ w.type = .int ∧ u.type = .string) →
        FailsWith .operandType 53 (evalSetChar v w u)) := by
  refine ⟨fun n => eval_strlen_eq_ok_iff, ?_, failsWith_getChar, ?_, failsWith_setChar, ?_,
    fun n => spell_strlen, ?_⟩
  · intro hi
    obtain ⟨c, hc⟩ := exists_charAt? hi
    exact ⟨c, (charAt?_of_nonneg hi.1).symm.trans hc, eval_getChar_of_some hc⟩
  · rintro ⟨hi, hr⟩
    obtain ⟨c, hc, hset⟩ := evalSetChar_eq_ok hi hr
    have hlength := length_setAt s i c
    refine ⟨setAt s i c, hset, eval_strlen_congr hlength, ?_, ?_⟩
    · rw [eval_getChar_of_some hc, eval_getChar_of_some (charAt?_setAt_self hi c)]
    · intro j hj
      exact eval_getChar_congr hlength (charAt?_setAt hi.1 hj c)
  · refine ⟨s ++ t, eval_concat s t, ?_, ?_, ?_⟩
    · intro n
      rw [eval_strlen_eq_ok_iff, String.length_append, Int.natCast_add]
    · intro hi
      exact eval_getChar_of_inBounds hi (charAt?_append_left hi t)
    · intro hge hlt
      obtain ⟨n, hn, hindex⟩ := exists_index_behind hge
      have hbounds : InBounds t (i - n) := ⟨by omega, by omega⟩
      exact ⟨n, hn, eval_getChar_of_inBounds hbounds (charAt?_append_right hge hindex t)⟩
  · intro v w u
    exact ⟨failsWith_of_unary rfl, failsWith_of_binary rfl rfl, failsWith_of_binary rfl rfl,
      failsWith_setChar_types⟩

/-- A character of four bytes is replaced by one of two, and a character behind it is read, in the
text and across the seam of two texts. -/
theorem texts_are_arrays_wide :
    ∃ u, evalSetChar (.str "a😀b") (.int 1) (.str "ř!") = .ok (.str u) ∧
      BinaryOp.getChar.eval (.str u) (.int 1) = BinaryOp.getChar.eval (.str "ř!") (.int 0) ∧
      BinaryOp.getChar.eval (.str u) (.int 2) = BinaryOp.getChar.eval (.str "a😀b") (.int 2) ∧
      (∃ n, UnaryOp.strlen.eval (.str "a😀b") = .ok (.int n) ∧
        BinaryOp.getChar.eval (.str ("a😀b" ++ "ž")) (.int 3) =
          BinaryOp.getChar.eval (.str "ž") (.int (3 - n))) ∧
      FailsWith .string 58 (BinaryOp.getChar.eval (.str "a😀b") (.int 3)) ∧
      spell "a😀b" 3 = .ok (.str "a😀b") := by
  obtain ⟨hlength, -, -, hset, -, -, hspell, -⟩ := texts_are_arrays "a😀b" "" "ř!" 1
  obtain ⟨-, -, hbehind, -, -, ⟨v, hjoined, -, -, hseam⟩, -⟩ := texts_are_arrays "a😀b" "ž" "" 3
  obtain ⟨u, hu, -, hread, hothers⟩ := hset ⟨by decide, by decide⟩
  cases hjoined
  exact ⟨u, hu, hread, hothers 2 (by decide), hseam (by decide) (by decide), hbehind (by decide),
    hspell 3 ((hlength 3).2 (by decide))⟩

end Operators

end IppCode
