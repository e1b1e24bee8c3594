import Mathlib.Data.List.Forall2
import Mathlib.Data.Nat.Digits.Defs
import IppCode.Proofs.IntegerArithmetic
import IppCode.Proofs.LiteralText
import IppCode.Proofs.TextBytes

/-!
# The grammar of numerals

`Writes` says which texts write an integer, and which one: an optional sign, a mark of the base
or none, and one or more digits, counted by their places.  `Numeral.read?` reads exactly the
texts that write an integer of 64 bits, as that integer.

The reader looks at characters.  All characters of a numeral are below 128, so it makes no
difference if the bytes of a text are looked at instead, whatever else the text holds
(`read_bytes`).  Nor does it if the sign and the mark are cut off as bytes: what is left behind
them is the bytes of a text (`exists_cutSign`, `exists_cutMark`).
-/

namespace IppCode.Text.Numeral

/-- A digit of a base and its value.  From ten on digits are letters, in either case. -/
def IsDigit (base : Nat) (c : Char) (value : Nat) : Prop :=
  value < base ∧
    ("0123456789abcdef".toList[value]? = some c ∨ "0123456789ABCDEF".toList[value]? = some c)

/-- Digits of a base that write a number, the most significant one first. -/
def WritesDigits (base : Nat) (cs : List Char) (n : Nat) : Prop :=
  cs ≠ [] ∧
    ∃ values, List.Forall₂ (IsDigit base) cs values ∧ n = Nat.ofDigits base values.reverse

/-- Texts without a sign that write a number. -/
inductive WritesMagnitude : List Char → Nat → Prop
  | hexadecimal {mark : Char} {cs : List Char} {n : Nat} (hmark : mark = 'x' ∨ mark = 'X')
      (h : WritesDigits 16 cs n) : WritesMagnitude ('0' :: mark :: cs) n
  | octal {mark : Char} {cs : List Char} {n : Nat} (hmark : mark = 'o' ∨ mark = 'O')
      (h : WritesDigits 8 cs n) : WritesMagnitude ('0' :: mark :: cs) n
  | decimal {cs : List Char} {n : Nat} (h : WritesDigits 10 cs n) : WritesMagnitude cs n

/-- Texts that write an integer. -/
inductive Writes : List Char → Int → Prop
  | bare {cs : List Char} {n : Nat} (h : WritesMagnitude cs n) : Writes cs n
  | plus {cs : List Char} {n : Nat} (h : WritesMagnitude cs n) : Writes ('+' :: cs) n
  | minus {cs : List Char} {n : Nat} (h : WritesMagnitude cs n) : Writes ('-' :: cs) (-n)

/-! ## Digits -/

theorem ofNat_eq_iff {c : Char} {n : Nat} (h : n < 256) : Char.ofNat n = c ↔ c.toNat = n := by
  have hvalid : n.isValidChar := .inl (by omega)
  constructor
  · rintro rfl
    rw [Char.ofNat, dif_pos hvalid]
    rfl
  · rintro rfl
    exact Char.ofNat_toNat c

/-- In a row of sixteen digits the letters stand at an offset of their own. -/
theorem getElem?_row_eq_some_iff {row : List Char} {offset : Nat} (hoffset : offset < 240)
    (hlength : row.length = 16)
    (hrow : ∀ d < 16, row[d]? = some (Char.ofNat (if d < 10 then 48 + d else offset + d)))
    {c : Char} {d : Nat} :
    row[d]? = some c ↔
      d < 10 ∧ c.toNat = 48 + d ∨ 10 ≤ d ∧ d < 16 ∧ c.toNat = offset + d := by
  rcases Nat.lt_or_ge d 16 with hd | hd
  · rw [hrow d hd, Option.some.injEq]
    split_ifs with hten
    · rw [ofNat_eq_iff (by omega)]
      omega
    · rw [ofNat_eq_iff (by omega)]
      omega
  · rw [List.getElem?_eq_none (by omega)]
    exact iff_of_false (by simp) (by omega)

/-- The codes of digits. -/
theorem isDigit_iff {base : Nat} {c : Char} {d : Nat} :
    IsDigit base c d ↔ d < base ∧
      (d < 10 ∧ c.toNat = 48 + d ∨
        10 ≤ d ∧ d < 16 ∧ (c.toNat = 87 + d ∨ c.toNat = 55 + d)) := by
  have hlower : ∀ d < 16, "0123456789abcdef".toList[d]? =
      some (Char.ofNat (if d < 10 then 48 + d else 87 + d)) := by decide
  have hupper : ∀ d < 16, "0123456789ABCDEF".toList[d]? =
      some (Char.ofNat (if d < 10 then 48 + d else 55 + d)) := by decide
  rw [IsDigit, getElem?_row_eq_some_iff (by decide) rfl hlower,
    getElem?_row_eq_some_iff (by decide) rfl hupper]
  refine and_congr_right fun _ => ?_
  omega

theorem IsDigit.lt_ascii {base : Nat} {c : Char} {d : Nat} (h : IsDigit base c d) :
    c.toNat < 128 := by
  rw [isDigit_iff] at h
  omega

theorem digit?_eq_some_iff {base : Nat} {c : Char} {d : Nat} :
    digit? base c = some d ↔ IsDigit base c d := by
  have hle : ∀ a b : Char, a ≤ b ↔ a.toNat ≤ b.toNat := fun _ _ => Iff.rfl
  have hcodes : '0'.toNat = 48 ∧ '9'.toNat = 57 ∧ 'a'.toNat = 97 ∧ 'f'.toNat = 102 ∧
      'A'.toNat = 65 ∧ 'F'.toNat = 70 := by decide
  obtain ⟨h0, h9, ha, hf, hA, hF⟩ := hcodes
  unfold digit?
  rw [isDigit_iff, Option.filter_eq_some_iff, decide_eq_true_eq, and_comm]
  refine and_congr_right fun _ => ?_
  simp only [hle, h0, h9, ha, hf, hA, hF]
  split_ifs with hdecimal hlower hupper
  · rw [Option.some.injEq]
    omega
  · rw [Option.some.injEq]
    omega
  · rw [Option.some.injEq]
    omega
  · refine iff_of_false (by simp) (by omega)

/-- Digits continue what stands before them, moved up by as many places as they have. -/
theorem extend?_eq_some_iff {base high n : Nat} {cs : List Char} :
    extend? base high cs = some n ↔
      ∃ values, List.Forall₂ (IsDigit base) cs values ∧
        n = high * base ^ values.length + Nat.ofDigits base values.reverse := by
  induction cs generalizing high with
  | nil =>
      rw [extend?, Option.some.injEq]
      constructor
      · rintro rfl
        exact ⟨[], .nil, by simp⟩
      · rintro ⟨values, hvalues, rfl⟩
        cases hvalues
        simp
  | cons c cs ih =>
      -- one more digit moves what stands before it up by one place
      have hplace : ∀ (low : Nat) (values : List Nat),
          (high * base + low) * base ^ values.length + Nat.ofDigits base values.reverse =
            high * base ^ (low :: values).length +
              Nat.ofDigits base (low :: values).reverse := by
        intro low values
        rw [Nat.ofDigits_reverse_cons, List.length_cons, pow_succ]
        ring
      rw [extend?]
      constructor
      · intro h
        split at h
        · rename_i low hlow
          obtain ⟨values, hvalues, rfl⟩ := ih.1 h
          exact ⟨low :: values, .cons (digit?_eq_some_iff.1 hlow) hvalues, hplace low values⟩
        · cases h
      · rintro ⟨values, hvalues, rfl⟩
        obtain ⟨low, values, hlow, hrest, rfl⟩ := List.forall₂_cons_left_iff.1 hvalues
        rw [digit?_eq_some_iff.2 hlow]
        exact ih.2 ⟨values, hrest, (hplace low values).symm⟩

theorem digits?_iff_writesDigits {base n : Nat} {cs : List Char} :
    digits? base cs = some n ↔ WritesDigits base cs n := by
  unfold WritesDigits
  cases cs with
  | nil => simp [digits?]
  | cons c cs =>
      rw [digits?]
      · simp [extend?_eq_some_iff]
      · exact List.cons_ne_nil c cs

/-! ## Marks and signs -/

theorem WritesDigits.isDigit_of_mem {base n : Nat} {cs : List Char} (h : WritesDigits base cs n) :
    ∀ c ∈ cs, ∃ d, IsDigit base c d := by
  obtain ⟨-, values, hvalues, -⟩ := h
  induction hvalues with
  | nil => simp
  | cons hd _ ih => exact List.forall_mem_cons.2 ⟨⟨_, hd⟩, ih⟩

/-- What stands first in a number is a decimal digit. -/
theorem WritesMagnitude.isDigit_head {c : Char} {cs : List Char} {n : Nat}
    (h : WritesMagnitude (c :: cs) n) : ∃ d, IsDigit 10 c d := by
  cases h with
  | hexadecimal | octal => exact ⟨0, digit?_eq_some_iff.1 (by decide)⟩
  | decimal h => exact h.isDigit_of_mem c List.mem_cons_self

/-- A letter in the second place is a mark. -/
theorem not_writesDigits_of_mark {mark : Char} (h : digit? 10 mark = none) (cs : List Char)
    (n : Nat) : ¬ WritesDigits 10 ('0' :: mark :: cs) n := by
  intro hwrites
  obtain ⟨d, hd⟩ := hwrites.isDigit_of_mem mark (by simp)
  rw [← digit?_eq_some_iff, h] at hd
  cases hd

theorem magnitude?_eq_some_iff {cs : List Char} {n : Nat} :
    magnitude? cs = some n ↔ WritesMagnitude cs n := by
  fun_cases magnitude? cs with
  -- behind a mark there is no other reading: the letter of the mark is not a decimal digit
  | case1 rest | case2 rest =>
      rw [digits?_iff_writesDigits]
      constructor
      · intro h
        exact .hexadecimal (by simp) h
      · intro h
        cases h with
        | hexadecimal _ h => exact h
        | octal hmark _ => simp at hmark
        | decimal h => exact absurd h (not_writesDigits_of_mark (by decide) rest n)
  | case3 rest | case4 rest =>
      rw [digits?_iff_writesDigits]
      constructor
      · intro h
        exact .octal (by simp) h
      · intro h
        cases h with
        | hexadecimal hmark _ => simp at hmark
        | octal _ h => exact h
        | decimal h => exact absurd h (not_writesDigits_of_mark (by decide) rest n)
  | case5 cs hlower hupper hlower' hupper' =>
      rw [digits?_iff_writesDigits]
      constructor
      · intro h
        exact .decimal h
      · intro h
        cases h with
        | hexadecimal hmark _ =>
            rcases hmark with rfl | rfl
            · exact absurd rfl (hlower _)
            · exact absurd rfl (hupper _)
        | octal hmark _ =>
            rcases hmark with rfl | rfl
            · exact absurd rfl (hlower' _)
            · exact absurd rfl (hupper' _)
        | decimal h => exact h

theorem not_writesMagnitude_of_sign {sign : Char} (h : digit? 10 sign = none) (cs : List Char)
    (n : Nat) : ¬ WritesMagnitude (sign :: cs) n := by
  intro hwrites
  obtain ⟨d, hd⟩ := hwrites.isDigit_head
  rw [← digit?_eq_some_iff, h] at hd
  cases hd

theorem map_magnitude?_eq_some_iff {f : Nat → Int} {cs : List Char} {n : Int} :
    (magnitude? cs).map f = some n ↔ ∃ k, WritesMagnitude cs k ∧ f k = n := by
  simp only [Option.map_eq_some_iff, magnitude?_eq_some_iff]

theorem integer?_eq_some_iff {cs : List Char} {n : Int} :
    integer? cs = some n ↔ Writes cs n := by
  fun_cases integer? cs with
  | case1 rest =>
      rw [map_magnitude?_eq_some_iff]
      constructor
      · rintro ⟨k, hk, rfl⟩
        exact .minus hk
      · intro h
        cases h with
        | bare h => exact absurd h (not_writesMagnitude_of_sign (by decide) rest _)
        | minus h => exact ⟨_, h, rfl⟩
  | case2 rest =>
      rw [map_magnitude?_eq_some_iff]
      constructor
      · rintro ⟨k, hk, rfl⟩
        exact .plus hk
      · intro h
        cases h with
        | bare h => exact absurd h (not_writesMagnitude_of_sign (by decide) rest _)
        | plus h => exact ⟨_, h, rfl⟩
  | case3 cs hminus hplus =>
      rw [map_magnitude?_eq_some_iff]
      constructor
      · rintro ⟨k, hk, rfl⟩
        exact .bare hk
      · intro h
        cases h with
        | bare h => exact ⟨_, h, rfl⟩
        | plus h => exact absurd rfl (hplus _)
        | minus h => exact absurd rfl (hminus _)

theorem read?_eq_some_iff {s : String} {v : Int64} :
    read? s = some v ↔ Writes s.toList v.toInt := by
  rw [read?, Option.bind_eq_bind, Option.bind_eq_some_iff]
  constructor
  · rintro ⟨n, hn, hv⟩
    rw [int64?_eq_some_iff.1 hv]
    exact integer?_eq_some_iff.1 hn
  · intro h
    exact ⟨v.toInt, integer?_eq_some_iff.2 h, int64?_eq_some_iff.2 rfl⟩

theorem read?_eq_none_iff {s : String} :
    read? s = none ↔ ∀ n, Writes s.toList n → ¬ Arithmetic.Fits n := by
  constructor
  · intro h n hn hfits
    cases hv : int64? n with
    | none => exact int64?_eq_none_iff.1 hv hfits
    | some v =>
        rw [← int64?_eq_some_iff.1 hv, ← read?_eq_some_iff, h] at hn
        cases hn
  · intro h
    cases hread : read? s with
    | none => rfl
    | some v => exact absurd (Arithmetic.fits_toInt v) (h _ (read?_eq_some_iff.1 hread))

/-! ## Reading bytes -/

/-- A byte taken for a character. -/
def byteChar (b : UInt8) : Char :=
  Char.ofNat b.toNat

theorem toNat_byteChar (b : UInt8) : (byteChar b).toNat = b.toNat :=
  (ofNat_eq_iff b.toNat_lt).1 rfl

theorem WritesDigits.lt_ascii {base n : Nat} {cs : List Char} (h : WritesDigits base cs n) :
    ∀ c ∈ cs, c.toNat < 128 := by
  intro c hc
  obtain ⟨d, hd⟩ := h.isDigit_of_mem c hc
  exact hd.lt_ascii

theorem WritesMagnitude.lt_ascii {cs : List Char} {n : Nat} (h : WritesMagnitude cs n) :
    ∀ c ∈ cs, c.toNat < 128 := by
  cases h with
  | hexadecimal hmark h | octal hmark h =>
      refine List.forall_mem_cons.2 ⟨by decide, List.forall_mem_cons.2 ⟨?_, h.lt_ascii⟩⟩
      rcases hmark with rfl | rfl <;> decide
  | decimal h => exact h.lt_ascii

theorem Writes.lt_ascii {cs : List Char} {n : Int} (h : Writes cs n) :
    ∀ c ∈ cs, c.toNat < 128 := by
  cases h with
  | bare h => exact h.lt_ascii
  | plus h | minus h => exact List.forall_mem_cons.2 ⟨by decide, h.lt_ascii⟩

/-- A text of characters below 128 is read off its bytes. -/
theorem map_byteChar_encode {cs : List Char} (h : ∀ c ∈ cs, c.toNat < 128) :
    (cs.flatMap String.utf8EncodeChar).map byteChar = cs := by
  induction cs with
  | nil => rfl
  | cons c cs ih =>
      obtain ⟨hc, hcs⟩ := List.forall_mem_cons.1 h
      have hbyte : byteChar (UInt8.ofNat c.toNat) = c := by
        rw [byteChar, UInt8.toNat_ofNat_of_lt' (Nat.lt_trans hc (by decide)), Char.ofNat_toNat]
      rw [List.flatMap_cons, List.map_append, ih hcs, Utf8.encodeChar_of_lt hc,
        List.map_singleton, hbyte, List.singleton_append]

/-- Other characters leave a byte of 128 or more. -/
theorem lt_ascii_of_bytes {s : String} (h : ∀ b ∈ Utf8.encode s, b.toNat < 128) :
    ∀ c ∈ s.toList, c.toNat < 128 := by
  intro c hc
  rcases Nat.lt_or_ge c.toNat 128 with hlt | hge
  · exact hlt
  · obtain ⟨b, rest, hbytes⟩ := List.exists_cons_of_ne_nil (String.utf8EncodeChar_ne_nil (c := c))
    have hb : b ∈ String.utf8EncodeChar c := hbytes ▸ List.mem_cons_self
    have hlow : b.toNat < 128 := by
      apply h b
      rw [Utf8.encode_eq, List.mem_flatMap]
      exact ⟨c, hc, hb⟩
    have hhigh := Utf8.le_of_mem_encodeChar hge hb
    omega

/-- It makes no difference if a text is read by its bytes, where only characters below 128 are
understood. -/
theorem read_bytes {α : Type} {f : List Char → Option α}
    (hf : ∀ cs a, f cs = some a → ∀ c ∈ cs, c.toNat < 128) (s : String) :
    f ((Utf8.encode s).map byteChar) = f s.toList := by
  by_cases hascii : ∀ c ∈ s.toList, c.toNat < 128
  · rw [Utf8.encode_eq, map_byteChar_encode hascii]
  · have hchars : f s.toList = none := by
      rw [Option.eq_none_iff_forall_not_mem]
      intro a ha
      exact hascii (hf _ a ha)
    rw [hchars, Option.eq_none_iff_forall_not_mem]
    intro a ha
    apply hascii
    apply lt_ascii_of_bytes
    intro b hb
    have hlt := hf _ a ha (byteChar b) (List.mem_map_of_mem hb)
    rwa [toNat_byteChar] at hlt

theorem integer?_bytes (s : String) :
    integer? ((Utf8.encode s).map byteChar) = integer? s.toList :=
  read_bytes (fun _ _ h => (integer?_eq_some_iff.1 h).lt_ascii) s

theorem digits?_bytes (base : Nat) (s : String) :
    digits? base ((Utf8.encode s).map byteChar) = digits? base s.toList :=
  read_bytes (fun _ _ h => (digits?_iff_writesDigits.1 h).lt_ascii) s

/-! ## Cutting bytes -/

/-- Whether a minus sign stands in front of bytes, and the bytes behind the sign, if any. -/
def cutSign : List UInt8 → Bool × List UInt8
  | 45 :: rest => (true, rest)
  | 43 :: rest => (false, rest)
  | bytes => (false, bytes)

/-- The base that a mark in front of bytes announces, and the bytes behind the mark, if any. -/
def cutMark : List UInt8 → Nat × List UInt8
  | 48 :: 120 :: rest => (16, rest)
  | 48 :: 88 :: rest => (16, rest)
  | 48 :: 111 :: rest => (8, rest)
  | 48 :: 79 :: rest => (8, rest)
  | bytes => (10, bytes)

/-- A number with its sign. -/
def signed (negative : Bool) (n : Nat) : Int :=
  if negative then -(n : Int) else n

/-- Behind the bytes of a text that another one begins with, there are again those of a text. -/
theorem exists_behind {s : String} (mark : String) {rest : List UInt8}
    (h : Utf8.encode s = Utf8.encode mark ++ rest) :
    ∃ t, s = mark ++ t ∧ rest = Utf8.encode t := by
  obtain ⟨t, rfl, ht⟩ := Utf8.exists_append_of_prefix ⟨rest, h.symm⟩
  exact ⟨t, rfl, List.append_cancel_left (h.symm.trans ht)⟩

theorem exists_encode_append {s : String} (front : List Char) {cs : List Char}
    (h : s.toList = front ++ cs) :
    ∃ rest, Utf8.encode s = Utf8.encode (String.ofList front) ++ rest := by
  refine ⟨cs.flatMap String.utf8EncodeChar, ?_⟩
  rw [Utf8.encode_eq, h, List.flatMap_append, Utf8.encode_eq, String.toList_ofList]

/-- A sign is cut off between characters, and what is left is the magnitude. -/
theorem exists_cutSign (s : String) :
    ∃ unsigned, (cutSign (Utf8.encode s)).2 = Utf8.encode unsigned ∧
      integer? s.toList =
        (magnitude? unsigned.toList).map (signed (cutSign (Utf8.encode s)).1) := by
  generalize hbytes : Utf8.encode s = bytes
  fun_cases cutSign bytes with
  | case1 rest =>
      obtain ⟨t, rfl, rfl⟩ := exists_behind "-" hbytes
      refine ⟨t, rfl, ?_⟩
      rw [String.toList_append]
      rfl
  | case2 rest =>
      obtain ⟨t, rfl, rfl⟩ := exists_behind "+" hbytes
      refine ⟨t, rfl, ?_⟩
      rw [String.toList_append]
      rfl
  | case3 _ hminus hplus =>
      -- a sign among the characters would be one among the bytes
      refine ⟨s, hbytes.symm, ?_⟩
      generalize hchars : s.toList = cs
      fun_cases integer? cs with
      | case1 cs =>
          obtain ⟨rest, hrest⟩ := exists_encode_append ['-'] hchars
          exact absurd (hbytes.symm.trans hrest) (hminus _)
      | case2 cs =>
          obtain ⟨rest, hrest⟩ := exists_encode_append ['+'] hchars
          exact absurd (hbytes.symm.trans hrest) (hplus _)
      | case3 => rfl

/-- A mark is cut off between characters, and what is left are the digits. -/
theorem exists_cutMark (s : String) :
    ∃ digits, (cutMark (Utf8.encode s)).2 = Utf8.encode digits ∧
      magnitude? s.toList = digits? (cutMark (Utf8.encode s)).1 digits.toList := by
  have hcut : ∀ (mark : String) {base : Nat} {rest : List UInt8},
      Utf8.encode s = Utf8.encode mark ++ rest →
      (∀ cs, magnitude? (mark.toList ++ cs) = digits? base cs) →
      ∃ digits, rest = Utf8.encode digits ∧ magnitude? s.toList = digits? base digits.toList := by
    intro mark base rest hbytes hmark
    obtain ⟨t, rfl, rfl⟩ := exists_behind mark hbytes
    exact ⟨t, rfl, by rw [String.toList_append, hmark]⟩
  have hfront : ∀ (front : List Char) {cs : List Char}, s.toList = front ++ cs →
      ∃ rest, Utf8.encode s = Utf8.encode (String.ofList front) ++ rest := exists_encode_append
  generalize hbytes : Utf8.encode s = bytes
  rw [hbytes] at hcut hfront
  fun_cases cutMark bytes with
  | case1 rest => exact hcut "0x" rfl fun _ => rfl
  | case2 rest => exact hcut "0X" rfl fun _ => rfl
  | case3 rest => exact hcut "0o" rfl fun _ => rfl
  | case4 rest => exact hcut "0O" rfl fun _ => rfl
  | case5 _ hx hX ho hO =>
      refine ⟨s, hbytes.symm, ?_⟩
      generalize s.toList = cs at hfront
      fun_cases magnitude? cs with
      | case1 cs =>
          obtain ⟨rest, hrest⟩ := hfront ['0', 'x'] rfl
          exact absurd hrest (hx _)
      | case2 cs =>
          obtain ⟨rest, hrest⟩ := hfront ['0', 'X'] rfl
          exact absurd hrest (hX _)
      | case3 cs =>
          obtain ⟨rest, hrest⟩ := hfront ['0', 'o'] rfl
          exact absurd hrest (ho _)
      | case4 cs =>
          obtain ⟨rest, hrest⟩ := hfront ['0', 'O'] rfl
          exact absurd hrest (hO _)
      | case5 => rfl

/-- Integers are read by their grammar.

* A text is read as an integer of 64 bits exactly if it writes that integer, and is not read
  exactly if it writes none that fits.  No text writes two integers.
* Texts are read off their bytes alike, whatever characters they hold.
* The sign and the mark can be cut off as bytes: what is left behind either of them is the bytes of
  a text again, and the bytes behind both are read as digits. -/
theorem numeral_grammar (s : String) :
    (∀ v : Int64, read? s = some v ↔
      ∃ n, Writes s.toList n ∧ Arithmetic.Fits n ∧ v.toInt = n) ∧
    (read? s = none ↔ ∀ n, Writes s.toList n → ¬ Arithmetic.Fits n) ∧
    (∀ n m, Writes s.toList n → Writes s.toList m → n = m) ∧
    (integer? ((Utf8.encode s).map byteChar) >>= int64?) = read? s ∧
    ∃ unsigned digits, (cutSign (Utf8.encode s)).2 = Utf8.encode unsigned ∧
      (cutMark (Utf8.encode unsigned)).2 = Utf8.encode digits ∧
      read? s = ((digits? (cutMark (Utf8.encode unsigned)).1
        ((Utf8.encode digits).map byteChar)).map
          (signed (cutSign (Utf8.encode s)).1) >>= int64?) := by
  refine ⟨?_, read?_eq_none_iff, ?_, ?_, ?_⟩
  · intro v
    rw [read?_eq_some_iff]
    constructor
    · intro h
      exact ⟨v.toInt, h, Arithmetic.fits_toInt v, rfl⟩
    · rintro ⟨n, hn, -, rfl⟩
      exact hn
  · intro n m hn hm
    apply Option.some.inj
    rw [← integer?_eq_some_iff.2 hn, integer?_eq_some_iff.2 hm]
  · rw [integer?_bytes]
    rfl
  · obtain ⟨unsigned, hunsigned, hsign⟩ := exists_cutSign s
    obtain ⟨digits, hdigits, hmark⟩ := exists_cutMark unsigned
    refine ⟨unsigned, digits, hunsigned, hdigits, ?_⟩
    rw [read?, hsign, hmark, digits?_bytes]

/-- The least integer is read in base 16, its negative is too large, and a sign does not make a
numeral of what follows it. -/
theorem numeral_grammar_least :
    (∃ n, Writes "-0X8000000000000000".toList n ∧ Arithmetic.Fits n ∧
      Int64.minValue.toInt = n) ∧
    (∀ n, Writes "0o1000000000000000000000".toList n → ¬ Arithmetic.Fits n) ∧
    ∀ n, Writes "+-1".toList n → ¬ Arithmetic.Fits n := by
  refine ⟨?_, ?_, ?_⟩
  · exact ((numeral_grammar "-0X8000000000000000").1 Int64.minValue).1 (by decide)
  · exact (numeral_grammar "0o1000000000000000000000").2.1.1 (by decide)
  · exact (numeral_grammar "+-1").2.1.1 (by decide)

end IppCode.Text.Numeral
