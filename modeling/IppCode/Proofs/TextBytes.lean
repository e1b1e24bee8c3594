import Mathlib.Algebra.Group.Nat.Defs
import Mathlib.Data.List.Lex
import Mathlib.Data.Char
import Mathlib.Order.Lattice
import IppCode.Text.Utf8

/-!
# The bytes of a text

A text is exchanged as the bytes of its characters, one to four for each.  What the programs
recognise and compare can be found in either form, because the bytes of a character tell as much
as its code does:

* The characters below 128 are bytes themselves, and all bytes of the other ones are 128 or more.
* Of two characters the lesser one has the lesser byte where their bytes differ first
  (`parts_encodeChar`).  So the order of texts by bytes is the one by characters
  (`lt_iff_precedes_encode`).
-/

namespace IppCode.Text

/-! ## The order of sequences -/

section Sequences

variable {α β : Type}

/-- Two sequences part: where they differ first both have an item, and the one of the first
sequence is less. -/
def Parts [LT α] (xs ys : List α) : Prop :=
  ∃ common x y xs' ys', xs = common ++ x :: xs' ∧ ys = common ++ y :: ys' ∧ x < y

/-- The lexicographic order: a sequence precedes those that it begins, and those that it parts
from with a lesser item. -/
def Precedes [LT α] (xs ys : List α) : Prop :=
  (∃ y rest, ys = xs ++ y :: rest) ∨ Parts xs ys

variable [LT α] [LT β] {x y : α} {xs ys : List α}

theorem parts_cons_of_lt (h : x < y) : Parts (x :: xs) (y :: ys) :=
  ⟨[], x, y, xs, ys, rfl, rfl, h⟩

theorem Parts.cons (h : Parts xs ys) : Parts (x :: xs) (x :: ys) := by
  obtain ⟨common, a, b, xs', ys', rfl, rfl, hlt⟩ := h
  exact ⟨x :: common, a, b, xs', ys', rfl, rfl, hlt⟩

theorem precedes_cons_iff : Precedes (x :: xs) (y :: ys) ↔ x < y ∨ x = y ∧ Precedes xs ys := by
  constructor
  · rintro (⟨z, rest, heq⟩ | ⟨common, a, b, xs', ys', hxs, hys, hlt⟩)
    · cases heq
      exact .inr ⟨rfl, .inl ⟨z, rest, rfl⟩⟩
    · cases common with
      | nil =>
          cases hxs
          cases hys
          exact .inl hlt
      | cons c common =>
          cases hxs
          cases hys
          exact .inr ⟨rfl, .inr ⟨common, a, b, xs', ys', rfl, rfl, hlt⟩⟩
  · rintro (hlt | ⟨rfl, ⟨z, rest, rfl⟩ | hparts⟩)
    · exact .inr (parts_cons_of_lt hlt)
    · exact .inl ⟨z, rest, rfl⟩
    · exact .inr hparts.cons

theorem precedes_iff_lt : Precedes xs ys ↔ xs < ys := by
  induction xs generalizing ys with
  | nil =>
      cases ys with
      | nil =>
          refine iff_of_false ?_ (List.not_lt_nil _)
          rintro (⟨y, rest, heq⟩ | ⟨common, a, b, xs', ys', heq, -⟩)
          · cases heq
          · simp at heq
      | cons y ys => exact iff_of_true (.inl ⟨y, ys, rfl⟩) (List.nil_lt_cons y ys)
  | cons x xs ih =>
      cases ys with
      | nil =>
          refine iff_of_false ?_ (List.not_lt_nil _)
          rintro (⟨y, rest, heq⟩ | ⟨common, a, b, xs', ys', -, heq, -⟩)
          · cases heq
          · simp at heq
      | cons y ys => rw [precedes_cons_iff, List.cons_lt_cons_iff, ih]

/-- The order is kept when each item is written as a sequence of its own. -/
theorem Precedes.flatMap {f : α → List β} (hne : ∀ a, f a ≠ [])
    (hparts : ∀ a b, a < b → Parts (f a) (f b)) (h : Precedes xs ys) :
    Precedes (xs.flatMap f) (ys.flatMap f) := by
  obtain ⟨y, rest, rfl⟩ | ⟨common, x, y, xs', ys', rfl, rfl, hlt⟩ := h
  · obtain ⟨b, bs, hb⟩ := List.exists_cons_of_ne_nil (hne y)
    refine .inl ⟨b, bs ++ rest.flatMap f, ?_⟩
    simp [hb]
  · obtain ⟨front, a, b, as, bs, ha, hb, hab⟩ := hparts x y hlt
    refine .inr ⟨common.flatMap f ++ front, a, b, as ++ xs'.flatMap f, bs ++ ys'.flatMap f,
      ?_, ?_, hab⟩
    · simp [ha]
    · simp [hb]

end Sequences

theorem precedes_flatMap_iff {α β : Type} [LinearOrder α] [LT β]
    [Std.Asymm (α := β) (· < ·)] {f : α → List β} (hne : ∀ a, f a ≠ [])
    (hparts : ∀ a b, a < b → Parts (f a) (f b)) {xs ys : List α} :
    Precedes (xs.flatMap f) (ys.flatMap f) ↔ xs < ys := by
  constructor
  · intro h
    rcases lt_trichotomy xs ys with hlt | rfl | hgt
    · exact hlt
    · exact absurd (precedes_iff_lt.1 h) (List.lt_asymm (precedes_iff_lt.1 h))
    · have hback := (precedes_iff_lt.2 hgt).flatMap hne hparts
      exact absurd (precedes_iff_lt.1 h) (List.lt_asymm (precedes_iff_lt.1 hback))
  · intro h
    exact (precedes_iff_lt.2 h).flatMap hne hparts

namespace Utf8

theorem encode_eq (s : String) : encode s = s.toList.flatMap String.utf8EncodeChar := by
  rw [encode, String.toUTF8, ← String.utf8Encode_toList]
  simp [List.utf8Encode]

theorem encode_append (s t : String) : encode (s ++ t) = encode s ++ encode t := by
  rw [encode_eq, encode_eq, encode_eq, String.toList_append, List.flatMap_append]

/-! ## The bytes of a character -/

/-- The number of bytes that follow the first one of a character. -/
def following (code : Nat) : Nat :=
  if code ≤ 127 then 0 else if code ≤ 2047 then 1 else if code ≤ 65535 then 2 else 3

/-- The least first byte of a character with so many bytes behind it. -/
def leadOffset : Nat → Nat
  | 0 => 0
  | 1 => 192
  | 2 => 224
  | _ => 240

/-- The first byte of a character. -/
def lead (code : Nat) : Nat :=
  leadOffset (following code) + code / 64 ^ following code

/-- The last digits of a code in base 64, each as a byte from 128 on. -/
def trail : Nat → Nat → List UInt8
  | 0, _ => []
  | k + 1, code => trail k (code / 64) ++ [UInt8.ofNat (code % 64 + 128)]

theorem toNat_lt (c : Char) : c.toNat < 1114112 := by
  have hvalid : c.toNat < 0xD800 ∨ 0xDFFF < c.toNat ∧ c.toNat < 0x110000 := c.valid
  omega

theorem encodeChar_eq (c : Char) :
    String.utf8EncodeChar c = UInt8.ofNat (lead c.toNat) :: trail (following c.toNat) c.toNat := by
  have hcode : c.val.toNat = c.toNat := rfl
  have hbound := toNat_lt c
  unfold String.utf8EncodeChar lead following
  simp only [hcode]
  generalize c.toNat = code at hbound ⊢
  split_ifs with hone htwo hthree
  · simp [leadOffset, trail]
  · rw [Nat.mod_eq_of_lt (show code / 64 < 32 by omega), Nat.add_comm]
    rfl
  · rw [Nat.mod_eq_of_lt (show code / 4096 < 16 by omega), Nat.add_comm]
    rfl
  · rw [Nat.mod_eq_of_lt (show code / 262144 < 8 by omega), Nat.add_comm,
      show code / 4096 = code / 64 / 64 by omega]
    rfl

theorem lead_lt {code : Nat} (h : code < 1114112) : lead code < 256 := by
  unfold lead following
  split_ifs <;> simp only [leadOffset] <;> omega

theorem lead_mono {m n : Nat} (h : m ≤ n) (hn : n < 1114112) : lead m ≤ lead n := by
  unfold lead following
  split_ifs <;> simp only [leadOffset] <;> omega

/-- The first byte tells how many follow. -/
theorem following_eq_of_lead_eq {m n : Nat} (hm : m < 1114112) (hn : n < 1114112)
    (h : lead m = lead n) : following m = following n := by
  unfold lead following at *
  split_ifs at * <;> simp only [leadOffset] at * <;> omega

theorem ofNat_lt {m n : Nat} (h : m < n) (hn : n < 256) : UInt8.ofNat m < UInt8.ofNat n := by
  rw [UInt8.lt_iff_toNat_lt, UInt8.toNat_ofNat_of_lt' (Nat.lt_trans h hn),
    UInt8.toNat_ofNat_of_lt' hn]
  exact h

/-- Of two codes that agree in their first digits the lesser one has the lesser digit where the
others differ first. -/
theorem parts_trail {k m n : Nat} (hlt : m < n) (hfirst : m / 64 ^ k = n / 64 ^ k) :
    Parts (trail k m) (trail k n) := by
  induction k generalizing m n with
  | zero =>
      rw [Nat.pow_zero, Nat.div_one, Nat.div_one] at hfirst
      omega
  | succ k ih =>
      rw [Nat.pow_succ', ← Nat.div_div_eq_div_mul, ← Nat.div_div_eq_div_mul] at hfirst
      rcases Nat.lt_or_ge (m / 64) (n / 64) with hdigits | hdigits
      · obtain ⟨common, x, y, xs, ys, hm, hn, hxy⟩ := ih hdigits hfirst
        refine ⟨common, x, y, xs ++ [UInt8.ofNat (m % 64 + 128)],
          ys ++ [UInt8.ofNat (n % 64 + 128)], ?_, ?_, hxy⟩
        · rw [trail, hm, List.append_assoc, List.cons_append]
        · rw [trail, hn, List.append_assoc, List.cons_append]
      · have hsame : m / 64 = n / 64 := by omega
        have hlast : UInt8.ofNat (m % 64 + 128) < UInt8.ofNat (n % 64 + 128) :=
          ofNat_lt (by omega) (by omega)
        refine ⟨trail k (m / 64), _, _, [], [], rfl, ?_, hlast⟩
        rw [trail, hsame]

/-- The lesser one of two characters has the lesser byte where their bytes differ first. -/
theorem parts_encodeChar {c d : Char} (h : c < d) :
    Parts (String.utf8EncodeChar c) (String.utf8EncodeChar d) := by
  have hlt : c.toNat < d.toNat := h
  have hc := toNat_lt c
  have hd := toNat_lt d
  rw [encodeChar_eq, encodeChar_eq]
  rcases Nat.lt_or_ge (lead c.toNat) (lead d.toNat) with hlead | hlead
  · exact parts_cons_of_lt (ofNat_lt hlead (lead_lt hd))
  · have heq : lead c.toNat = lead d.toNat :=
      Nat.le_antisymm (lead_mono (Nat.le_of_lt hlt) hd) hlead
    have hfollowing := following_eq_of_lead_eq hc hd heq
    have hfirst : c.toNat / 64 ^ following d.toNat = d.toNat / 64 ^ following d.toNat := by
      unfold lead at heq
      rw [hfollowing] at heq
      exact Nat.add_left_cancel heq
    rw [heq, hfollowing]
    exact (parts_trail hlt hfirst).cons

/-- Texts are ordered by their bytes. -/
theorem lt_iff_precedes_encode {s t : String} : s < t ↔ Precedes (encode s) (encode t) := by
  rw [encode_eq, encode_eq]
  refine (precedes_flatMap_iff ?_ ?_).symm
  · intro c
    exact String.utf8EncodeChar_ne_nil
  · intro c d hlt
    exact parts_encodeChar hlt

/-- Texts are ordered by the codes of their characters. -/
theorem lt_iff_precedes_codes {s t : String} :
    s < t ↔ Precedes (s.toList.map Char.toNat) (t.toList.map Char.toNat) := by
  rw [List.map_eq_flatMap, List.map_eq_flatMap]
  refine (precedes_flatMap_iff ?_ ?_).symm
  · intro c
    exact List.cons_ne_nil _ _
  · intro c d hlt
    exact parts_cons_of_lt hlt

/-! ## Texts and their bytes side by side -/

theorem encodeChar_of_lt {c : Char} (h : c.toNat < 128) :
    String.utf8EncodeChar c = [UInt8.ofNat c.toNat] :=
  if_pos (Nat.le_of_lt_succ h)

theorem le_of_mem_trail {k code : Nat} {b : UInt8} (h : b ∈ trail k code) : 128 ≤ b.toNat := by
  induction k generalizing code with
  | zero => cases h
  | succ k ih =>
      rw [trail, List.mem_append, List.mem_singleton] at h
      rcases h with h | rfl
      · exact ih h
      · rw [UInt8.toNat_ofNat_of_lt' (show code % 64 + 128 < 256 by omega)]
        omega

theorem le_of_mem_encodeChar {c : Char} (hc : 128 ≤ c.toNat) {b : UInt8}
    (h : b ∈ String.utf8EncodeChar c) : 128 ≤ b.toNat := by
  rw [encodeChar_eq, List.mem_cons] at h
  rcases h with rfl | h
  · rw [UInt8.toNat_ofNat_of_lt' (lead_lt (toNat_lt c))]
    calc 128 ≤ lead 128 := by decide
      _ ≤ lead c.toNat := lead_mono hc (toNat_lt c)
  · exact le_of_mem_trail h

/-- A cut behind bytes that are those of a text is a cut between characters. -/
theorem exists_append_of_prefix {mark s : String} (h : encode mark <+: encode s) :
    ∃ rest, s = mark ++ rest ∧ encode s = encode mark ++ encode rest := by
  obtain ⟨bytes, hbytes⟩ := h
  have harray : mark.toList.utf8Encode ++ bytes.toByteArray = s.toList.utf8Encode := by
    rw [encode_eq, encode_eq] at hbytes
    rw [List.utf8Encode, List.utf8Encode, ← hbytes]
    exact List.toByteArray_append.symm
  obtain ⟨rest, hrest⟩ := List.isPrefix_of_utf8Encode_append_eq_utf8Encode _ harray
  have hs : s = mark ++ String.ofList rest := by
    apply String.toList_injective
    rw [String.toList_append, String.toList_ofList, hrest]
  subst hs
  exact ⟨String.ofList rest, rfl, encode_append mark _⟩

end Utf8

end IppCode.Text
