import Mathlib.Data.Nat.Count
import Mathlib.Data.Nat.Find
import IppCode.Proofs.LiteralText

/-!
# One pass over escaped text

`Escape.decode` reads a text once from the left.  Two other accounts of what it does are given
here and shown to come to the same.

* `Scans`: at an escape its character is put out and reading goes on behind it; any other
  character is copied (`scans_iff`).
* `ReplacesAll`: the first match of a pattern is looked for and replaced, and the search goes on
  behind it (`replacesAll_iff`).  What stands in for a match is computed from its digits by a
  function that could fail, and then would keep it, but never does (`exists_character`).

Escapes are counted by the places where one begins.  All of these are decoded, because escapes
cannot overlap: behind a backslash there are digits, so none begins within another one
(`not_escapeAt_within`).
-/

namespace IppCode.Text.Escape

/-! ## Escapes in a text -/

/-- A backslash and three decimal digits, which write a code. -/
inductive Escapes : List Char → Nat → Prop
  | digits {x y z : Nat} (hx : x < 10) (hy : y < 10) (hz : z < 10) :
      Escapes ['\\', digit x, digit y, digit z] (100 * x + 10 * y + z)

/-- A backslash and three decimal digits. -/
def IsEscape (found : List Char) : Prop :=
  ∃ code, Escapes found code

/-- A match of a pattern begins at a place of a text. -/
def MatchAt (Matches : List Char → Prop) (text : List Char) (k : Nat) : Prop :=
  ∃ found, Matches found ∧ found <+: text.drop k

/-- An escape begins at a place of a text. -/
def EscapeAt (text : List Char) (k : Nat) : Prop :=
  MatchAt IsEscape text k

variable {text rest result a b found : List Char} {c : Char} {code k : Nat}

theorem code?_eq_some_iff {x y z : Char} :
    code? x y z = some code ↔ Escapes ['\\', x, y, z] code := by
  unfold code?
  constructor
  · intro h
    split at h
    · next hdigits =>
        simp only [Bool.and_eq_true, isDigit_iff_exists_digit] at hdigits
        obtain ⟨⟨⟨x, hx, rfl⟩, y, hy, rfl⟩, z, hz, rfl⟩ := hdigits
        rw [toNat_digit hx, toNat_digit hy, toNat_digit hz, Option.some.injEq] at h
        have hcode : code = 100 * x + 10 * y + z := by omega
        rw [hcode]
        exact .digits hx hy hz
    · cases h
  · rintro ⟨hx, hy, hz⟩
    simp only [isDigit_digit hx, isDigit_digit hy, isDigit_digit hz, toNat_digit hx, toNat_digit hy,
      toNat_digit hz, Bool.and_self, ↓reduceIte, Option.some.injEq]
    omega

theorem Escapes.lt (h : Escapes found code) : code < 1000 := by
  cases h
  omega

/-- Every code of three digits is that of a character. -/
theorem Escapes.exists_char (h : Escapes found code) : ∃ c : Char, c.toNat = code := by
  have hvalid : code.isValidChar := .inl (by have hlt := h.lt; omega)
  exact ⟨Char.ofNatAux code hvalid, rfl⟩

/-! ## Places of escapes -/

theorem Escapes.length (h : Escapes found code) : found.length = 4 := by
  cases h
  rfl

theorem escapeAt_zero_iff :
    EscapeAt text 0 ↔ ∃ found rest, IsEscape found ∧ text = found ++ rest := by
  constructor
  · rintro ⟨found, hfound, rest, rfl⟩
    exact ⟨found, rest, hfound, rfl⟩
  · rintro ⟨found, rest, hfound, rfl⟩
    exact ⟨found, hfound, rest, rfl⟩

theorem not_escapeAt_of_ne (h : c ≠ '\\') : ¬ EscapeAt (c :: rest) 0 := by
  rintro ⟨found, ⟨code, hx, hy, hz⟩, hprefix⟩
  exact h (List.cons_prefix_cons.1 hprefix).1.symm

/-- Within an escape no other one begins. -/
theorem not_escapeAt_within (h : IsEscape found) (hlow : 0 < k) (hhigh : k < 4) :
    ¬ EscapeAt (found ++ rest) k := by
  obtain ⟨code, hx, hy, hz⟩ := h
  obtain rfl | rfl | rfl : k = 1 ∨ k = 2 ∨ k = 3 := by omega
  · exact not_escapeAt_of_ne (digit_ne_backslash hx).symm
  · exact not_escapeAt_of_ne (digit_ne_backslash hy).symm
  · exact not_escapeAt_of_ne (digit_ne_backslash hz).symm

/-- An escape of the first of two texts is one of both together. -/
theorem EscapeAt.append (h : EscapeAt a k) (b : List Char) : EscapeAt (a ++ b) k := by
  obtain ⟨found, hfound, hprefix⟩ := h
  refine ⟨found, hfound, ?_⟩
  rw [List.drop_append]
  exact hprefix.trans (List.prefix_append _ _)

/-- An escape that ends in the first of two texts is one of that. -/
theorem EscapeAt.of_append (h : EscapeAt (a ++ b) k) (hk : k + 4 ≤ a.length) : EscapeAt a k := by
  obtain ⟨found, ⟨code, hcode⟩, hprefix⟩ := h
  refine ⟨found, ⟨code, hcode⟩, ?_⟩
  rw [List.drop_append] at hprefix
  refine List.prefix_of_prefix_length_le hprefix (List.prefix_append _ _) ?_
  rw [hcode.length, List.length_drop]
  omega

theorem EscapeAt.end_le (h : EscapeAt text k) : k + 4 ≤ text.length := by
  obtain ⟨found, ⟨code, hcode⟩, hprefix⟩ := h
  have hle := hprefix.length_le
  rw [hcode.length, List.length_drop] at hle
  omega

theorem escapeAt_append_right : EscapeAt (a ++ b) (a.length + k) ↔ EscapeAt b k := by
  unfold EscapeAt MatchAt
  rw [List.drop_append, List.drop_eq_nil_of_le (Nat.le_add_right _ _), List.nil_append,
    Nat.add_sub_cancel_left]

/-- Whether a text begins with an escape. -/
def begins : List Char → Bool
  | '\\' :: x :: y :: z :: _ => (code? x y z).isSome
  | _ => false

/-- The scanner stops at exactly the places of escapes. -/
theorem begins_iff : begins text = true ↔ EscapeAt text 0 := by
  rw [escapeAt_zero_iff]
  constructor
  · intro h
    unfold begins at h
    split at h
    · next x y z rest =>
        obtain ⟨code, hcode⟩ := Option.isSome_iff_exists.1 h
        exact ⟨['\\', x, y, z], rest, ⟨code, code?_eq_some_iff.1 hcode⟩, rfl⟩
    · cases h
  · rintro ⟨found, rest, ⟨code, hcode⟩, rfl⟩
    cases hcode with
    | digits hx hy hz =>
        have hsome := code?_eq_some_iff.2 (Escapes.digits hx hy hz)
        simp [begins, hsome]

instance (text : List Char) : DecidablePred (EscapeAt text) := fun _ =>
  decidable_of_iff (begins (text.drop _) = true) begins_iff

/-- The number of escapes in a text. -/
def escapeCount (text : List Char) : Nat :=
  Nat.count (EscapeAt text) text.length

theorem escapeCount_cons (c : Char) (rest : List Char) :
    escapeCount (c :: rest) = escapeCount rest + if EscapeAt (c :: rest) 0 then 1 else 0 :=
  Nat.count_succ' _ _

theorem escapeCount_copy (h : ¬ EscapeAt (c :: rest) 0) :
    escapeCount (c :: rest) = escapeCount rest := by
  rw [escapeCount_cons, if_neg h, Nat.add_zero]

/-- The escapes of two texts put together are those that begin in the first one and those of the
second one. -/
theorem escapeCount_append (a b : List Char) :
    escapeCount (a ++ b) = Nat.count (EscapeAt (a ++ b)) a.length + escapeCount b := by
  unfold escapeCount
  rw [List.length_append, Nat.count_add]
  simp only [escapeAt_append_right]

/-- No escape begins within an escape, since digits are no backslash. -/
theorem escapeCount_escape (h : IsEscape found) :
    escapeCount (found ++ rest) = escapeCount rest + 1 := by
  have hbegins : EscapeAt (found ++ rest) 0 := escapeAt_zero_iff.2 ⟨found, rest, h, rfl⟩
  have hwithin : ∀ k, 0 < k → k < 4 → ¬ EscapeAt (found ++ rest) k := fun k => not_escapeAt_within h
  have hlength : found.length = 4 := by
    obtain ⟨code, hcode⟩ := h
    exact hcode.length
  have hone : Nat.count (EscapeAt (found ++ rest)) 4 = 1 := by
    rw [Nat.count_succ, if_neg (hwithin 3 (by omega) (by omega)),
      Nat.count_succ, if_neg (hwithin 2 (by omega) (by omega)),
      Nat.count_succ, if_neg (hwithin 1 (by omega) (by omega)),
      Nat.count_succ, if_pos hbegins, Nat.count_zero]
  rw [escapeCount_append, hlength, hone, Nat.add_comm]

/-! ## Scanning -/

/-- What is put out when a text is read once from the left: at an escape the character that it
stands for, and otherwise the next character itself. -/
inductive Scans : List Char → List Char → Prop
  | done : Scans [] []
  | escape {found rest result : List Char} {c : Char} (h : Escapes found c.toNat)
      (hrest : Scans rest result) : Scans (found ++ rest) (c :: result)
  | copy {rest result : List Char} {c : Char} (h : ¬ EscapeAt (c :: rest) 0)
      (hrest : Scans rest result) : Scans (c :: rest) (c :: result)

theorem decode_escape (h : Escapes found c.toNat) (rest : List Char) :
    decode (found ++ rest) = c :: decode rest := by
  generalize hcode : c.toNat = code at h
  cases h with
  | digits hx hy hz =>
      have hsome := code?_eq_some_iff.2 (Escapes.digits hx hy hz)
      simp only [List.cons_append, List.nil_append, decode, hsome, ← hcode, Char.ofNat_toNat]

theorem decode_copy (h : ¬ EscapeAt (c :: rest) 0) : decode (c :: rest) = c :: decode rest := by
  rw [← begins_iff] at h
  generalize htext : c :: rest = text at h
  fun_cases decode text with
  | case1 x y z tail code hcode => simp [begins, hcode] at h
  | case2 x y z tail hcode =>
      cases htext
      rfl
  | case3 d tail hno =>
      cases htext
      rfl
  | case4 => cases htext

theorem scans_decode (text : List Char) : Scans text (decode text) := by
  fun_induction decode text with
  | case1 x y z tail code hcode ih =>
      have hescapes := code?_eq_some_iff.1 hcode
      obtain ⟨c, rfl⟩ := hescapes.exists_char
      rw [Char.ofNat_toNat]
      exact .escape hescapes ih
  | case2 x y z tail hcode ih =>
      refine .copy ?_ ih
      rw [← begins_iff]
      simp [begins, hcode]
  | case3 d tail hno ih =>
      refine .copy ?_ ih
      rw [← begins_iff]
      unfold begins
      split
      · next x y z rest heq =>
          cases heq
          exact absurd rfl (hno x y z rest rfl)
      · simp
  | case4 => exact .done

/-- The scan has one result. -/
theorem Scans.eq_decode (h : Scans text result) : result = decode text := by
  induction h with
  | done => rfl
  | escape hescapes _ ih => rw [decode_escape hescapes, ih]
  | copy hno _ ih => rw [decode_copy hno, ih]

theorem scans_iff : Scans text result ↔ result = decode text := by
  constructor
  · exact Scans.eq_decode
  · rintro rfl
    exact scans_decode text

/-- Each escape is longer by three than what it stands for. -/
theorem length_decode (text : List Char) :
    (decode text).length + 3 * escapeCount text = text.length := by
  have h := scans_decode text
  generalize decode text = result at h
  induction h with
  | done => rfl
  | escape hescapes _ ih =>
      rw [escapeCount_escape ⟨_, hescapes⟩, List.length_cons, List.length_append, hescapes.length]
      omega
  | copy hno _ ih =>
      rw [escapeCount_copy hno, List.length_cons, List.length_cons]
      omega

/-! ## Texts put together -/

/-- No escape of two texts put together begins in the first one and ends in the second one. -/
def Separate (a b : List Char) : Prop :=
  ∀ k, EscapeAt (a ++ b) k → k + 4 ≤ a.length ∨ a.length ≤ k

instance (a b : List Char) : Decidable (Separate a b) :=
  decidable_of_iff
    (∀ k < (a ++ b).length, EscapeAt (a ++ b) k → k + 4 ≤ a.length ∨ a.length ≤ k)
    ⟨fun h k hk => h k (Nat.lt_of_lt_of_le (by omega) hk.end_le) hk, fun h k _ => h k⟩

theorem Separate.of_append (h : Separate (found ++ a) b) : Separate a b := by
  intro k hk
  have hplace : EscapeAt (found ++ a ++ b) (found.length + k) := by
    rw [List.append_assoc]
    exact escapeAt_append_right.2 hk
  have hends := h (found.length + k) hplace
  rw [List.length_append] at hends
  omega

/-- Texts without an escape across their seam are decoded each by itself. -/
theorem Separate.decode_append (h : Separate a b) : decode (a ++ b) = decode a ++ decode b := by
  have hscans := scans_decode a
  generalize decode a = result at hscans
  induction hscans with
  | done => rfl
  | escape hescapes _ ih =>
      rw [List.append_assoc, decode_escape hescapes, ih h.of_append, List.cons_append]
  | @copy rest result c hno _ ih =>
      have hseam : Separate rest b := (show Separate ([c] ++ rest) b from h).of_append
      have hcopied : ¬ EscapeAt (c :: (rest ++ b)) 0 := by
        intro hat
        -- an escape that begins here would end in front of the seam or begin behind it
        rcases h 0 hat with hends | hnone
        · exact hno (EscapeAt.of_append hat hends)
        · exact absurd hnone (by simp)
      rw [List.cons_append, decode_copy hcopied, ih hseam, List.cons_append]

/-- An escape across the seam is counted in neither of the texts. -/
theorem escapeCount_lt (h : ¬ Separate a b) :
    escapeCount a + escapeCount b < escapeCount (a ++ b) := by
  obtain ⟨k, hat, hacross⟩ : ∃ k, EscapeAt (a ++ b) k ∧ ¬ (k + 4 ≤ a.length ∨ a.length ≤ k) := by
    simpa [Separate] using h
  rw [escapeCount_append, escapeCount, Nat.count_eq_card_filter_range,
    Nat.count_eq_card_filter_range]
  refine Nat.add_lt_add_right (Finset.card_lt_card ⟨?_, fun hall => ?_⟩) _
  · intro j hj
    rw [Finset.mem_filter] at hj ⊢
    exact ⟨hj.1, hj.2.append b⟩
  · have hmem := hall (Finset.mem_filter.2 ⟨Finset.mem_range.2 (by omega), hat⟩)
    have hends := (Finset.mem_filter.1 hmem).2.end_le
    omega

/-- An escape across the seam shortens the whole text once more, and that cannot be made up for. -/
theorem decode_append_iff : decode (a ++ b) = decode a ++ decode b ↔ Separate a b := by
  refine ⟨fun h => ?_, Separate.decode_append⟩
  by_contra hnot
  have hcount := escapeCount_lt hnot
  have hlength := congrArg List.length h
  have ha := length_decode a
  have hb := length_decode b
  have hab := length_decode (a ++ b)
  rw [List.length_append] at hlength hab
  omega

/-! ## Replacing matches -/

/-- The leftmost matches of a pattern in a text that do not overlap are replaced, each by what
`replace` makes of it, and all else is copied. -/
inductive ReplacesAll (Matches : List Char → Prop) (replace : List Char → List Char) :
    List Char → List Char → Prop
  | done {text : List Char} (h : ∀ k, ¬ MatchAt Matches text k) :
      ReplacesAll Matches replace text text
  | next {before found after rest : List Char} (hfound : Matches found)
      (hleftmost : ∀ k < before.length, ¬ MatchAt Matches (before ++ (found ++ after)) k)
      (hrest : ReplacesAll Matches replace after rest) :
      ReplacesAll Matches replace (before ++ (found ++ after)) (before ++ (replace found ++ rest))

/-- The character with a code. -/
def scalar? (code : Nat) : Option Char :=
  if h : code.isValidChar then some (Char.ofNatAux code h) else none

/-- The character whose code is written by decimal digits, as a number of 32 bits. -/
def character? (digits : List Char) : Option Char :=
  ((Numeral.digits? 10 digits).filter (· < UInt32.size)).bind scalar?

/-- What an escape that has been found is replaced by: the character that its digits stand for, or
the escape itself if there is none. -/
def substitute (found : List Char) : List Char :=
  match character? found.tail with
  | some c => [c]
  | none => found

theorem digits?_of_lt {x y z : Nat} (hx : x < 10) (hy : y < 10) (hz : z < 10) :
    Numeral.digits? 10 [digit x, digit y, digit z] = some (100 * x + 10 * y + z) := by
  have hvalue : ∀ {d : Nat}, d < 10 → Numeral.digit? 10 (digit d) = some d := by
    intro d hd
    rw [Numeral.digit?_of_isDigit (isDigit_digit hd), toNat_digit hd, Nat.add_sub_cancel_left]
  simp only [Numeral.digits?, Numeral.extend?, hvalue hx, hvalue hy, hvalue hz, Option.some.injEq]
  omega

theorem scalar?_toNat (c : Char) : scalar? c.toNat = some c :=
  dif_pos c.valid

theorem character?_of_escapes (h : Escapes found c.toNat) : character? found.tail = some c := by
  have hlt : c.toNat < UInt32.size := Nat.lt_trans h.lt (by decide)
  have hdigits : Numeral.digits? 10 found.tail = some c.toNat := by
    generalize c.toNat = code at h
    cases h with
    | digits hx hy hz => exact digits?_of_lt hx hy hz
  simp only [character?, hdigits, Option.filter_some, decide_eq_true hlt, ↓reduceIte,
    Option.bind_some, scalar?_toNat]

/-- An escape that has been found is never kept for want of a character. -/
theorem exists_character (h : IsEscape found) : ∃ c, character? found.tail = some c := by
  obtain ⟨code, hcode⟩ := h
  obtain ⟨c, rfl⟩ := hcode.exists_char
  exact ⟨c, character?_of_escapes hcode⟩

theorem substitute_of_escapes (h : Escapes found c.toNat) : substitute found = [c] := by
  simp only [substitute, character?_of_escapes h]

theorem decode_eq_self (h : ∀ k, ¬ EscapeAt text k) : decode text = text := by
  induction text with
  | nil => rfl
  | cons c rest ih => rw [decode_copy (h 0), ih fun k => h (k + 1)]

theorem ReplacesAll.eq_decode (h : ReplacesAll IsEscape substitute text result) :
    result = decode text := by
  induction h with
  | done hno => exact (decode_eq_self hno).symm
  | @next before found after rest hfound hleftmost _ ih =>
      have hseam : Separate before (found ++ after) := by
        intro k hk
        exact .inr (Nat.not_lt.1 fun hlt => hleftmost k hlt hk)
      have hbefore : decode before = before := by
        refine decode_eq_self fun k hk => ?_
        exact hleftmost k (Nat.lt_of_lt_of_le (by omega) hk.end_le) (hk.append _)
      obtain ⟨code, hcode⟩ := hfound
      obtain ⟨c, rfl⟩ := hcode.exists_char
      rw [hseam.decode_append, hbefore, decode_escape hcode, substitute_of_escapes hcode, ih]
      rfl

/-- All leftmost matches can be replaced.  The induction is on the length of the text that is left.
-/
theorem exists_replacesAll (text : List Char) :
    ∃ result, ReplacesAll IsEscape substitute text result := by
  induction hlength : text.length using Nat.strong_induction_on generalizing text with
  | h n ih =>
      by_cases hsome : ∃ k, EscapeAt text k
      · -- the first escape, and the text behind it
        obtain ⟨found, hfound, after, hafter⟩ := Nat.find_spec hsome
        have hends := (Nat.find_spec hsome).end_le
        have htext : text.take (Nat.find hsome) ++ (found ++ after) = text := by
          rw [hafter, List.take_append_drop]
        have hshorter : after.length < n := by
          have htotal := congrArg List.length htext
          obtain ⟨code, hcode⟩ := hfound
          rw [List.length_append, List.length_append, hcode.length] at htotal
          omega
        obtain ⟨rest, hrest⟩ := ih _ hshorter after rfl
        have hleftmost : ∀ k < (text.take (Nat.find hsome)).length,
            ¬ MatchAt IsEscape (text.take (Nat.find hsome) ++ (found ++ after)) k := by
          intro k hk hat
          rw [List.length_take] at hk
          rw [htext] at hat
          exact Nat.find_min hsome (by omega) hat
        have hnext := ReplacesAll.next hfound hleftmost hrest
        rw [htext] at hnext
        exact ⟨_, hnext⟩
      · exact ⟨text, .done fun k hk => hsome ⟨k, hk⟩⟩

theorem replacesAll_iff : ReplacesAll IsEscape substitute text result ↔ result = decode text := by
  constructor
  · exact ReplacesAll.eq_decode
  · rintro rfl
    obtain ⟨result, hresult⟩ := exists_replacesAll text
    exact hresult.eq_decode ▸ hresult

/-- **Escaped text is decoded in one pass from the left.**

* The value of a string literal is its text with the leftmost escapes that do not overlap replaced,
  and that is what reading the text once from the left puts out.  Characters that have been put out
  are not read again.
* Every escape stands for a character, so none is kept as it is.
* Each escape makes the text shorter by three characters.
* Two texts can be decoded one by one exactly if no escape lies across their seam. -/
theorem decoded_in_one_pass :
    (∀ s t : String, Literal.value? ⟨.string, s⟩ = some (.str t) ↔
      ReplacesAll IsEscape substitute s.toList t.toList) ∧
    (∀ text result, ReplacesAll IsEscape substitute text result ↔ result = decode text) ∧
    (∀ text result, Scans text result ↔ result = decode text) ∧
    (∀ found, IsEscape found → ∃ c, character? found.tail = some c) ∧
    (∀ text, (decode text).length + 3 * escapeCount text = text.length) ∧
    ∀ a b, decode (a ++ b) = decode a ++ decode b ↔ Separate a b := by
  refine ⟨?_, fun _ _ => replacesAll_iff, fun _ _ => scans_iff, fun _ => exists_character,
    length_decode, fun _ _ => decode_append_iff⟩
  intro s t
  rw [Literal.value?_string, replacesAll_iff, Option.some.injEq, Value.str.injEq, eq_comm]
  constructor
  · rintro rfl
    exact String.toList_ofList
  · intro h
    rw [← h, String.ofList_toList]

/-- A backslash that comes of an escape is not read with the digits behind it, so the seam between
them is one where texts can be decoded one by one; within an escape it is not. -/
theorem decoded_in_one_pass_seams :
    decode ("\\092".toList ++ "065".toList) = decode "\\092".toList ++ decode "065".toList ∧
    decode ("\\0".toList ++ "92".toList) ≠ decode "\\0".toList ++ decode "92".toList ∧
    Literal.value? ⟨.string, "\\092065"⟩ = some (.str "\\065") ∧
    (decode "\\092065".toList).length + 3 * 1 = 7 := by
  obtain ⟨hliteral, hreplaced, -, -, hlength, hseam⟩ := decoded_in_one_pass
  exact ⟨(hseam _ _).2 (by decide), fun h => absurd ((hseam _ _).1 h) (by decide),
    (hliteral _ _).2 ((hreplaced _ _).2 (by decide)), hlength "\\092065".toList⟩

/-- Too few digits, digits of another script and a backslash before an escape. -/
example : decode "\\12x\\٠٣٢\\\\0651".toList = "\\12x\\٠٣٢\\A1".toList := by decide

end IppCode.Text.Escape
