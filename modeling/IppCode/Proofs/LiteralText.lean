import Mathlib.Data.List.DropRight
import IppCode.Document

/-!
# Writing values and reading them back

`Value.literalText` writes a value so that the literal of its type with this text has the
value again.  For integers this is a matter of decimal digits, for texts of escapes: each
character is written by itself, and the reader takes the written form of one character off
the front of whatever follows (`decode_encodeChar`).

Documents are read with the blanks at both ends of a text cut off.  Blanks of a code below
1000 are escaped and survive that; those above have no escape, and a text keeps its value
exactly if there are none of them at its ends (`trimChars_encode`).
-/

namespace IppCode

namespace Text.Escape

/-! ## Reading what was written -/

theorem isDigit_digit {n : Nat} (h : n < 10) : (digit n).isDigit = true := by
  decide +revert

theorem toNat_digit {n : Nat} (h : n < 10) : (digit n).toNat = 48 + n := by
  decide +revert

theorem isDigit_iff_exists_digit {c : Char} : c.isDigit = true ↔ ∃ d, d < 10 ∧ c = digit d := by
  constructor
  · intro h
    have hrange : '0' ≤ c ∧ c ≤ '9' := by simpa [Char.isDigit, Char.le_def] using h
    have hlow : 48 ≤ c.toNat := hrange.1
    have hhigh : c.toNat ≤ 57 := hrange.2
    refine ⟨c.toNat - 48, by omega, ?_⟩
    rw [digit, Nat.add_sub_cancel' hlow, Char.ofNat_toNat]
  · rintro ⟨d, hd, rfl⟩
    exact isDigit_digit hd

theorem code?_digits {n : Nat} (h : n < 1000) :
    code? (digit (n / 100)) (digit (n / 10 % 10)) (digit (n % 10)) = some n := by
  have hhundreds : n / 100 < 10 := by omega
  have htens : n / 10 % 10 < 10 := by omega
  have hones : n % 10 < 10 := by omega
  simp only [code?, isDigit_digit hhundreds, isDigit_digit htens, isDigit_digit hones,
    toNat_digit hhundreds, toNat_digit htens, toNat_digit hones, Bool.and_self, ↓reduceIte,
    Option.some.injEq]
  omega

theorem lt_of_isEscaped {c : Char} (h : isEscaped c = true) : c.toNat < 1000 := by
  simp only [isEscaped, Bool.and_eq_true, decide_eq_true_eq] at h
  exact h.1

theorem isEscaped_backslash : isEscaped '\\' = true := by
  decide

theorem encodeChar_of_isEscaped {c : Char} (h : isEscaped c = true) :
    encodeChar c =
      ['\\', digit (c.toNat / 100), digit (c.toNat / 10 % 10), digit (c.toNat % 10)] :=
  if_pos h

theorem encodeChar_of_not_isEscaped {c : Char} (h : isEscaped c = false) : encodeChar c = [c] :=
  if_neg (by simp [h])

theorem decode_cons_of_ne {c : Char} (h : c ≠ '\\') (rest : List Char) :
    decode (c :: rest) = c :: decode rest := by
  rw [decode]
  rintro _ _ _ _ rfl
  exact absurd rfl h

/-- The written form of a character is read off the front of a text. -/
theorem decode_encodeChar (c : Char) (rest : List Char) :
    decode (encodeChar c ++ rest) = c :: decode rest := by
  cases hescaped : isEscaped c with
  | true =>
      rw [encodeChar_of_isEscaped hescaped]
      simp only [List.cons_append, List.nil_append, decode, code?_digits (lt_of_isEscaped hescaped),
        Char.ofNat_toNat]
  | false =>
      have hc : c ≠ '\\' := by
        rintro rfl
        cases hescaped.symm.trans isEscaped_backslash
      rw [encodeChar_of_not_isEscaped hescaped]
      exact decode_cons_of_ne hc rest

theorem encode_cons (c : Char) (cs : List Char) : encode (c :: cs) = encodeChar c ++ encode cs :=
  List.flatMap_cons

/-- An escaped text is decoded to itself. -/
theorem decode_encode (cs : List Char) : decode (encode cs) = cs := by
  induction cs with
  | nil => rfl
  | cons c cs ih => rw [encode_cons, decode_encodeChar, ih]

/-! ## Characters of written texts -/

/-- A character that may stand in a written text. -/
def IsPlain (c : Char) : Prop :=
  c.toNat < 1000 → isBlank c = false ∧ isControl c = false ∧ c ≠ '#'

theorem isPlain_digit {n : Nat} (h : n < 10) : IsPlain (digit n) := by
  unfold IsPlain
  decide +revert

theorem isPlain_of_mem_encodeChar {c d : Char} (h : d ∈ encodeChar c) : IsPlain d := by
  cases hescaped : isEscaped c with
  | true =>
      have hlt := lt_of_isEscaped hescaped
      rw [encodeChar_of_isEscaped hescaped] at h
      simp only [List.mem_cons, List.not_mem_nil, or_false] at h
      rcases h with rfl | rfl | rfl | rfl
      · intro _
        decide
      · exact isPlain_digit (by omega)
      · exact isPlain_digit (by omega)
      · exact isPlain_digit (by omega)
  | false =>
      rw [encodeChar_of_not_isEscaped hescaped, List.mem_singleton] at h
      subst h
      intro hlt
      simp only [isEscaped, hlt, decide_true, Bool.true_and, Bool.or_eq_false_iff,
        beq_eq_false_iff_ne] at hescaped
      exact ⟨hescaped.1.1.1, hescaped.1.1.2, hescaped.1.2⟩

/-- The characters of escapes and of what is copied are all plain. -/
theorem isPlain_of_mem_encode {cs : List Char} {d : Char} (h : d ∈ encode cs) : IsPlain d := by
  obtain ⟨c, -, hd⟩ := List.mem_flatMap.1 h
  exact isPlain_of_mem_encodeChar hd

theorem digit_ne_backslash {n : Nat} (h : n < 10) : '\\' ≠ digit n := by
  decide +revert

/-- Behind a backslash of a written text there are three digits. -/
theorem digits_of_suffix {cs after : List Char} (h : '\\' :: after <:+ encode cs) :
    ∃ a b c rest, after = a :: b :: c :: rest ∧
      a.isDigit = true ∧ b.isDigit = true ∧ c.isDigit = true := by
  induction cs with
  | nil => exact absurd (List.suffix_nil.1 h) (List.cons_ne_nil _ _)
  | cons c cs ih =>
      rw [encode_cons] at h
      cases hescaped : isEscaped c with
      | true =>
          have hlt := lt_of_isEscaped hescaped
          have hhundreds : c.toNat / 100 < 10 := by omega
          have htens : c.toNat / 10 % 10 < 10 := by omega
          have hones : c.toNat % 10 < 10 := by omega
          rw [encodeChar_of_isEscaped hescaped] at h
          -- the backslash is the first of the four characters, or one of what follows them
          rcases List.suffix_cons_iff.1 h with heq | h
          · cases heq
            exact ⟨_, _, _, _, rfl, isDigit_digit hhundreds, isDigit_digit htens,
              isDigit_digit hones⟩
          rcases List.suffix_cons_iff.1 h with heq | h
          · exact absurd (List.cons.inj heq).1 (digit_ne_backslash hhundreds)
          rcases List.suffix_cons_iff.1 h with heq | h
          · exact absurd (List.cons.inj heq).1 (digit_ne_backslash htens)
          rcases List.suffix_cons_iff.1 h with heq | h
          · exact absurd (List.cons.inj heq).1 (digit_ne_backslash hones)
          exact ih h
      | false =>
          rw [encodeChar_of_not_isEscaped hescaped] at h
          rcases List.suffix_cons_iff.1 h with heq | h
          · cases (List.cons.inj heq).1
            cases hescaped.symm.trans isEscaped_backslash
          · exact ih h

/-! ## Cutting off blanks -/

/-- Whether a character is a blank that has no escape. -/
def isWide (c : Char) : Bool :=
  isBlank c && decide (1000 ≤ c.toNat)

/-- Cutting off blanks in front of texts written character by character, where wide blanks
stand for themselves and all else begins with a character that is no blank. -/
theorem dropWhile_flatMap {write : Char → List Char}
    (hwide : ∀ c, isWide c = true → write c = [c])
    (hother : ∀ c, isWide c = false → ∃ d rest, write c = d :: rest ∧ isBlank d = false)
    (cs : List Char) :
    (cs.flatMap write).dropWhile isBlank = (cs.dropWhile isWide).flatMap write := by
  induction cs with
  | nil => rfl
  | cons c cs ih =>
      rw [List.flatMap_cons]
      cases hc : isWide c with
      | true =>
          have hblank : isBlank c = true := (Bool.and_eq_true_iff.1 hc).1
          rw [hwide c hc, List.dropWhile_cons_of_pos hc, ← ih]
          exact List.dropWhile_cons_of_pos hblank
      | false =>
          obtain ⟨d, rest, hwrite, hd⟩ := hother c hc
          rw [List.dropWhile_cons_of_neg (by simp [hc]), List.flatMap_cons, hwrite]
          exact List.dropWhile_cons_of_neg (by simp [hd])

/-- A wide blank has a code too long for an escape. -/
theorem encodeChar_of_isWide {c : Char} (h : isWide c = true) : encodeChar c = [c] := by
  apply encodeChar_of_not_isEscaped
  have hle : 1000 ≤ c.toNat := of_decide_eq_true (Bool.and_eq_true_iff.1 h).2
  have hlt : ¬ c.toNat < 1000 := by omega
  simp [isEscaped, hlt]

theorem isBlank_of_not_isWide {c : Char} (h : isWide c = false) (hescaped : isEscaped c = false) :
    isBlank c = false := by
  by_cases hlt : c.toNat < 1000
  · have hplain : IsPlain c := by
      apply isPlain_of_mem_encodeChar (c := c)
      rw [encodeChar_of_not_isEscaped hescaped]
      exact List.mem_singleton_self c
    exact (hplain hlt).1
  · have hle : 1000 ≤ c.toNat := by omega
    simpa [isWide, hle] using h

/-- Trimming takes away wide blanks only, since all others are escaped. -/
theorem dropWhile_encode (cs : List Char) :
    (encode cs).dropWhile isBlank = encode (cs.dropWhile isWide) := by
  refine dropWhile_flatMap (fun c hc => encodeChar_of_isWide hc) ?_ cs
  intro c hc
  cases hescaped : isEscaped c with
  | true => exact ⟨_, _, encodeChar_of_isEscaped hescaped, by decide⟩
  | false =>
      exact ⟨c, [], encodeChar_of_not_isEscaped hescaped, isBlank_of_not_isWide hc hescaped⟩

theorem rdropWhile_encode (cs : List Char) :
    (encode cs).rdropWhile isBlank = encode (cs.rdropWhile isWide) := by
  have hreverse : ∀ ds : List Char,
      (encode ds).reverse = ds.reverse.flatMap (List.reverse ∘ encodeChar) :=
    fun _ => List.reverse_flatMap
  have hdrop : ((encode cs).reverse).dropWhile isBlank =
      (encode (cs.rdropWhile isWide)).reverse := by
    rw [hreverse, hreverse, List.rdropWhile, List.reverse_reverse]
    refine dropWhile_flatMap ?_ ?_ _
    · intro c hc
      rw [Function.comp_apply, encodeChar_of_isWide hc]
      rfl
    · intro c hc
      cases hescaped : isEscaped c with
      -- from behind, an escape begins with its last digit
      | true =>
          have hones : c.toNat % 10 < 10 := by omega
          have hlt : (digit (c.toNat % 10)).toNat < 1000 := by
            rw [toNat_digit hones]
            omega
          rw [Function.comp_apply, encodeChar_of_isEscaped hescaped]
          exact ⟨_, _, rfl, (isPlain_digit hones hlt).1⟩
      | false =>
          refine ⟨c, [], ?_, isBlank_of_not_isWide hc hescaped⟩
          rw [Function.comp_apply, encodeChar_of_not_isEscaped hescaped]
          rfl
  rw [List.rdropWhile, hdrop, List.reverse_reverse]

theorem trimChars_encode (cs : List Char) :
    trimChars (encode cs) = encode ((cs.dropWhile isWide).rdropWhile isWide) := by
  change ((encode cs).dropWhile isBlank).rdropWhile isBlank = _
  rw [dropWhile_encode, rdropWhile_encode]

theorem dropWhile_eq_self {p : Char → Bool} {cs : List Char} :
    cs.dropWhile p = cs ↔ ∀ c, cs.head? = some c → p c = false := by
  rw [List.dropWhile_eq_self_iff]
  cases cs with
  | nil => simp
  | cons c cs => simp

theorem rdropWhile_eq_self {p : Char → Bool} {cs : List Char} :
    cs.rdropWhile p = cs ↔ ∀ c, cs.getLast? = some c → p c = false := by
  rw [List.rdropWhile, ← List.reverse_inj, List.reverse_reverse, dropWhile_eq_self,
    List.head?_reverse]

/-- A text loses nothing of its characters exactly if no wide blank is at one of its ends. -/
theorem rdropWhile_dropWhile_eq_self {p : Char → Bool} {cs : List Char} :
    (cs.dropWhile p).rdropWhile p = cs ↔
      (∀ c, cs.head? = some c → p c = false) ∧ ∀ c, cs.getLast? = some c → p c = false := by
  rw [← dropWhile_eq_self, ← rdropWhile_eq_self]
  constructor
  · intro h
    have hsuffix := List.dropWhile_suffix p (l := cs)
    have hprefix := List.rdropWhile_prefix p (cs.dropWhile p)
    have hfront : cs.dropWhile p = cs := by
      apply hsuffix.eq_of_length
      have hle := hprefix.length_le
      rw [h] at hle
      exact Nat.le_antisymm hsuffix.length_le hle
    rw [hfront] at h
    exact ⟨hfront, h⟩
  · rintro ⟨hfront, hback⟩
    rw [hfront, hback]

end Text.Escape

namespace Text.Numeral

/-! ## Decimal digits -/

theorem digit?_of_isDigit {c : Char} (h : c.isDigit = true) :
    digit? 10 c = some (c.toNat - 48) := by
  have hrange : '0' ≤ c ∧ c ≤ '9' := by
    simpa [Char.isDigit, Char.le_def] using h
  have hle : c.toNat ≤ 57 := hrange.2
  have hlt : c.toNat - 48 < 10 := by omega
  simp [digit?, hrange, hlt]

theorem extend?_of_isDigit {cs : List Char} (h : ∀ c ∈ cs, c.isDigit = true) (high : Nat) :
    extend? 10 high cs = some (Nat.ofDigitChars 10 cs high) := by
  induction cs generalizing high with
  | nil => rfl
  | cons c cs ih =>
      have hrest : ∀ d ∈ cs, d.isDigit = true := fun d hd => h d (List.mem_cons_of_mem c hd)
      simp only [extend?, digit?_of_isDigit (h c List.mem_cons_self), ih hrest, Nat.ofDigitChars,
        List.foldl_cons, Nat.mul_comm]
      rfl

/-- Digits alone announce no base. -/
theorem magnitude?_of_isDigit {cs : List Char} (h : ∀ c ∈ cs, c.isDigit = true) :
    magnitude? cs = digits? 10 cs := by
  fun_cases magnitude? cs with
  | case1 rest | case2 rest | case3 rest | case4 rest =>
      have hsecond := h _ (List.mem_cons_of_mem _ List.mem_cons_self)
      exact absurd hsecond (by decide)
  | case5 => rfl

/-- Digits alone have no sign. -/
theorem integer?_of_isDigit {cs : List Char} (h : ∀ c ∈ cs, c.isDigit = true) :
    integer? cs = (magnitude? cs).map fun n : Nat => (n : Int) := by
  fun_cases integer? cs with
  | case1 rest | case2 rest => exact absurd (h _ List.mem_cons_self) (by decide)
  | case3 => rfl

theorem isDigit_of_mem_toDigits (n : Nat) : ∀ c ∈ Nat.toDigits 10 n, c.isDigit = true :=
  fun _ hc => Nat.isDigit_of_mem_toDigits (by omega) (by omega) hc

theorem magnitude?_toDigits (n : Nat) : magnitude? (Nat.toDigits 10 n) = some n := by
  rw [magnitude?_of_isDigit (isDigit_of_mem_toDigits n), digits?]
  · rw [extend?_of_isDigit (isDigit_of_mem_toDigits n),
      Nat.ofDigitChars_toDigits (by omega) (by omega)]
  · exact Nat.toDigits_ne_nil

/-- A number is read as it was written. -/
theorem integer?_write (n : Int) : integer? (write n).toList = some n := by
  cases n with
  | ofNat n =>
      rw [write, Nat.toList_repr, integer?_of_isDigit (isDigit_of_mem_toDigits n),
        magnitude?_toDigits]
      rfl
  | negSucc n =>
      rw [write, String.toList_append, Nat.toList_repr]
      change (magnitude? (Nat.toDigits 10 (n + 1))).map (fun k : Nat => -(k : Int)) = _
      rw [magnitude?_toDigits]
      rfl

theorem int64?_toInt (n : Int64) : int64? n.toInt = some n := by
  have hle := n.le_toInt
  have hlt := n.toInt_lt
  rw [int64?, if_pos (by omega), Int64.ofInt_toInt]

theorem read?_write (n : Int64) : read? (write n.toInt) = some n := by
  rw [read?, integer?_write]
  exact int64?_toInt n

end Text.Numeral

/-! ## Literals -/

theorem Literal.value?_string (text : String) :
    Literal.value? ⟨.string, text⟩ = some (.str (String.ofList (Text.Escape.decode text.toList))) :=
  rfl

namespace Value

/-- A value is read back from its text. -/
theorem value?_literalText (v : Value) : Literal.value? ⟨v.type, v.literalText⟩ = some v := by
  cases v with
  | int n =>
      change (Text.Numeral.read? (Text.Numeral.write n.toInt)).map Value.int = some (.int n)
      rw [Text.Numeral.read?_write]
      rfl
  | str s =>
      change Literal.value? ⟨.string, String.ofList (Text.Escape.encode s.toList)⟩ = _
      rw [Literal.value?_string, String.toList_ofList, Text.Escape.decode_encode,
        String.ofList_toList]
  | bool b => cases b <;> decide
  | nil => rfl

/-- The names of types differ in their first letters. -/
theorem name_head_injective {t u : ValueType} (h : t.name.toList.head? = u.name.toList.head?) :
    t = u := by
  cases t <;> cases u <;> first | rfl | exact absurd h (by decide)

theorem render_injective : Function.Injective Value.render := by
  intro v w h
  have hchars : v.type.name.toList ++ '@' :: v.literalText.toList =
      w.type.name.toList ++ '@' :: w.literalText.toList := by
    simpa [Value.render, Literal.render] using congrArg String.toList h
  have hhead : ∀ (t : ValueType) (rest : List Char),
      (t.name.toList ++ rest).head? = t.name.toList.head? := by
    intro t rest
    cases t <;> rfl
  have htype : v.type = w.type := by
    apply name_head_injective
    rw [← hhead v.type, hchars, hhead w.type]
  have htext : v.literalText = w.literalText := by
    rw [htype, List.append_cancel_left_eq, List.cons.injEq] at hchars
    exact String.toList_injective hchars.2
  apply Option.some.inj
  rw [← value?_literalText v, ← value?_literalText w, htype, htext]

/-- The text of a string keeps its value when it is trimmed, exactly if no blank without an
escape is at one of its ends. -/
theorem value?_trim_literalText (s : String) :
    Literal.value? ⟨.string, Text.trim (Value.str s).literalText⟩ = some (.str s) ↔
      (∀ c, s.toList.head? = some c → Text.Escape.isWide c = false) ∧
        ∀ c, s.toList.getLast? = some c → Text.Escape.isWide c = false := by
  have htrim : (Text.trim (Value.str s).literalText).toList =
      Text.Escape.encode
        ((s.toList.dropWhile Text.Escape.isWide).rdropWhile Text.Escape.isWide) := by
    rw [Text.trim, String.toList_ofList, Value.literalText, String.toList_ofList,
      Text.Escape.trimChars_encode]
  rw [Literal.value?_string, htrim, Text.Escape.decode_encode,
    ← Text.Escape.rdropWhile_dropWhile_eq_self, Option.some.injEq, Value.str.injEq]
  constructor
  · intro h
    have hchars := congrArg String.toList h
    rwa [String.toList_ofList] at hchars
  · intro h
    rw [h, String.ofList_toList]

end Value

theorem operandOf_string (text : String) :
    Document.operandOf "string" text = .ok (.constant ⟨.string, text⟩) := by
  have hname : ValueType.ofName? "string" = some .string := by decide
  simp [Document.operandOf, hname]

/-- Values are written and read back.

* A value is written as the name of its type, an `@` and a text whose literal has the value;
  so no two values are written alike.
* In the text of a string there is no blank, control character or `#` of a code below 1000,
  and behind each backslash there are three digits.  An argument of a document with this text
  has the string as its value exactly if the string has no blank of a code from 1000 on at its
  beginning or end. -/
theorem literal_round_trip :
    (∀ v : Value, v.render = v.type.name ++ "@" ++ v.literalText ∧
      Literal.value? ⟨v.type, v.literalText⟩ = some v) ∧
    Function.Injective Value.render ∧
    ∀ s : String,
      (∀ c ∈ (Value.str s).literalText.toList, c.toNat < 1000 →
        Text.isBlank c = false ∧ Text.Escape.isControl c = false ∧ c ≠ '#') ∧
      (∀ after, '\\' :: after <:+ (Value.str s).literalText.toList →
        ∃ a b c rest, after = a :: b :: c :: rest ∧
          a.isDigit = true ∧ b.isDigit = true ∧ c.isDigit = true) ∧
      ((∃ l, Document.operandOf "string" (Text.trim (Value.str s).literalText) = .ok (.constant l) ∧
          l.value? = some (.str s)) ↔
        ∀ c, s.toList.head? = some c ∨ s.toList.getLast? = some c →
          ¬ (Text.isBlank c = true ∧ 1000 ≤ c.toNat)) := by
  refine ⟨fun v => ⟨rfl, v.value?_literalText⟩, Value.render_injective, ?_⟩
  intro s
  have htext : (Value.str s).literalText.toList = Text.Escape.encode s.toList :=
    String.toList_ofList
  refine ⟨?_, ?_, ?_⟩
  · intro c hc
    rw [htext] at hc
    exact Text.Escape.isPlain_of_mem_encode hc
  · intro after hafter
    rw [htext] at hafter
    exact Text.Escape.digits_of_suffix hafter
  · have hwide : ∀ c,
        Text.Escape.isWide c = false ↔ ¬ (Text.isBlank c = true ∧ 1000 ≤ c.toNat) := by
      intro c
      rw [← Bool.not_eq_true, Text.Escape.isWide, Bool.and_eq_true, decide_eq_true_eq]
    simp only [operandOf_string, Except.ok.injEq, Operand.constant.injEq, exists_eq_left',
      Value.value?_trim_literalText, hwide, or_imp, forall_and]

end IppCode
