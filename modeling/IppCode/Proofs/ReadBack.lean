import IppCode.Proofs.InputLines
import IppCode.Proofs.LiteralText
import IppCode.Proofs.MemoryAccess
import IppCode.Proofs.TextBytes

/-!
# Reading back what was written

A value is written as a text, and read from a line of text.  Between the two there is a line feed,
and what is read depends on how lines are cut from the input and what is dropped at their ends.

Texts of integers and truth values have no blank in them (`not_blank_of_text`), hence no line end,
and nothing is lost.  Of other texts line feeds are lost, and one carriage return at the end: what
is read of a text is what is left of its first line (`readValue_text`).
-/

namespace IppCode

/-! ## Lines and their ends -/

theorem Text.Utf8.lineFeed_mem_encodeChar {c : Char} :
    10 ∈ String.utf8EncodeChar c ↔ c = '\n' := by
  rcases Nat.lt_or_ge c.toNat 128 with hlt | hge
  · rw [encodeChar_of_lt hlt, List.mem_singleton]
    constructor
    · intro h
      have hcode : c.toNat = 10 := by
        rw [← UInt8.toNat_ofNat_of_lt' (show c.toNat < 256 by omega), ← h]
        rfl
      rw [← Char.ofNat_toNat c, hcode]
    · rintro rfl
      rfl
  · refine iff_of_false (fun h => ?_) ?_
    · exact absurd (le_of_mem_encodeChar hge h) (by decide)
    · rintro rfl
      exact absurd hge (by decide)

/-- No byte of a longer character looks like a line feed. -/
theorem Text.Utf8.lineFeed_mem_encode {s : String} : 10 ∈ encode s ↔ '\n' ∈ s.toList := by
  rw [encode_eq, List.mem_flatMap]
  simp only [lineFeed_mem_encodeChar, exists_eq_right]

theorem Text.Utf8.encode_lineFeed : encode "\n" = [10] := by
  decide

/-- Without its line feed a line is as it was, or it loses one carriage return at its end. -/
theorem ChompsTo.of_lineFeed {line text : List Char} (h : ChompsTo (line ++ ['\n']) text) :
    line = text ++ ['\r'] ∨ line = text ∧ line.getLast? ≠ some '\r' := by
  generalize hline : line ++ ['\n'] = whole at h
  cases h with
  | carriageReturn text =>
      have hsplit : text ++ ['\r', '\n'] = text ++ ['\r'] ++ ['\n'] := by simp
      rw [hsplit] at hline
      exact .inl (List.append_cancel_right hline)
  | lineFeed hlast =>
      obtain rfl := List.append_cancel_right hline
      exact .inr ⟨rfl, hlast⟩
  | bare hlast =>
      rw [← hline] at hlast
      exact absurd List.getLast?_concat hlast

/-- A line that ends with a carriage return loses it together with the line feed. -/
theorem dropLineEnd_eq_self_iff {line : List Char} :
    dropLineEnd (line ++ ['\n']) = line ↔ line.getLast? ≠ some '\r' := by
  rcases (chompsTo_dropLineEnd (line ++ ['\n'])).of_lineFeed with hshorter | ⟨hself, hlast⟩
  · refine iff_of_false (fun h => ?_) (fun h => h ?_)
    · have hlength := congrArg List.length hshorter
      rw [h, List.length_append, List.length_singleton] at hlength
      omega
    · rw [hshorter]
      exact List.getLast?_concat
  · exact iff_of_true hself.symm hlast

theorem length_dropLineEnd_le (line : List Char) :
    (dropLineEnd (line ++ ['\n'])).length ≤ line.length := by
  rcases (chompsTo_dropLineEnd (line ++ ['\n'])).of_lineFeed with hshorter | ⟨hself, -⟩
  · have hlength := congrArg List.length hshorter
    rw [List.length_append] at hlength
    omega
  · rw [← hself]

theorem Value.ofLine_encode (type : ValueType) (line : String) :
    Value.ofLine type (Text.Utf8.encode line ++ [10]) =
      .ofText type (String.ofList (dropLineEnd (line.toList ++ ['\n']))) := by
  have hbytes : Text.Utf8.encode line ++ [10] = Text.Utf8.encode (line ++ "\n") := by
    rw [Text.Utf8.encode_append, Text.Utf8.encode_lineFeed]
  have hdecode := Text.Utf8.decode?_encode (line ++ "\n")
  rw [← hbytes] at hdecode
  cases h : Text.Utf8.encode line ++ [10] with
  | nil => exact absurd h (by simp)
  | cons b rest =>
      rw [h] at hdecode
      simp only [Value.ofLine, hdecode, String.toList_append]
      rfl

/-! ## Texts without blanks -/

theorem Text.trim_eq_self {s : String} (h : ∀ c ∈ s.toList, isBlank c = false) : trim s = s := by
  have hchars : trimChars s.toList = s.toList := by
    change (s.toList.dropWhile isBlank).rdropWhile isBlank = s.toList
    exact Escape.rdropWhile_dropWhile_eq_self.2
      ⟨fun c hc => h c (List.mem_of_head? hc), fun c hc => h c (List.mem_of_getLast? hc)⟩
  rw [trim, hchars, String.ofList_toList]

theorem Text.not_blank_of_isDigit {c : Char} (h : c.isDigit = true) : isBlank c = false := by
  obtain ⟨d, hd, rfl⟩ := Escape.isDigit_iff_exists_digit.1 h
  have hlt : (Escape.digit d).toNat < 1000 := by
    rw [Escape.toNat_digit hd]
    omega
  exact (Escape.isPlain_digit hd hlt).1

theorem Text.not_blank_of_write (n : Int) : ∀ c ∈ (Numeral.write n).toList, isBlank c = false := by
  have hdigits : ∀ k, ∀ c ∈ Nat.toDigits 10 k, isBlank c = false :=
    fun k c hc => not_blank_of_isDigit (Numeral.isDigit_of_mem_toDigits k c hc)
  cases n with
  | ofNat k =>
      rw [Numeral.write, Nat.toList_repr]
      exact hdigits k
  | negSucc k =>
      rw [Numeral.write, String.toList_append, Nat.toList_repr]
      exact List.forall_mem_cons.2 ⟨by decide, hdigits (k + 1)⟩

namespace Value

variable {v : Value}

/-- Integers and truth values are written without blanks. -/
theorem not_blank_of_text (h : v.type = .int ∨ v.type = .bool) :
    ∀ c ∈ v.text.toList, Text.isBlank c = false := by
  cases v with
  | int n => exact Text.not_blank_of_write n.toInt
  | bool b =>
      have hall : (truth b).toList.all (fun c => !Text.isBlank c) = true := by
        cases b <;> decide
      simpa [text] using hall
  | str | nil => simp [type] at h

/-- Integers and truth values are read as they were written. -/
theorem ofText_text (h : v.type = .int ∨ v.type = .bool) : Value.ofText v.type v.text = v := by
  have htrim := Text.trim_eq_self (not_blank_of_text h)
  cases v with
  | int n =>
      change ((Text.Numeral.read? (Text.trim (Value.int n).text)).map Value.int).getD .nil = .int n
      rw [htrim, text, Text.Numeral.read?_write]
      rfl
  | bool b =>
      change Value.bool (Text.sameLetters (Text.trim (Value.bool b).text) "true") = .bool b
      rw [htrim]
      cases b <;> decide
  | str | nil => simp [type] at h

end Value

/-! ## The two instructions -/

namespace Streams

variable {s s' : Streams} {c : Channel} {bytes : List UInt8}

theorem write_eq (c : Channel) (bytes : List UInt8) (s : Streams) :
    write c bytes s =
      if (s.taken c bytes).length < bytes.length then
        .error (s.sink c).refusal (s.accept c (s.taken c bytes))
      else .ok () (s.accept c (s.taken c bytes)) :=
  rfl

theorem written_of_write (h : write c bytes s = .ok () s') :
    s'.written c = s.written c ++ bytes := by
  rw [write_eq] at h
  split at h
  · cases h
  · next hlength =>
      cases h
      have hbegin : s.taken c bytes <+: bytes := List.take_prefix _ _
      have hall : s.taken c bytes = bytes := hbegin.eq_of_length_le (Nat.not_lt.1 hlength)
      rw [hall, written_accept]

theorem write_of_taken (h : s.taken c bytes = bytes) :
    write c bytes s = .ok () (s.accept c bytes) := by
  rw [write_eq, h, if_neg (Nat.lt_irrefl _)]

/-- A read takes the line with its line feed and leaves what follows. -/
theorem readValue_line {line rest : List UInt8} (type : ValueType) (hline : 10 ∉ line)
    (h : s.input.ready = line ++ 10 :: rest) :
    readValue type s =
      .ok (.ofLine type (line ++ [10])) { s with input := { s.input with ready := rest } } := by
  have hinput : s.input = Source.prepend { s.input with ready := rest } (line ++ [10]) := by
    rw [Source.prepend, List.append_assoc, List.singleton_append, ← h]
  have hread : Source.readLine s.input = .ok (line ++ [10]) { s.input with ready := rest } :=
    (congrArg Source.readLine hinput).trans (Source.readLine_line hline _)
  simp only [readValue, hread]

/-- What is read of a text without line feeds is what is left of it and the line feed behind it. -/
theorem readValue_text {text : String} {rest : List UInt8} (type : ValueType)
    (hline : '\n' ∉ text.toList) (h : s.input.ready = Text.Utf8.encode text ++ 10 :: rest) :
    readValue type s =
      .ok (.ofText type (String.ofList (dropLineEnd (text.toList ++ ['\n']))))
        { s with input := { s.input with ready := rest } } := by
  rw [readValue_line type (mt Text.Utf8.lineFeed_mem_encode.1 hline) h, Value.ofLine_encode]

end Streams

namespace Machine

variable {m m' : Machine} {x : Variable} {type : ValueType} {v w : Value} {s : String}
  {rest : List UInt8}

/-- The bytes that writing a value brings to an output which takes all of them. -/
def printed (v : Value) : List UInt8 :=
  (endState (execute (.write (.constant v)) {})).streams.written .output

theorem written_of_executes {a : Symbol} {flow : Flow} (ha : a.eval m.memory = .ok v)
    (h : Executes m (.write a) flow m') :
    m'.streams.written .output = m.streams.written .output ++ Text.Utf8.encode v.text := by
  cases h with
  | write hvalue hwrite =>
      cases ha.symm.trans hvalue
      exact Streams.written_of_write hwrite

theorem printed_eq (v : Value) : printed v = Text.Utf8.encode v.text := by
  have hall : ({} : Streams).taken .output (Text.Utf8.encode v.text) = Text.Utf8.encode v.text :=
    List.take_length
  have hexec : Executes {} (.write (.constant v)) .next _ :=
    .write rfl (Streams.write_of_taken hall)
  rw [printed, hexec.execute_eq, endState_ok, written_of_executes rfl hexec]
  rfl

/-- An instruction that reads succeeds, and the variable then holds a value. -/
def ReadsInto (m : Machine) (x : Variable) (type : ValueType) (v : Value) : Prop :=
  ∃ m', execute (.read x type) m = .ok .next m' ∧ m'.memory.read x = .ok v

/-- A declared variable holds what was read, and nothing else. -/
theorem readsInto_iff {streams : Streams} {held : Option Value} (hx : m.memory.slot x = .ok held)
    (hread : Streams.readValue type m.streams = .ok w streams) :
    ReadsInto m x type v ↔ w = v := by
  obtain ⟨memory, hstore⟩ := Memory.exists_write_iff.2 ⟨held, hx⟩
  have hexec : Executes m (.read x type) .next { m with memory, streams } := .read hread hstore
  have hholds := Memory.read_of_write hstore
  constructor
  · rintro ⟨m', hm', hv⟩
    cases hexec.execute_eq.symm.trans hm'
    exact Except.ok.inj (hholds.symm.trans hv)
  · rintro rfl
    exact ⟨_, hexec.execute_eq, hholds⟩

theorem readsInto_printed {held : Option Value} (hx : m.memory.slot x = .ok held)
    (hv : v.type = .int ∨ v.type = .bool)
    (h : m.streams.input.ready = printed v ++ 10 :: rest) : ReadsInto m x v.type v := by
  have hblank := Value.not_blank_of_text hv
  have hline : '\n' ∉ v.text.toList := fun hmem => absurd (hblank _ hmem) (by decide)
  have hlast : v.text.toList.getLast? ≠ some '\r' :=
    fun hmem => absurd (hblank _ (List.mem_of_getLast? hmem)) (by decide)
  rw [printed_eq] at h
  rw [readsInto_iff hx (Streams.readValue_text v.type hline h), dropLineEnd_eq_self_iff.2 hlast,
    String.ofList_toList, Value.ofText_text hv]

/-- What is read in place of a string is the string exactly if its characters are left of a line. -/
theorem readsInto_text_iff {held : Option Value} {line : String} (hx : m.memory.slot x = .ok held)
    (hline : '\n' ∉ line.toList)
    (h : m.streams.input.ready = Text.Utf8.encode line ++ 10 :: rest) :
    ReadsInto m x .string (.str s) ↔ dropLineEnd (line.toList ++ ['\n']) = s.toList := by
  rw [readsInto_iff hx (Streams.readValue_text .string hline h), Value.ofText, Value.str.injEq,
    ← String.toList_inj, String.toList_ofList]

theorem readsInto_printed_str {held : Option Value} (hx : m.memory.slot x = .ok held)
    (h : m.streams.input.ready = printed (.str s) ++ 10 :: rest) :
    ReadsInto m x .string (.str s) ↔ '\n' ∉ s.toList ∧ s.toList.getLast? ≠ some '\r' := by
  rw [printed_eq, Value.text] at h
  by_cases hline : '\n' ∈ s.toList
  · -- only what stands before the first line feed is read, and that is shorter
    obtain ⟨front, back, hs, hfront⟩ := List.eq_append_cons_of_mem hline
    have hsplit : s = String.ofList front ++ "\n" ++ String.ofList back := by
      apply String.toList_injective
      simp [hs]
    have hbytes : m.streams.input.ready =
        Text.Utf8.encode (String.ofList front) ++
          10 :: (Text.Utf8.encode (String.ofList back) ++ 10 :: rest) := by
      rw [h, hsplit, Text.Utf8.encode_append, Text.Utf8.encode_append, Text.Utf8.encode_lineFeed]
      simp
    rw [readsInto_text_iff hx (by rwa [String.toList_ofList]) hbytes, String.toList_ofList]
    refine iff_of_false (fun hsame => ?_) (fun hnone => hnone.1 hline)
    have hle := length_dropLineEnd_le front
    rw [hsame, hs, List.length_append, List.length_cons] at hle
    omega
  · rw [readsInto_text_iff hx hline h, dropLineEnd_eq_self_iff]
    exact ⟨fun hlast => ⟨hline, hlast⟩, And.right⟩

/-- **What is written is read back.**  A line of input holds what was written for a value and a line
feed, and its value is read into a variable.

* An integer or a truth value is read back.
* A string is read back exactly if there is no line feed in it and no carriage return at its end. -/
theorem written_is_read_back :
    (∀ (v : Value) (a : Symbol) (m m' : Machine) (flow : Flow), a.eval m.memory = .ok v →
      execute (.write a) m = .ok flow m' →
        m'.streams.written .output = m.streams.written .output ++ printed v) ∧
    ∀ (m : Machine) (x : Variable) (rest : List UInt8), (∃ held, m.memory.slot x = .ok held) →
      (∀ v : Value, v.type = .int ∨ v.type = .bool →
        m.streams.input.ready = printed v ++ 10 :: rest → ReadsInto m x v.type v) ∧
      ∀ s : String, m.streams.input.ready = printed (.str s) ++ 10 :: rest →
        (ReadsInto m x .string (.str s) ↔
          '\n' ∉ s.toList ∧ s.toList.getLast? ≠ some '\r') := by
  refine ⟨?_, ?_⟩
  · intro v a m m' flow ha h
    rw [printed_eq]
    exact written_of_executes ha (.of_execute h)
  · rintro m x rest ⟨held, hx⟩
    exact ⟨fun v hv h => readsInto_printed hx hv h, fun s h => readsInto_printed_str hx h⟩

/-- A machine with a variable, and a line of input with what is written for a value. -/
def facingLine (v : Value) : Machine where
  memory := { global := ⟨(∅ : Table (Option Value)).insert "x" none⟩ }
  streams := { input := { ready := printed v ++ [10] } }

/-- The least integer is read back, and so is a string with a carriage return in it but not one with
a carriage return at its end. -/
theorem written_is_read_back_least :
    ReadsInto (facingLine (.int (-9223372036854775808))) ⟨.global, "x"⟩ .int
      (.int (-9223372036854775808)) ∧
    ReadsInto (facingLine (.str "a\rb")) ⟨.global, "x"⟩ .string (.str "a\rb") ∧
    ¬ ReadsInto (facingLine (.str "a\r")) ⟨.global, "x"⟩ .string (.str "a\r") := by
  obtain ⟨-, hback⟩ := written_is_read_back
  have hx : ∀ v, ∃ held, (facingLine v).memory.slot ⟨.global, "x"⟩ = .ok held :=
    fun v => ⟨none, rfl⟩
  have hline : ∀ v, (facingLine v).streams.input.ready = printed v ++ 10 :: [] := fun v => rfl
  refine ⟨?_, ?_, fun h => ?_⟩
  · exact (hback _ _ [] (hx _)).1 (.int (-9223372036854775808)) (.inl rfl) (hline _)
  · exact ((hback _ _ [] (hx _)).2 "a\rb" (hline _)).2 (by decide)
  · have hlost := ((hback _ _ [] (hx _)).2 "a\r" (hline _)).1 h
    exact hlost.2 (by decide)

end Machine

end IppCode
