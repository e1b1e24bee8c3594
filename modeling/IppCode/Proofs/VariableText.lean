import Mathlib.Data.List.TakeWhile
import IppCode.Text.Ascii
import IppCode.Variable

/-!
# The written form of variables

A variable is written as the sign of its frame, `@` and its name.  Nothing in the name is marked in
any way, so it may hold further `@`s, blanks, or whatever else a text can hold.  Still the form can
be read, because signs hold no `@`: the first one in a text ends the sign, and all others belong
to the name.

`Divides` says that a text is divided by its first `@`.  A text without one is no variable
(`parse_of_notMem`), and any other is judged by its two parts: first by what stands in front
(`parse_of_unknown`), then by what stands behind (`parse_of_empty`, `parse_of_named`).
-/

namespace IppCode

/-! ## Signs -/

namespace FrameKind

variable {s : String} {kind : FrameKind}

theorem ofSign?_eq_some_iff : ofSign? s = some kind ↔ s = kind.sign := by
  constructor
  · intro h
    have hfound := List.find?_some h
    exact (beq_iff_eq.1 hfound).symm
  · rintro rfl
    cases kind <;> decide

theorem ofSign?_eq_none (h : ∀ kind, s ≠ sign kind) : ofSign? s = none := by
  cases hfound : ofSign? s with
  | none => rfl
  | some kind => exact absurd (ofSign?_eq_some_iff.1 hfound) (h kind)

/-- No sign of a frame holds the mark behind it, so the first mark ends the sign. -/
theorem notMem_sign (kind : FrameKind) : '@' ∉ kind.sign.toList := by
  cases kind <;> decide

/-- A sign in which the case of a letter is changed is no sign. -/
theorem ne_sign_of_sameLetters (hletters : Text.sameLetters s kind.sign = true)
    (hne : s ≠ kind.sign) (other : FrameKind) : s ≠ other.sign := by
  rintro rfl
  by_cases hkind : other = kind
  · exact hne (congrArg sign hkind)
  -- no two signs agree but for the case of their letters
  · have hdistinct : Text.sameLetters other.sign kind.sign = false := by
      revert hkind
      cases other <;> cases kind <;> decide
    rw [hdistinct] at hletters
    cases hletters

end FrameKind

namespace Variable

variable {s sign name : String} {x : Variable}

/-! ## Division at the first `@` -/

/-- The text is divided by its first `@`. -/
structure Divides (s sign name : String) : Prop where
  whole : s = sign ++ "@" ++ name
  first : '@' ∉ sign.toList

theorem Divides.toList_eq (h : Divides s sign name) :
    s.toList = sign.toList ++ '@' :: name.toList := by
  rw [h.whole]
  simp

theorem Divides.ne_at (h : Divides s sign name) : ∀ c ∈ sign.toList, (c != '@') = true := by
  intro c hc
  rw [bne_iff_ne]
  rintro rfl
  exact h.first hc

/-- The search for the first mark finds the sign. -/
theorem Divides.takeWhile_eq (h : Divides s sign name) :
    s.toList.takeWhile (· != '@') = sign.toList := by
  rw [h.toList_eq, List.takeWhile_append_of_pos h.ne_at]
  simp

theorem Divides.dropWhile_eq (h : Divides s sign name) :
    s.toList.dropWhile (· != '@') = '@' :: name.toList := by
  rw [h.toList_eq, List.dropWhile_append_of_pos h.ne_at]
  simp

/-- A text with a mark is divided at its first one. -/
theorem exists_divides (h : '@' ∈ s.toList) : ∃ sign name, Divides s sign name := by
  obtain ⟨front, rest, hchars, hfront⟩ := List.eq_append_cons_of_mem h
  refine ⟨String.ofList front, String.ofList rest, ?_, ?_⟩
  · apply String.toList_injective
    rw [hchars]
    simp
  · rw [String.toList_ofList]
    exact hfront

theorem divides_render (x : Variable) : Divides x.render x.frame.sign x.name :=
  ⟨rfl, x.frame.notMem_sign⟩

/-! ## Reading -/

theorem parse_of_notMem (h : '@' ∉ s.toList) : parse s = .error (.noFrame s) := by
  have hdrop : s.toList.dropWhile (· != '@') = [] := by
    rw [List.dropWhile_eq_nil_iff]
    intro c hc
    rw [bne_iff_ne]
    rintro rfl
    exact h hc
  simp only [parse, hdrop]

/-- An unknown sign is reported even where there is no name behind it. -/
theorem parse_of_unknown (h : Divides s sign name) (hsign : ∀ kind, sign ≠ FrameKind.sign kind) :
    parse s = .error (.unknownFrame sign s) := by
  simp only [parse, h.takeWhile_eq, h.dropWhile_eq, String.ofList_toList,
    FrameKind.ofSign?_eq_none hsign]

theorem parse_of_empty {kind : FrameKind} (h : Divides s kind.sign "") :
    parse s = .error (.emptyName s) := by
  simp [parse, h.takeWhile_eq, h.dropWhile_eq, FrameKind.ofSign?_eq_some_iff.2 rfl]

theorem parse_of_named (h : Divides s x.frame.sign x.name) (hname : x.name ≠ "") :
    parse s = .ok x := by
  simp [parse, h.takeWhile_eq, h.dropWhile_eq, FrameKind.ofSign?_eq_some_iff.2 rfl, hname]

/-- The outcome of reading a text, by how the text is divided. -/
inductive Outcome (s : String) : Except VariableError Variable → Prop
  | noFrame (h : '@' ∉ s.toList) : Outcome s (.error (.noFrame s))
  | unknownFrame {sign name : String} (h : Divides s sign name)
      (hsign : ∀ kind, sign ≠ FrameKind.sign kind) : Outcome s (.error (.unknownFrame sign s))
  | emptyName {kind : FrameKind} (h : Divides s kind.sign "") : Outcome s (.error (.emptyName s))
  | named {x : Variable} (h : Divides s x.frame.sign x.name) (hname : x.name ≠ "") :
      Outcome s (.ok x)

/-- Each text has one of the four outcomes. -/
theorem outcome_parse (s : String) : Outcome s (parse s) := by
  by_cases hat : '@' ∈ s.toList
  · obtain ⟨sign, name, h⟩ := exists_divides hat
    by_cases hsign : ∃ kind, sign = FrameKind.sign kind
    · obtain ⟨kind, rfl⟩ := hsign
      by_cases hname : name = ""
      · subst hname
        rw [parse_of_empty h]
        exact .emptyName h
      · rw [parse_of_named (x := ⟨kind, name⟩) h hname]
        exact .named h hname
    · have hunknown : ∀ kind, sign ≠ FrameKind.sign kind := not_exists.1 hsign
      rw [parse_of_unknown h hunknown]
      exact .unknownFrame h hunknown
  · rw [parse_of_notMem hat]
    exact .noFrame hat

/-- A word is read as a variable exactly if it is the written form of one with a name. -/
theorem parse_eq_ok_iff : parse s = .ok x ↔ s = x.render ∧ x.name ≠ "" := by
  constructor
  · intro h
    have houtcome := outcome_parse s
    rw [h] at houtcome
    cases houtcome with
    | named hdivides hname => exact ⟨hdivides.whole, hname⟩
  · rintro ⟨rfl, hname⟩
    exact parse_of_named (divides_render x) hname

theorem parse_of_nothing_behind (h : Divides s sign "") :
    parse s = .error (.emptyName s) ∨ parse s = .error (.unknownFrame sign s) := by
  by_cases hsign : ∃ kind, sign = FrameKind.sign kind
  · obtain ⟨kind, rfl⟩ := hsign
    exact .inl (parse_of_empty h)
  · exact .inr (parse_of_unknown h (not_exists.1 hsign))

/-- **Variables are read as they are written.**

* A text is read as a variable exactly if the variable has a name and the text is its written form.
  So reading undoes writing, whatever the name holds, and writing undoes reading.
* A text without `@` is refused, and so is one with anything but a sign in front of the first `@`,
  be it a sign in other letters, or with nothing behind it. -/
theorem variables_read_as_written (s : String) :
    (∀ x : Variable, parse s = .ok x ↔ x.name ≠ "" ∧ s = x.render) ∧
    (∀ x : Variable, x.name ≠ "" → parse x.render = .ok x) ∧
    (∀ x : Variable, parse s = .ok x → x.render = s) ∧
    ('@' ∉ s.toList → parse s = .error (.noFrame s)) ∧
    (∀ sign name, Divides s sign name → (∀ kind, sign ≠ FrameKind.sign kind) →
      parse s = .error (.unknownFrame sign s)) ∧
    (∀ (kind : FrameKind) (sign name : String), Divides s sign name →
      Text.sameLetters sign kind.sign = true → sign ≠ kind.sign →
      parse s = .error (.unknownFrame sign s)) ∧
    ∀ sign, Divides s sign "" →
      parse s = .error (.emptyName s) ∨ parse s = .error (.unknownFrame sign s) := by
  refine ⟨?_, ?_, ?_, parse_of_notMem, fun sign name => parse_of_unknown, ?_,
    fun sign => parse_of_nothing_behind⟩
  · intro x
    rw [parse_eq_ok_iff, and_comm]
  · intro x hname
    exact parse_eq_ok_iff.2 ⟨rfl, hname⟩
  · intro x h
    exact (parse_eq_ok_iff.1 h).1.symm
  · intro kind sign name h hletters hne
    exact parse_of_unknown h (FrameKind.ne_sign_of_sameLetters hletters hne)

/-- A name that holds an `@`, a blank and a character of four bytes; and texts without an `@`, with
a small letter in the sign, and with nothing behind the `@`. -/
theorem variables_read_as_written_odd :
    parse "LF@ a@😀" = .ok ⟨.local, " a@😀"⟩ ∧
    render ⟨.local, " a@😀"⟩ = "LF@ a@😀" ∧
    parse "LFa" = .error (.noFrame "LFa") ∧
    parse "Lf@a@" = .error (.unknownFrame "Lf" "Lf@a@") ∧
    (parse "TF@" = .error (.emptyName "TF@") ∨
      parse "TF@" = .error (.unknownFrame "TF" "TF@")) := by
  obtain ⟨-, hwritten, -⟩ := variables_read_as_written ""
  obtain ⟨-, -, hread, -⟩ := variables_read_as_written "LF@ a@😀"
  obtain ⟨-, -, -, hbare, -⟩ := variables_read_as_written "LFa"
  obtain ⟨-, -, -, -, -, hletters, -⟩ := variables_read_as_written "Lf@a@"
  obtain ⟨-, -, -, -, -, -, hempty⟩ := variables_read_as_written "TF@"
  have hparse : parse "LF@ a@😀" = .ok ⟨.local, " a@😀"⟩ := hwritten ⟨.local, " a@😀"⟩ (by decide)
  exact ⟨hparse, hread _ hparse, hbare (by decide),
    hletters .local "Lf" "a@" ⟨by decide, by decide⟩ (by decide) (by decide),
    hempty "TF" ⟨by decide, by decide⟩⟩

end Variable

end IppCode
