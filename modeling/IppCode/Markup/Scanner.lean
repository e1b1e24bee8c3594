import IppCode.Markup.Character

/-!
# Scanners

A scanner reads something from the front of a list of characters and gives what is
left, or fails.  No scanner leaves more than it was given; those that a loop repeats
leave less, which is why the loops end.
-/

namespace IppCode.Markup

/-- Reads something from the front of the characters. -/
abbrev Scanner := StateT (List Char) Option

namespace Scanner

variable {α β : Type}

/-- Skips blanks. -/
def spaces : Scanner Unit := fun s =>
  some ((), s.dropWhile isSpace)

/-- Reads a fixed text. -/
def exactly (text : List Char) : Scanner Unit := fun s =>
  (text.isPrefixOf? s).map fun rest => ((), rest)

/-- Reads the characters up to the first that does not satisfy a condition. -/
def spanning (p : Char → Bool) : Scanner (List Char) := fun s =>
  some (s.takeWhile p, s.dropWhile p)

/-- Succeeds if a condition holds. -/
def require (b : Bool) : Scanner Unit := fun s =>
  if b then some ((), s) else none

/-- Divides characters at the first occurrence of a text, which is dropped.  All
characters before it have to be allowed. -/
def cut? (stop : List Char) : List Char → Option (List Char × List Char)
  | [] => none
  | c :: rest =>
    match stop.isPrefixOf? (c :: rest) with
    | some after => some ([], after)
    | none =>
      if isAllowed c then (cut? stop rest).map fun (before, after) => (c :: before, after)
      else none

/-- Reads the characters before the first occurrence of a text, and that text. -/
def before (stop : List Char) : Scanner (List Char) :=
  cut? stop

/-! ## What scanners leave -/

/-- A scanner leaves at most what it was given. -/
def NonGrowing (p : Scanner α) : Prop :=
  ∀ s a rest, p s = some (a, rest) → rest.length ≤ s.length

theorem nonGrowing_pure (a : α) : NonGrowing (pure a : Scanner α) := by
  rintro s b rest ⟨⟩
  exact Nat.le_refl _

theorem NonGrowing.bind {p : Scanner α} {f : α → Scanner β} (hp : NonGrowing p)
    (hf : ∀ a, NonGrowing (f a)) : NonGrowing (p >>= f) := by
  intro s b rest h
  cases hps : p s with
  | none => simp [Bind.bind, StateT.bind, hps] at h
  | some result =>
    obtain ⟨a, middle⟩ := result
    have hrest : f a middle = some (b, rest) := by
      simpa [Bind.bind, StateT.bind, hps] using h
    exact Nat.le_trans (hf a middle b rest hrest) (hp s a middle hps)

theorem nonGrowing_spaces : NonGrowing spaces := by
  rintro s _ rest ⟨⟩
  exact (List.dropWhile_suffix _).length_le

theorem nonGrowing_spanning (p : Char → Bool) : NonGrowing (spanning p) := by
  rintro s run rest ⟨⟩
  exact (List.dropWhile_suffix _).length_le

theorem nonGrowing_require (b : Bool) : NonGrowing (require b) := by
  intro s _ rest h
  cases b
  · simp [require] at h
  · simp only [require, if_true, Option.some.injEq, Prod.mk.injEq] at h
    exact h.2 ▸ Nat.le_refl _

theorem length_le_of_isPrefixOf? {text s rest : List Char}
    (h : text.isPrefixOf? s = some rest) : rest.length ≤ s.length := by
  induction text generalizing s with
  | nil =>
    have hrest : s = rest := Option.some.inj h
    exact hrest ▸ Nat.le_refl _
  | cons c text ih =>
    cases s with
    | nil => cases h
    | cons d s =>
      change (if c == d then text.isPrefixOf? s else none) = some rest at h
      split at h
      · exact Nat.le_succ_of_le (ih h)
      · simp at h

theorem nonGrowing_exactly (text : List Char) : NonGrowing (exactly text) := by
  intro s _ rest h
  obtain ⟨after, hafter, heq⟩ := Option.map_eq_some_iff.1 h
  cases heq
  exact length_le_of_isPrefixOf? hafter

theorem nonGrowing_before (stop : List Char) : NonGrowing (before stop) := by
  intro s
  induction s with
  | nil =>
    intro run rest h
    simp [before, cut?] at h
  | cons c s ih =>
    intro run rest h
    rw [before, cut?] at h
    split at h
    · rename_i after hafter
      simp only [Option.some.injEq, Prod.mk.injEq] at h
      exact h.2 ▸ length_le_of_isPrefixOf? hafter
    · split at h
      · obtain ⟨⟨run', rest'⟩, hcut, heq⟩ := Option.map_eq_some_iff.1 h
        cases heq
        exact Nat.le_succ_of_le (ih run' rest hcut)
      · simp at h

end Scanner

end IppCode.Markup
