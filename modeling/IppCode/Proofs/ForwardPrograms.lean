import IppCode.Proofs.Calls

/-!
# Programs that only jump forward

If every label is declared behind the instructions that name it, then a program stops, on all
streams.  The position alone is no measure of that: returns lead back, and what follows a call
is executed again for every call before it, so the number of steps may be exponential in the
length of the program.

**Strategy.**
1. Each position has an `allowance`, which is more than twice that of the next one.
2. The `potential` of a machine is the allowance of its position and those of all positions to
   return to.  A call splits the allowance of its position in two, a return gives one up, and
   all else moves on to a smaller one, so each step lowers it (`potential_lt_of_step`).
3. A run cannot take more steps than the potential it starts with (`stops_of_potential_le`).
-/

namespace IppCode

/-- Every label that is continued at is declared behind the instructions that name it. -/
def Forward (is : List Instruction) : Prop :=
  ∀ (q t : Nat) (i : Instruction) (name : String), is[q]? = some i → i.Targets name →
    is[t]? = some (declaration name) → q < t

/-! ## Allowances -/

/-- The number of steps allowed with `n` instructions to go. -/
def allowance : Nat → Nat
  | 0 => 1
  | n + 1 => 2 * allowance n + 1

theorem allowance_pos (n : Nat) : 0 < allowance n := by
  cases n with
  | zero => exact Nat.zero_lt_one
  | succ n => exact Nat.succ_pos _

theorem allowance_mono {k n : Nat} (h : k ≤ n) : allowance k ≤ allowance n := by
  induction h with
  | refl => exact Nat.le_refl _
  | @step n _ ih =>
      rw [allowance]
      omega

/-- Behind a position two places together have a smaller allowance than it has. -/
theorem two_allowances_lt {length q r s : Nat} (hq : q < length) (hr : q < r) (hs : q < s) :
    allowance (length - r) + allowance (length - s) < allowance (length - q) := by
  have hnext : allowance (length - q) = 2 * allowance (length - (q + 1)) + 1 := by
    rw [show length - q = length - (q + 1) + 1 by omega, allowance]
  have hr' : allowance (length - r) ≤ allowance (length - (q + 1)) := allowance_mono (by omega)
  have hs' : allowance (length - s) ≤ allowance (length - (q + 1)) := allowance_mono (by omega)
  omega

theorem allowance_lt {length q r : Nat} (hq : q < length) (hr : q < r) :
    allowance (length - r) < allowance (length - q) :=
  Nat.lt_of_le_of_lt (Nat.le_add_right _ _) (two_allowances_lt hq hr hr)

/-- The allowances of several positions in all. -/
def allowances (length : Nat) : List Nat → Nat
  | [] => 0
  | q :: rest => allowance (length - q) + allowances length rest

namespace Machine

variable {is : List Instruction} {p : Program} {m m' : Machine}

/-! ## One step -/

/-- The steps that are allowed from a machine on: at its position, and after each of the
returns that are open. -/
def potential (is : List Instruction) (m : Machine) : Nat :=
  allowances is.length (m.position :: m.memory.calls.items)

theorem potential_pos (is : List Instruction) (m : Machine) : 0 < potential is m := by
  have hpos := allowance_pos (is.length - m.position)
  rw [potential, allowances]
  omega

theorem potential_lt_of_step (h : Program.ofInstructions is = .ok p) (hforward : Forward is)
    (hstep : step p m = .running m') : potential is m' < potential is m := by
  obtain ⟨i, hi, hmoves⟩ := moves_of_step h hstep
  have hlt : m.position < is.length := (List.getElem?_eq_some_iff.1 hi).1
  simp only [potential, allowances]
  cases hmoves with
  | onward _ hposition hcalls =>
      have := allowance_lt hlt (Nat.lt_add_one m.position)
      rw [hposition, hcalls]
      omega
  | jump _ htargets hlabel hcalls =>
      have := allowance_lt hlt (hforward _ _ _ _ hi htargets hlabel)
      rw [hcalls]
      omega
  | call _ htargets hlabel hcalls =>
      have := two_allowances_lt hlt (hforward _ _ _ _ hi htargets hlabel)
        (Nat.lt_add_one m.position)
      rw [hcalls, Stack.push, allowances]
      omega
  | comeBack _ hpop =>
      have := allowance_pos (is.length - m.position)
      rw [Stack.pop?_eq_some_iff.1 hpop, allowances]
      omega

/-! ## Runs -/

theorem stops_of_potential_le (h : Program.ofInstructions is = .ok p) (hforward : Forward is)
    {n : Nat} (hn : potential is m ≤ n) :
    (∃ code last, run p n m = .exited code last) ∨ ∃ f last, run p n m = .faulted f last := by
  induction n generalizing m with
  | zero =>
      have := potential_pos is m
      omega
  | succ n ih =>
      rw [run]
      cases hstep : step p m with
      | running next =>
          have := potential_lt_of_step h hforward hstep
          exact ih (by omega)
      | exited code last => exact .inl ⟨code, last, rfl⟩
      | faulted f last => exact .inr ⟨f, last, rfl⟩

/-- **Termination.**  A program that only jumps forward, its returns apart, ends with an exit
code or a fault on all streams, and it does so within the allowance of its length. -/
theorem forward_program_stops (h : Program.ofInstructions is = .ok p) (hforward : Forward is)
    (streams : Streams) :
    ∃ n ≤ allowance is.length, (∃ code last, run p n { streams } = .exited code last) ∨
      ∃ f last, run p n { streams } = .faulted f last := by
  refine ⟨allowance is.length, Nat.le_refl _, stops_of_potential_le h hforward ?_⟩
  exact Nat.le_refl _

/-- Calls what follows, which calls what follows it in turn. -/
def doubling : List Instruction :=
  [⟨.call, [.label "a"]⟩, declaration "a", ⟨.call, [.label "b"]⟩, declaration "b", ⟨.return, []⟩]

/-- The return at the end is executed four times, the last time without an open call. -/
theorem forward_program_stops_doubling :
    ∃ p last, Program.ofInstructions doubling = .ok p ∧ Forward doubling ∧
      run p 13 {} = .faulted ⟨.missingValue .callStack, some (4, .return)⟩ last ∧
      ∃ n ≤ 63, (∃ code last, run p n {} = .exited code last) ∨
        ∃ f last, run p n {} = .faulted f last := by
  have hp : Program.ofInstructions doubling = .ok _ := rfl
  have hforward : Forward doubling := by
    rintro (_ | _ | _ | _ | _ | q) t i name hi ⟨hopcode, hhead⟩ ht <;> cases hi
    -- the two calls; all else names no label
    · rcases t with _ | t
      · cases ht
      · exact Nat.succ_pos t
    · simp [declaration] at hopcode
    · cases hhead
      by_contra hbefore
      obtain rfl | rfl | rfl : t = 0 ∨ t = 1 ∨ t = 2 := by omega
      all_goals simp [doubling, declaration] at ht
    · simp [declaration] at hopcode
    · simp at hopcode
  exact ⟨_, _, hp, hforward, rfl, forward_program_stops hp hforward {}⟩

end Machine

end IppCode
