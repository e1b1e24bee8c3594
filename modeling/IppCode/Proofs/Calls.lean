import IppCode.Proofs.ControlState

/-!
# Calls and returns

A call puts the position behind itself on the call stack, and a return takes one from it.
Nothing says that a subroutine is left the way it was entered: jumps may lead into its body
and out of it, and further calls may be open when it returns.  Still, the first return that
brings the call stack down to its depth before a call comes back to right behind that call.

* `Moves` lists what a step can do to the position and the call stack, `moves_of_step`.
* What stands on the call stack from the position of a call on down is a suffix of it as long
  as the call is open (`suffix_of_step`, `suffix_of_run`).
* So the return that closes the call finds the position behind it on the top, and under it
  the call stack as it was (`return_behind_call`).
-/

namespace IppCode.Machine

/-- The machine is at an instruction with an opcode. -/
def At (is : List Instruction) (opcode : Opcode) (m : Machine) : Prop :=
  ∃ i, is[m.position]? = some i ∧ i.opcode = opcode

/-- After some steps of a run a return is made that leaves the call stack with a depth. -/
def ReturnsTo (is : List Instruction) (p : Program) (start : Machine) (steps depth : Nat) : Prop :=
  ∃ m m', run p steps start = .running m ∧ m.At is .return ∧ step p m = .running m' ∧
    m'.memory.calls.size = depth

/-- What a step does to the position and to the call stack. -/
inductive Moves (is : List Instruction) (i : Instruction) (m m' : Machine) : Prop
  | onward (hopcode : i.opcode ≠ .call ∧ i.opcode ≠ .return)
      (hposition : m'.position = m.position + 1)
      (hcalls : m'.memory.calls = m.memory.calls)
  | jump {name : String} (hopcode : i.opcode ≠ .call ∧ i.opcode ≠ .return)
      (htargets : i.Targets name)
      (hlabel : is[m'.position]? = some (declaration name))
      (hcalls : m'.memory.calls = m.memory.calls)
  | call {name : String} (hopcode : i.opcode = .call) (htargets : i.Targets name)
      (hlabel : is[m'.position]? = some (declaration name))
      (hcalls : m'.memory.calls = m.memory.calls.push (m.position + 1))
  | comeBack (hopcode : i.opcode = .return)
      (hpop : m.memory.calls.pop? = some (m'.position, m'.memory.calls))

variable {is : List Instruction} {p : Program} {m m' : Machine}

/-- Every step is one of these. -/
theorem moves_of_step (h : Program.ofInstructions is = .ok p) (hstep : step p m = .running m') :
    ∃ i, is[m.position]? = some i ∧ Moves is i m m' := by
  obtain ⟨line, mid, hline, hcases⟩ := step_running hstep
  refine ⟨line.instruction, (Program.line_of_getElem? h hline).1, ?_⟩
  have hopcode := opcode_of_line h hline
  rcases hcases with ⟨hexec, rfl⟩ | ⟨t, hexec, rfl⟩
  · have hposition : mid.advanced.position = m.position + 1 := by
      rw [advanced, hexec.position_eq]
    rcases hexec.calls_cases with ⟨hneither, hcalls⟩ | ⟨-, ⟨t, hflow⟩, -⟩ | ⟨-, r, hflow, -⟩
    · rw [hopcode] at hneither
      exact .onward hneither hposition hcalls
    -- calls and returns do not go on behind themselves
    · cases hflow
    · cases hflow
  · rcases hexec.calls_cases with ⟨hneither, hcalls⟩ | ⟨hcall, -, hcalls⟩ |
      ⟨hreturn, r, hflow, hpop⟩
    · rcases hexec.jump_cases with htarget | ⟨hreturn, -⟩
      · obtain ⟨name, htargets, hlabel⟩ := declaration_of_target? h hline htarget
        rw [hopcode] at hneither
        exact .jump hneither htargets hlabel hcalls
      · exact absurd hreturn hneither.2
    · rcases hexec.jump_cases with htarget | ⟨hreturn, -⟩
      · obtain ⟨name, htargets, hlabel⟩ := declaration_of_target? h hline htarget
        exact .call (hopcode ▸ hcall) htargets hlabel hcalls
      · rw [hcall] at hreturn
        cases hreturn
    · cases hflow
      exact .comeBack (hopcode ▸ hreturn) hpop

/-! ## Open calls -/

section Open

variable {r : Nat} {below : List Nat} (h : Program.ofInstructions is = .ok p)

include h

/-- A step keeps what stands on the call stack from an entry on down, or it is the return
that takes this entry. -/
theorem suffix_of_step (hopen : r :: below <:+ m.memory.calls.items)
    (hstep : step p m = .running m') :
    r :: below <:+ m'.memory.calls.items ∨
      (m.At is .return ∧ m'.position = r ∧ m'.memory.calls.items = below) := by
  obtain ⟨i, hi, hmoves⟩ := moves_of_step h hstep
  cases hmoves with
  | onward _ _ hcalls | jump _ _ _ hcalls =>
      rw [hcalls]
      exact .inl hopen
  | call _ _ _ hcalls =>
      rw [hcalls]
      exact .inl (List.suffix_cons_iff.2 (.inr hopen))
  | comeBack hopcode hpop =>
      rw [Stack.pop?_eq_some_iff.1 hpop, List.suffix_cons_iff] at hopen
      rcases hopen with htop | hopen
      · injection htop with hposition hbelow
        exact .inr ⟨⟨i, hi, hopcode⟩, hposition.symm, hbelow.symm⟩
      · exact .inl hopen

/-- A call puts the position behind itself on the call stack. -/
theorem calls_of_call (hcall : m.At is .call) (hstep : step p m = .running m') :
    m'.memory.calls = m.memory.calls.push (m.position + 1) := by
  obtain ⟨i, hi, hopcode⟩ := hcall
  obtain ⟨i', hi', hmoves⟩ := moves_of_step h hstep
  obtain rfl : i = i' := Option.some.inj (hi.symm.trans hi')
  cases hmoves with
  | onward hneither | jump hneither => exact absurd hopcode hneither.1
  | call _ _ _ hcalls => exact hcalls
  | comeBack hreturn =>
      rw [hopcode] at hreturn
      cases hreturn

/-- As long as no return brings the call stack down to its depth before a call, everything on
it up to the position behind that call stays. -/
theorem suffix_of_run {start mid : Machine} {j k n : Nat} (hm : run p j start = .running m)
    (hcall : m.At is .call)
    (hopen : ∀ n, j < n → n < k → ¬ ReturnsTo is p start n m.memory.calls.size)
    (hjn : j < n) (hnk : n ≤ k) (hmid : run p n start = .running mid) :
    (m.position + 1) :: m.memory.calls.items <:+ mid.memory.calls.items := by
  induction n generalizing mid with
  | zero => exact absurd hjn (Nat.not_lt_zero j)
  | succ n ih =>
      obtain ⟨before, hbefore, hstep⟩ := run_succ_eq_running_iff.1 hmid
      by_cases hfirst : n = j
      · obtain rfl : m = before := by
          rw [hfirst, hm] at hbefore
          injection hbefore
        rw [calls_of_call h hcall hstep]
        exact List.suffix_rfl
      · have hstill := ih (by omega) (by omega) hbefore
        rcases suffix_of_step h hstill hstep with hnext | ⟨hreturn, -, hitems⟩
        · exact hnext
        · have hdepth : mid.memory.calls.size = m.memory.calls.size := by
            rw [Stack.size, hitems, Stack.size]
          exact absurd ⟨before, mid, hbefore, hreturn, hstep, hdepth⟩
            (hopen n (by omega) (by omega))

end Open

/-- **Return.**  In a run of a program, on any streams, a call is made on the machine `m`.  If
later on a step brings the call stack down to its depth on `m`, and no return between the two has
done so, then this step is a return, it comes back to right behind the call, and the call stack
is the one of `m` again. -/
theorem return_behind_call (h : Program.ofInstructions is = .ok p) {streams : Streams} {j k : Nat}
    {m mid last : Machine} (hm : run p j { streams } = .running m) (hcall : m.At is .call)
    (hjk : j < k) (hmid : run p k { streams } = .running mid) (hlast : step p mid = .running last)
    (hdepth : last.memory.calls.size = m.memory.calls.size)
    (hfirst : ∀ n, j < n → n < k → ¬ ReturnsTo is p { streams } n m.memory.calls.size) :
    mid.At is .return ∧ last.position = m.position + 1 ∧ last.memory.calls = m.memory.calls := by
  have hopen := suffix_of_run h hm hcall hfirst hjk (Nat.le_refl k) hmid
  rcases suffix_of_step h hopen hlast with hstill | ⟨hreturn, hposition, hitems⟩
  -- with the call still open the call stack would be deeper
  · have hlength := hstill.length_le
    rw [Stack.size, Stack.size] at hdepth
    rw [List.length_cons] at hlength
    omega
  · exact ⟨hreturn, hposition, congrArg Stack.mk hitems⟩

/-- Calls `f`, which calls `g`, and exits. -/
def nestedCalls : List Instruction :=
  [⟨.call, [.label "f"]⟩, ⟨.exit, [.constant ⟨.int, "0"⟩]⟩, declaration "f", ⟨.call, [.label "g"]⟩,
    ⟨.return, []⟩, declaration "g", ⟨.return, []⟩]

/-- The return of `g` comes first and leaves the call of `f` open; the one that follows comes
back behind the call of `f`. -/
theorem return_behind_call_nested :
    ∃ p mid last, Program.ofInstructions nestedCalls = .ok p ∧ run p 5 {} = .running mid ∧
      step p mid = .running last ∧ mid.At nestedCalls .return ∧ last.position = 1 ∧
      last.memory.calls = ∅ := by
  have hp : Program.ofInstructions nestedCalls = .ok _ := rfl
  refine ⟨_, _, _, hp, rfl, rfl, ?_⟩
  refine return_behind_call hp (j := 0) (k := 5) rfl ⟨_, rfl, rfl⟩ (by decide) rfl rfl rfl ?_
  rintro n hn hn' ⟨earlier, next, hearlier, -, hnext, hdepth⟩
  obtain rfl | rfl | rfl | rfl : n = 1 ∨ n = 2 ∨ n = 3 ∨ n = 4 := by omega
  all_goals
    cases hearlier
    cases hnext
    cases hdepth

end IppCode.Machine
