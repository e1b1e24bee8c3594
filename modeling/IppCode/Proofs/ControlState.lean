import IppCode.Proofs.Linking
import IppCode.Proofs.Memory
import IppCode.Proofs.Runs

/-!
# The control state of a running program

A machine continues behind an instruction, at the label that the instruction names, or
where it comes back to from a call.  None of these leads out of the program: along every
run the position is at most the number of instructions, every entry of the call stack is
the position right behind a call (`Controlled`), and every jump to a label ends at the
declaration of exactly that label.  So a run can leave the program only at its very end.

One step keeps the invariant because of what the rules of execution do to the position
and the call stack (`Executes.calls_cases`, `Executes.jump_cases`) and because linking
has looked up every label in a table that indexes the program.
-/

namespace IppCode

/-- The machine that a program stands at, or has stopped with. -/
def Status.machine : Status → Machine
  | .running m => m
  | .exited _ m => m
  | .faulted _ m => m

/-- A program may end at a position: right behind its last instruction, or at an exit. -/
def EndsAt (is : List Instruction) (position : Nat) : Prop :=
  position = is.length ∨ ∃ i, is[position]? = some i ∧ i.opcode = .exit

/-- The instruction compares two symbols on the memory, and does not jump. -/
def Instruction.PassesOn (i : Instruction) (memory : Memory) : Prop :=
  ∃ equal name o o' a b v w, i = ⟨Operation.jumpIfOpcode equal, [.label name, o, o']⟩ ∧
    o.symbol? = some a ∧ o'.symbol? = some b ∧ a.eval memory = .ok v ∧ b.eval memory = .ok w ∧
    Machine.isTaken equal v w = .ok false

namespace Machine

/-- The position and the call stack of a machine suit a program. -/
structure Controlled (is : List Instruction) (m : Machine) : Prop where
  position_le : m.position ≤ is.length
  /-- Calls come back to right behind an instruction that calls. -/
  calls : ∀ r ∈ m.memory.calls.toList, 1 ≤ r ∧ r ≤ is.length ∧
    ∃ i, is[r - 1]? = some i ∧ i.opcode = .call

variable {is : List Instruction} {p : Program} {m m' : Machine} {op : Operation Nat} {flow : Flow}
  {e : ExecError}

theorem controlled_initial (is : List Instruction) (streams : Streams) :
    Controlled is { streams } :=
  ⟨Nat.zero_le _, fun _ hr => absurd hr List.not_mem_nil⟩

theorem Controlled.of_eq (hm : Controlled is m) (hposition : m'.position = m.position)
    (hcalls : m'.memory.calls = m.memory.calls) : Controlled is m' := by
  refine ⟨?_, ?_⟩
  · rw [hposition]
    exact hm.position_le
  · rw [hcalls]
    exact hm.calls

/-! ## What the rules do to the control state -/

theorem Executes.position_eq (h : Executes m op flow m') : m'.position = m.position := by
  cases h <;> rfl

theorem Fails.position_eq (h : Fails m op e m') : m'.position = m.position := by
  cases h <;> rfl

theorem opcode_ne_of_expr (e : Expr) : e.opcode ≠ .call ∧ e.opcode ≠ .return :=
  ⟨e.opcode_ne (by decide), e.opcode_ne (by decide)⟩

theorem opcode_ne_of_jumpIf (equal : Bool) :
    Operation.jumpIfOpcode equal ≠ .call ∧ Operation.jumpIfOpcode equal ≠ .return := by
  cases equal <;> decide

/-- Only a call and the coming back from one change the call stack, and both jump. -/
theorem Executes.calls_cases (h : Executes m op flow m') :
    ((op.opcode ≠ .call ∧ op.opcode ≠ .return) ∧ m'.memory.calls = m.memory.calls) ∨
    (op.opcode = .call ∧ (∃ t, flow = .jump t) ∧
      m'.memory.calls = m.memory.calls.push (m.position + 1)) ∨
    (op.opcode = .return ∧
      ∃ r, flow = .jump r ∧ m.memory.calls.pop? = some (r, m'.memory.calls)) := by
  cases h with
  | assign _ hstore => exact .inl ⟨opcode_ne_of_expr _, Memory.calls_of_write hstore⟩
  | read _ hstore => exact .inl ⟨by simp [Operation.opcode], Memory.calls_of_write hstore⟩
  | pop hvalue hstore =>
      exact .inl ⟨by simp [Operation.opcode],
        (Memory.calls_of_write hstore).trans (Memory.calls_of_popValue hvalue)⟩
  | declare h => exact .inl ⟨by simp [Operation.opcode], Memory.calls_of_declare h⟩
  | pushFrame h => exact .inl ⟨by simp [Operation.opcode], Memory.calls_of_pushFrame h⟩
  | popFrame h => exact .inl ⟨by simp [Operation.opcode], Memory.calls_of_popFrame h⟩
  | call => exact .inr (.inl ⟨rfl, ⟨_, rfl⟩, rfl⟩)
  | comeBack h =>
      obtain ⟨below, hpop, rfl⟩ := Memory.popCall_eq_ok h
      exact .inr (.inr ⟨rfl, _, rfl, hpop⟩)
  | jumpTaken _ _ _ | jumpPassed _ _ _ =>
      exact .inl ⟨opcode_ne_of_jumpIf _, rfl⟩
  | createFrame | push | write | label | jump | exit | print | dump =>
      exact .inl ⟨by simp [Operation.opcode], rfl⟩

theorem Fails.calls_eq (h : Fails m op e m') : m'.memory.calls = m.memory.calls := by
  cases h with
  | popStore hvalue _ => exact Memory.calls_of_popValue hvalue
  | _ => rfl

/-- A jump goes to the place of the operation, or back to the top of the call stack. -/
theorem Executes.jump_cases {t : Nat} (h : Executes m op (.jump t) m') :
    op.target? = some t ∨
      (op.opcode = .return ∧ ∃ below, m.memory.calls.pop? = some (t, below)) := by
  cases h with
  | call | jump | jumpTaken => exact .inl rfl
  | comeBack h =>
      obtain ⟨below, hpop, -⟩ := Memory.popCall_eq_ok h
      exact .inr ⟨rfl, below, hpop⟩

/-- An operation with a place continues there, unless it is a comparison that fails. -/
theorem Executes.flow_of_target? {t : Nat} (h : Executes m op flow m')
    (htarget : op.target? = some t) :
    flow = .jump t ∨ (flow = .next ∧ ∃ equal a b v w, op = .jumpIf equal t a b ∧
      a.eval m.memory = .ok v ∧ b.eval m.memory = .ok w ∧ isTaken equal v w = .ok false) := by
  cases h with
  | call | jump | jumpTaken =>
      cases htarget
      exact .inl rfl
  | jumpPassed hfirst hsecond hpassed =>
      cases htarget
      exact .inr ⟨rfl, _, _, _, _, _, rfl, hfirst, hsecond, hpassed⟩
  | _ => cases htarget

theorem Executes.exit_cases {code : Nat} (h : Executes m op (.exit code) m') :
    op.opcode = .exit ∧ m' = m := by
  cases h
  exact ⟨rfl, rfl⟩

theorem mem_calls_of_pop? {calls below : Stack Nat} {r s : Nat}
    (h : calls.pop? = some (r, below)) (hs : s = r ∨ s ∈ below.toList) : s ∈ calls.toList := by
  rw [Stack.toList, Stack.pop?_eq_some_iff.1 h]
  simpa [Stack.toList, or_comm] using hs

/-! ## One step -/

section Step

variable {line : Line} {name : String} {k : Nat} (h : Program.ofInstructions is = .ok p)

include h

theorem opcode_of_line (hline : p.lines[k]? = some line) :
    line.operation.opcode = line.instruction.opcode :=
  Instruction.opcode_of_link (Program.line_of_getElem? h hline).2

theorem lt_length_of_line (hline : p.lines[k]? = some line) : k < is.length :=
  (List.getElem?_eq_some_iff.1 (Program.line_of_getElem? h hline).1).1

/-- A linked operation with a place leads to the declaration of the label that its
instruction names. -/
theorem declaration_of_target? {t : Nat} (hline : p.lines[k]? = some line)
    (htarget : line.operation.target? = some t) :
    ∃ name, line.instruction.Targets name ∧ is[t]? = some (declaration name) := by
  obtain ⟨-, hlink⟩ := Program.line_of_getElem? h hline
  obtain ⟨hcheck, -⟩ := Program.ofInstructions_eq_ok_iff.1 h
  rw [Instruction.target?_of_link hlink, Option.bind_eq_some_iff] at htarget
  obtain ⟨name, hname, hfind⟩ := htarget
  exact ⟨name, Instruction.targetLabel?_eq_some_iff.1 hname,
    ((accepted_of_check hcheck).2 name t).1 hfind⟩

/-- An instruction that names a label is linked to the declaration of that label. -/
theorem target?_of_targets (hline : p.lines[k]? = some line)
    (htargets : line.instruction.Targets name) :
    ∃ t, line.operation.target? = some t ∧ is[t]? = some (declaration name) := by
  obtain ⟨hget, hlink⟩ := Program.line_of_getElem? h hline
  obtain ⟨hcheck, -⟩ := Program.ofInstructions_eq_ok_iff.1 h
  obtain ⟨haccepted, hlabels⟩ := accepted_of_check hcheck
  have hmem := haccepted.defined _ (List.mem_of_getElem? hget) name htargets
  obtain ⟨t, ht⟩ := List.mem_iff_getElem?.1 hmem
  refine ⟨t, ?_, ht⟩
  rw [Instruction.target?_of_link hlink, Instruction.targetLabel?_eq_some_iff.2 htargets]
  exact (hlabels name t).2 ht

/-- Executing an instruction keeps the call stack right. -/
theorem Controlled.calls_of_executes (hm : Controlled is m)
    (hline : p.lines[m.position]? = some line) (hexec : Executes m line.operation flow m') :
    ∀ r ∈ m'.memory.calls.toList, 1 ≤ r ∧ r ≤ is.length ∧
      ∃ i, is[r - 1]? = some i ∧ i.opcode = .call := by
  rcases hexec.calls_cases with ⟨-, hsame⟩ | ⟨hcall, -, hpush⟩ | ⟨-, r, -, hpop⟩
  · rw [hsame]
    exact hm.calls
  · rw [hpush]
    intro r hr
    rw [Stack.toList_push, List.mem_append, List.mem_singleton] at hr
    rcases hr with hr | rfl
    · exact hm.calls r hr
    · -- the new entry is the position behind the call itself, at most the end
      refine ⟨Nat.succ_pos _, lt_length_of_line h hline, line.instruction, ?_, ?_⟩
      · exact (Program.line_of_getElem? h hline).1
      · rw [← opcode_of_line h hline, hcall]
  · exact fun s hs => hm.calls s (mem_calls_of_pop? hpop (.inr hs))

/-- A jump stays within the program. -/
theorem Controlled.target_le (hm : Controlled is m) {t : Nat}
    (hline : p.lines[m.position]? = some line) (hexec : Executes m line.operation (.jump t) m') :
    t ≤ is.length := by
  rcases hexec.jump_cases with htarget | ⟨-, below, hpop⟩
  · obtain ⟨name, -, hget⟩ := declaration_of_target? h hline htarget
    exact Nat.le_of_lt (List.getElem?_eq_some_iff.1 hget).1
  · exact (hm.calls t (mem_calls_of_pop? hpop (.inl rfl))).2.1

/-- A program that is about to end does so at its end or at an exit, and its control
state is as before. -/
theorem Controlled.ending (hm : Controlled is m) {code : Nat} {last : Machine}
    (hending : Ending p m code last) : Controlled is last ∧ EndsAt is last.position := by
  cases hending with
  | behind hnone =>
      have hle := (Program.getElem?_lines_eq_none_iff h).1 hnone
      exact ⟨hm, .inl (Nat.le_antisymm hm.position_le hle)⟩
  | exit hline hexec =>
      obtain ⟨hopcode, rfl⟩ := hexec.exit_cases
      refine ⟨hm.of_eq rfl rfl, .inr ⟨_, (Program.line_of_getElem? h hline).1, ?_⟩⟩
      rw [← opcode_of_line h hline, hopcode]

/-- One step keeps the control state right, whether the program goes on or stops. -/
theorem Controlled.step (hm : Controlled is m) : Controlled is (Machine.step p m).machine := by
  rcases step_cases p m with ⟨line, mid, hline, hexec, hstep⟩ |
    ⟨line, target, mid, hline, hexec, hstep⟩ | ⟨line, e, m', -, hfails, hstep⟩ |
    ⟨code, last, hending, hstep⟩
  · have hlt := lt_length_of_line h hline
    have hcalls := hm.calls_of_executes h hline hexec
    rw [← hexec.position_eq] at hlt
    rw [hstep]
    exact ⟨hlt, hcalls⟩
  · have hle := hm.target_le h hline hexec
    have hcalls := hm.calls_of_executes h hline hexec
    rw [hstep]
    exact ⟨hle, hcalls⟩
  · rw [hstep]
    exact hm.of_eq hfails.position_eq hfails.calls_eq
  · rw [hstep]
    obtain ⟨hlast, -⟩ := hm.ending h hending
    rcases finish_cases code last with ⟨streams, -, hfinish⟩ | ⟨text, streams, -, hfinish⟩
    · rw [hfinish]
      exact hlast.of_eq rfl rfl
    · rw [hfinish]
      exact hlast.of_eq rfl rfl

/-- A step from an instruction that names a label ends at the declaration of that label,
or right behind a comparison that fails. -/
theorem position_of_targets {i : Instruction} (hi : is[m.position]? = some i)
    (htargets : i.Targets name) (hstep : Machine.step p m = .running m') :
    is[m'.position]? = some (declaration name) ∨
      (i.PassesOn m.memory ∧ m'.position = m.position + 1) := by
  obtain ⟨line, mid, hline, hcases⟩ := step_running hstep
  obtain ⟨hget, hlink⟩ := Program.line_of_getElem? h hline
  obtain rfl : line.instruction = i := Option.some.inj (hget.symm.trans hi)
  obtain ⟨t, htarget, hdeclared⟩ := target?_of_targets h hline htargets
  rcases hcases with ⟨hexec, rfl⟩ | ⟨target, hexec, rfl⟩
  -- an operation with a place goes on behind itself only as a comparison that fails
  · rcases hexec.flow_of_target? htarget with hflow |
      ⟨-, equal, a, b, v, w, hop, hfirst, hsecond, hpassed⟩
    · cases hflow
    · rw [hop] at hlink
      obtain ⟨label, o, o', hinstruction, ho, ho'⟩ := Instruction.branch_of_link hlink
      refine .inr ⟨⟨equal, label, o, o', a, b, v, w, hinstruction, ho, ho', hfirst, hsecond,
        hpassed⟩, ?_⟩
      rw [advanced, hexec.position_eq]
  · rcases hexec.flow_of_target? htarget with hflow | ⟨hflow, -⟩
    · cases hflow
      exact .inl hdeclared
    · cases hflow

/-! ## Runs -/

/-- Every reached machine has its control state right. -/
theorem Controlled.reaches (hm : Controlled is m) {last : Machine} (hreach : Reaches p m last) :
    Controlled is last := by
  refine hreach.invariant hm ?_
  intro first second hfirst hstep
  have hnext := hfirst.step h
  rw [hstep] at hnext
  exact hnext

/-- So has every machine that a run stands at or stops with. -/
theorem Controlled.run (hm : Controlled is m) (n : Nat) :
    Controlled is (Machine.run p n m).machine := by
  have hstopped : ∀ s, Machine.run p n m = s → (∀ last, s ≠ .running last) →
      Controlled is s.machine := by
    intro s hrun hs
    obtain ⟨mid, hreach, rfl⟩ := run_stopped hrun hs
    exact (hm.reaches h hreach).step h
  cases hrun : Machine.run p n m with
  | running last => exact hm.reaches h (reaches_of_run hrun)
  | exited code last => exact hstopped _ hrun (by simp)
  | faulted f last => exact hstopped _ hrun (by simp)

/-- A run that exits does so at the end of the program or at an exit. -/
theorem Controlled.endsAt_of_exited (hm : Controlled is m) {n code : Nat} {last : Machine}
    (hrun : Machine.run p n m = .exited code last) : EndsAt is last.position := by
  obtain ⟨mid, hreach, hstep⟩ := run_stopped hrun (by simp)
  obtain ⟨before, streams, hending, -, rfl⟩ := step_exited hstep
  exact ((hm.reaches h hreach).ending h hending).2

/-- A run that fails at no instruction has failed in the last flush, and it stands where
it would have exited. -/
theorem Controlled.of_unlocated (hm : Controlled is m) {n : Nat} {f : Fault} {last : Machine}
    (hrun : Machine.run p n m = .faulted f last) (hlocation : f.location = none) :
    EndsAt is last.position ∧ ∃ text before, f.error = .io text ∧
      Streams.flush .output before = .error text last.streams := by
  obtain ⟨mid, hreach, hstep⟩ := run_stopped hrun (by simp)
  rcases step_faulted hstep with ⟨line, -, -, hlocated⟩ |
    ⟨code, before, text, streams, hending, hflush, rfl, rfl⟩
  · rw [hlocated] at hlocation
    cases hlocation
  · exact ⟨((hm.reaches h hreach).ending h hending).2, text, before.streams, rfl, hflush⟩

end Step

/-- The control state of every run of a program, on all streams.  The position is never
behind the end and calls come back to right behind calls; an instruction that names a
label continues at the declaration of that label, unless it is a comparison that fails;
and without a failing instruction the program is left only at its end or by an exit. -/
theorem control_state_invariant (h : Program.ofInstructions is = .ok p) (streams : Streams) :
    (∀ n, Controlled is (run p n { streams }).machine) ∧
    (∀ n m m' i name, run p n { streams } = .running m → is[m.position]? = some i →
      i.Targets name → step p m = .running m' →
      is[m'.position]? = some (declaration name) ∨
        (i.PassesOn m.memory ∧ m'.position = m.position + 1)) ∧
    (∀ n code m, run p n { streams } = .exited code m → EndsAt is m.position) ∧
    ∀ n f m, run p n { streams } = .faulted f m → f.location = none → EndsAt is m.position := by
  have hinitial := controlled_initial is streams
  refine ⟨fun n => hinitial.run h n, ?_, ?_, ?_⟩
  · intro n m m' i name _ hi htargets hstep
    exact position_of_targets h hi htargets hstep
  · intro n code m hrun
    exact hinitial.endsAt_of_exited h hrun
  · intro n f m hrun hlocation
    exact (hinitial.of_unlocated h hrun hlocation).1

/-- Jumps over a function to a call of it, which is the last instruction. -/
def callAtEnd : List Instruction :=
  [⟨.jump, [.label "main"]⟩, declaration "f", ⟨.return, []⟩, declaration "main",
    ⟨.call, [.label "f"]⟩]

/-- The call at the end comes back to right behind the end, and the program exits there. -/
theorem control_state_invariant_callAtEnd :
    ∃ p m last, Program.ofInstructions callAtEnd = .ok p ∧ run p 3 {} = .running m ∧
      m.memory.calls.toList = [callAtEnd.length] ∧ Controlled callAtEnd m ∧
      run p 6 {} = .exited 0 last ∧ EndsAt callAtEnd last.position := by
  obtain ⟨hcontrolled, -, hexited, -⟩ := @control_state_invariant callAtEnd _ rfl {}
  exact ⟨_, _, _, rfl, rfl, rfl, hcontrolled 3, rfl, hexited 6 0 _ rfl⟩

end Machine

end IppCode
