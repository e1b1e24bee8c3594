import IppCode.Proofs.MemoryAccess
import IppCode.Proofs.Requests

/-!
# What failed instructions leave behind

An instruction does several things one after the other, and any of them may fail: operands are
evaluated, values are taken from stacks, streams are asked, and at last a result is stored.  What
was done before stays done.  There is not much of it, since in most instructions whatever can fail
comes first: `Remains` lists the five things that a failure can leave, and `Fails.remains` says that
there are no others.

* Nothing at all has happened.
* A value was taken from the data stack, and then could not be stored.
* A line was read, bytes were written to the output, or bytes were written to the diagnostics, as
  far as the streams went along with it.
-/

namespace IppCode

/-- A linked pop has the variable of its instruction. -/
theorem Instruction.pops_of_link {i : Instruction} {labels : Table Nat} {op : Operation Nat}
    (h : i.link labels = .ok op) (hopcode : i.opcode = .pops) :
    ∃ x, i.operands = [.variable x] ∧ op = .pop x := by
  obtain ⟨made, hmade, hresolve⟩ := link_eq_ok_iff.1 h
  have hpop : Operation.onVariable .pop i.operands = some made := by
    rw [← hmade, operation?, hopcode]
  obtain ⟨x, hoperands, rfl⟩ := Operation.onVariable_eq_some_iff.1 hpop
  exact ⟨x, hoperands, (Option.some.inj hresolve).symm⟩

/-! ## The data stack -/

namespace Memory

variable {m m' : Memory} {e : ExecError}

theorem pop?_of_popValue_eq_error (h : m.popValue = .error e m') : m.data.pop? = none := by
  rw [popValue_eq] at h
  split at h
  · assumption
  · cases h

/-- Whether a value can be stored does not depend on the data stack, nor on the value. -/
theorem slot_of_write_eq_error {x : Variable} {below : Stack Value} {content : Option Value}
    (h : ({ m with data := below } : Memory).write x content = .error e m') :
    m.slot x = .error e := by
  rw [← (write_eq_error_iff.1 h).1]
  apply slot_congr
  cases x.frame <;> rfl

end Memory

namespace Machine

variable {is : List Instruction} {p : Program} {m m' : Machine} {op : Operation Nat}
  {e : ExecError} {line : Line}

/-! ## What a failure can leave -/

/-- What an operation that has failed leaves of a machine. -/
inductive Remains (m : Machine) (op : Operation Nat) (e : ExecError) : Machine → Prop
  | untouched (hop : ∀ x, op = .pop x → m.memory.data.pop? = none) : Remains m op e m
  | popped {x : Variable} {v : Value} {below : Stack Value} (hop : op = .pop x)
      (hvalue : m.memory.data.pop? = some (v, below)) (hslot : m.memory.slot x = .error e) :
      Remains m op e { m with memory := { m.memory with data := below } }
  | read {type : ValueType} {streams : Streams} (hop : op.opcode = .read)
      (hstreams : endState (Streams.readValue type m.streams) = streams) :
      Remains m op e (m.withStreams streams)
  | written {text : String} {streams : Streams} (hop : op.opcode = .write)
      (hstreams : endState (Streams.writeText .output text m.streams) = streams) :
      Remains m op e (m.withStreams streams)
  | diagnosed {text : String} {streams : Streams} (hop : op.opcode ∈ [.dprint, .break])
      (hstreams : endState (Streams.diagnose text m.streams) = streams) :
      Remains m op e (m.withStreams streams)

theorem Fails.remains (h : Fails m op e m') : Remains m op e m' := by
  cases h with
  | popValue hvalue => exact .untouched fun _ _ => Memory.pop?_of_popValue_eq_error hvalue
  | popStore hvalue hstore =>
      obtain ⟨below, hpop, rfl⟩ := Memory.popValue_eq_ok hvalue
      exact .popped rfl hpop (Memory.slot_of_write_eq_error hstore)
  | readValue hvalue => exact .read rfl (congrArg endState hvalue)
  | readStore hvalue _ => exact .read rfl (congrArg endState hvalue)
  | writeOutput _ hwrite => exact .written rfl (congrArg endState hwrite)
  | printOutput _ hwrite => exact .diagnosed List.mem_cons_self (congrArg endState hwrite)
  | dump hwrite => exact .diagnosed (by decide) (congrArg endState hwrite)
  -- everywhere else nothing is changed before the last thing that can fail
  | _ => exact .untouched (by simp)

/-! ## What a failure spares -/

/-- What a pop that has failed with an error leaves of the memory.  Either there was nothing to
take, or the value on top was taken and cannot be stored, and nothing else has happened. -/
def FailedPop (i : Instruction) (e : ExecError) (memory memory' : Memory) : Prop :=
  (memory.data.pop? = none ∧ memory' = memory) ∨
  ∃ x v below, i.operands = [.variable x] ∧ memory.data.pop? = some (v, below) ∧
    memory.slot x = .error e ∧ memory' = { memory with data := below }

/-- What an instruction that has failed with an error spares of a machine. -/
structure Spares (i : Instruction) (e : ExecError) (m m' : Machine) : Prop where
  position : m'.position = m.position
  executed : m'.executed = m.executed
  memory : i.opcode ≠ .pops → m'.memory = m.memory
  popped : i.opcode = .pops → FailedPop i e m.memory m'.memory
  input : i.opcode ≠ .read → m'.streams.input = m.streams.input
  output : i.opcode ≠ .write → m'.streams.written .output = m.streams.written .output
  diagnostics : i.opcode ∉ [.dprint, .break] →
    m'.streams.written .diagnostics = m.streams.written .diagnostics
  /-- Most instructions do not even ask the streams for anything. -/
  streams : i.opcode ∉ [.read, .write, .dprint, .break] → m'.streams = m.streams

section Spares

variable {i : Instruction} {labels : Table Nat} {memory : Memory} {t : Streams}

/-- The streams are spared by a failure that is all about the memory. -/
theorem spares_withMemory (hmemory : i.opcode ≠ .pops → memory = m.memory)
    (hpopped : i.opcode = .pops → FailedPop i e m.memory memory) :
    Spares i e m { m with memory } where
  position := rfl
  executed := rfl
  memory := hmemory
  popped := hpopped
  input _ := rfl
  output _ := rfl
  diagnostics _ := rfl
  streams _ := rfl

/-- The memory is spared by a failure that is all about the streams. -/
theorem spares_withStreams (hopcode : i.opcode ∈ [.read, .write, .dprint, .break])
    (hinput : i.opcode ≠ .read → t.input = m.streams.input)
    (houtput : i.opcode ≠ .write → t.written .output = m.streams.written .output)
    (hdiagnostics : i.opcode ∉ [.dprint, .break] →
      t.written .diagnostics = m.streams.written .diagnostics) :
    Spares i e m (m.withStreams t) where
  position := rfl
  executed := rfl
  memory _ := rfl
  popped hpops := by
    rw [hpops] at hopcode
    exact absurd hopcode (by decide)
  input := hinput
  output := houtput
  diagnostics := hdiagnostics
  streams hquiet := absurd hopcode hquiet

theorem Remains.spares (h : Remains m op e m') (hlink : i.link labels = .ok op) :
    Spares i e m m' := by
  have hopcode := Instruction.opcode_of_link hlink
  cases h with
  | untouched hop =>
      refine spares_withMemory (fun _ => rfl) fun hpops => .inl ⟨?_, rfl⟩
      obtain ⟨x, -, hx⟩ := Instruction.pops_of_link hlink hpops
      exact hop x hx
  | @popped x v below hop hvalue hslot =>
      have hpops : i.opcode = .pops := by rw [← hopcode, hop, Operation.opcode]
      obtain ⟨x', hoperands, hx'⟩ := Instruction.pops_of_link hlink hpops
      -- the variable of the operation is that of the instruction
      cases hop.symm.trans hx'
      refine spares_withMemory (fun hne => absurd hpops hne) fun _ => .inr ?_
      exact ⟨x, v, below, hoperands, hvalue, hslot, rfl⟩
  | read hop hstreams =>
      subst hstreams
      rw [hopcode] at hop
      refine spares_withStreams (by simp [hop]) (fun hne => absurd hop hne) ?_ ?_
      · intro _
        exact Streams.written_readValue _ _ .output
      · intro _
        exact Streams.written_readValue _ _ .diagnostics
  | written hop hstreams =>
      subst hstreams
      rw [hopcode] at hop
      refine spares_withStreams (by simp [hop]) ?_ (fun hne => absurd hop hne) ?_
      · intro _
        exact Streams.input_writeText _ _ _
      · intro _
        exact Streams.written_writeText_ne (by decide) _ _
  | diagnosed hop hstreams =>
      subst hstreams
      rw [hopcode] at hop
      refine spares_withStreams ?_ ?_ ?_ (fun hnot => absurd hop hnot)
      · exact List.mem_cons_of_mem _ (List.mem_cons_of_mem _ hop)
      · intro _
        exact Streams.input_diagnose _ _
      · intro _
        exact Streams.output_diagnose _ _

end Spares

/-! ## Programs -/

theorem spares_of_line (hp : Program.ofInstructions is = .ok p)
    (hline : p.lines[m.position]? = some line) (hfails : Fails m line.operation e m') :
    Spares line.instruction e m m' :=
  hfails.remains.spares (Program.line_of_getElem? hp hline).2

/-- **A failed instruction leaves the memory intact**, but for a value that it may have popped.  On
whatever machine, if the instruction at the position of an accepted program fails, then the program
has failed there.  What it leaves has the position, the number of executed instructions and the
memory of before, except that a pop that could not store its value has taken it from the data stack.
No input was consumed unless by a read, and no byte was written to the output unless by a write and
to the diagnostics unless by a print or a dump.

So in every run that fails at an instruction, its end is what is left of the machine before. -/
theorem failed_instructions_spare (hp : Program.ofInstructions is = .ok p) :
    (∀ (m m' : Machine) (line : Line) (e : ExecError), p.lines[m.position]? = some line →
      execute line.operation m = .error e m' →
      is[m.position]? = some line.instruction ∧
      step p m = .faulted ⟨e, some (m.position, line.instruction.opcode)⟩ m' ∧
      Spares line.instruction e m m') ∧
    ∀ (streams : Streams) (n : Nat) (f : Fault) (m' : Machine),
      run p n { streams } = .faulted f m' → f.location ≠ none →
      ∃ m i, Reaches p { streams } m ∧ is[m.position]? = some i ∧
        f.location = some (m.position, i.opcode) ∧ Spares i f.error m m' := by
  constructor
  · intro m m' line e hline hexecute
    have hfails := Fails.of_execute hexecute
    exact ⟨(Program.line_of_getElem? hp hline).1, step_of_fails hline hfails,
      spares_of_line hp hline hfails⟩
  · intro streams n f m' hrun hlocation
    obtain ⟨m, hreach, hstep⟩ := run_stopped hrun (by simp)
    rcases step_faulted hstep with ⟨line, hline, hfails, hlocated⟩ |
      ⟨code, last, text, streams', -, -, rfl, -⟩
    · exact ⟨m, line.instruction, hreach, (Program.line_of_getElem? hp hline).1, hlocated,
        spares_of_line hp hline hfails⟩
    -- the flush at the end belongs to no instruction
    · exact absurd rfl hlocation

/-- Pops into a variable of a frame that is not there. -/
def popNowhere : List Instruction :=
  [⟨.pushs, [.constant ⟨.int, "7"⟩]⟩, ⟨.pops, [.variable ⟨.temporary, "x"⟩]⟩]

/-- The pop fails, with the value already taken, and has not touched anything else. -/
theorem failed_instructions_spare_popNowhere :
    ∃ p m m' f, Program.ofInstructions popNowhere = .ok p ∧ run p 1 {} = .running m ∧
      m.memory.data.toList = [.int 7] ∧ step p m = .faulted f m' ∧
      f.error = .noSuchFrame .temporary ∧ m'.memory = { m.memory with data := ∅ } ∧
      m'.position = m.position ∧ m'.executed = m.executed ∧ m'.streams = m.streams := by
  have hp : Program.ofInstructions popNowhere = .ok _ := rfl
  obtain ⟨hfailed, -⟩ := failed_instructions_spare hp
  obtain ⟨-, hstep, hspares⟩ := hfailed
    { memory := { data := ⟨[.int 7]⟩ }, position := 1, executed := 1 } _ _ _ rfl rfl
  refine ⟨_, _, _, _, hp, rfl, rfl, hstep, rfl, ?_, hspares.position, hspares.executed,
    hspares.streams (by decide)⟩
  rcases hspares.popped rfl with ⟨hnone, -⟩ | ⟨x, v, below, -, hpop, -, hmemory⟩
  · cases hnone
  · cases hpop
    exact hmemory

end Machine

end IppCode
