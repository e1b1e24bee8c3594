import IppCode.Proofs.DirectExecution

/-!
# The table of constants

The constants of a program are converted once, before it runs, and put into a table that
is parallel to the instructions.  Here the table is compared with the conversion of a
constant at the moment it is needed.

* The pass that fills the table never fails behind the check, so the check alone decides
  whether there is a program (`ofInstructions_eq_error_iff`).
* An entry of the table is the value of the constant at its place, and there are no others
  (`constant?_eq_some_iff`).
* A run is the same whether its instructions take their constants from the table, convert
  them each time, or have been linked (`run_eq_onDemand`).

The last is a simulation in lockstep: the instruction that is executed is the one at the
position of the machine, which is where the table is looked up.
-/

namespace IppCode

variable {is : List Instruction} {p : Program}

namespace Program

theorem ofInstructions_eq_error_iff {f : Fault} :
    ofInstructions is = .error f ↔ check is = .error f := by
  cases hcheck : check is with
  | error g => simp [ofInstructions, hcheck]
  | ok labels =>
      obtain ⟨p, hp⟩ := exists_ofInstructions hcheck
      simp [hp]

theorem exists_ofInstructions_iff :
    (∃ p, ofInstructions is = .ok p) ↔ ∃ labels, check is = .ok labels := by
  constructor
  · rintro ⟨p, hp⟩
    exact ⟨p.labels, (ofInstructions_eq_ok_iff.1 hp).1⟩
  · rintro ⟨labels, hcheck⟩
    exact exists_ofInstructions hcheck

/-- The table has the value of each constant at its place, and nothing else. -/
theorem constant?_eq_some_iff (h : ofInstructions is = .ok p) {position k : Nat} {v : Value} :
    p.constant? position k = some v ↔
      ∃ i l, is[position]? = some i ∧ i.operands[k]? = some (.constant l) ∧ l.value? = some v := by
  have hvalue : ∀ o : Operand, o.value? = some v ↔ ∃ l, o = .constant l ∧ l.value? = some v := by
    intro o
    cases o <;> simp [Operand.value?]
  obtain ⟨-, -, -, hrows⟩ := ofInstructions_eq_ok_iff.1 h
  obtain ⟨-, hconstants⟩ := constantsFrom_eq_ok_iff.1 hrows
  have hrow : p.constants[position]? =
      is[position]?.map fun i => i.operands.map Operand.value? := by
    rw [← Array.getElem?_toList, hconstants, List.getElem?_map]
  unfold constant?
  rw [hrow]
  cases is[position]? with
  | none => simp
  | some i =>
      cases hoperand : i.operands[k]? with
      | none => simp [hoperand]
      | some o => simp [hoperand, hvalue]

end Program

theorem ConstantSource.table_agrees (h : Program.ofInstructions is = .ok p) {position : Nat}
    {i : Instruction} (hi : is[position]? = some i) :
    (ConstantSource.table p).Agrees position i := by
  intro k l hl
  apply Option.ext
  intro v
  rw [ConstantSource.table, Program.constant?_eq_some_iff h]
  constructor
  · rintro ⟨i', l', hi', hl', hvalue⟩
    cases hi.symm.trans hi'
    cases hl.symm.trans hl'
    exact hvalue
  · intro hvalue
    exact ⟨i, l, hi, hl, hvalue⟩

/-! ## Running instructions as they stand -/

namespace Direct

/-- Executes the instruction at the position of a machine as it stands. -/
def step (source : ConstantSource) (is : List Instruction) (labels : Table Nat) (m : Machine) :
    Status :=
  match is[m.position]? with
  | none => Machine.finish 0 m
  | some i =>
    match execute source labels i m with
    | .ok flow m => Machine.proceed flow m
    | .error e m' => .faulted ⟨e, some (m.position, i.opcode)⟩ m'

/-- Takes steps until the program stops, but no more than a given number. -/
def run (source : ConstantSource) (is : List Instruction) (labels : Table Nat) :
    Nat → Machine → Status
  | 0, m => .running m
  | steps + 1, m =>
    match step source is labels m with
    | .running m => run source is labels steps m
    | stopped => stopped

section Lockstep

variable {source : ConstantSource}
  (hsource : ∀ position i, is[position]? = some i → source.Agrees position i)
  (h : Program.ofInstructions is = .ok p)

include hsource h

/-- With the right constants an instruction steps to where its line does. -/
theorem step_eq (m : Machine) : step source is p.labels m = Machine.step p m := by
  unfold step Machine.step
  cases hline : p.lines[m.position]? with
  | none =>
      have hnone : is[m.position]? = none :=
        List.getElem?_eq_none ((Program.getElem?_lines_eq_none_iff h).1 hline)
      simp only [hnone]
  | some line =>
      obtain ⟨hi, hlink⟩ := Program.line_of_getElem? h hline
      have hexecute : execute source p.labels line.instruction m =
          Machine.execute line.operation m :=
        execute_of_link (hsource _ _ hi) hlink
      cases hresult : Machine.execute line.operation m <;> simp only [hi, hexecute, hresult]

theorem run_eq (n : Nat) (m : Machine) : run source is p.labels n m = Machine.run p n m := by
  induction n generalizing m with
  | zero => rfl
  | succ n ih =>
      rw [run, Machine.run, step_eq hsource h]
      cases Machine.step p m with
      | running next => exact ih next
      | exited code next => rfl
      | faulted f next => rfl

end Lockstep

end Direct

/-- Instructions are a program exactly if they pass the check, and otherwise have the fault
that the check finds.  The table of the program holds the values of the constants, and its
runs on all streams are, to the last bit of the machine, those in which instructions are
executed as they stand, be it with constants looked up in the table or converted anew at
each execution. -/
theorem run_eq_onDemand (is : List Instruction) :
    ((∃ p, Program.ofInstructions is = .ok p) ↔ ∃ labels, check is = .ok labels) ∧
    (∀ f, Program.ofInstructions is = .error f ↔ check is = .error f) ∧
    ∀ p, Program.ofInstructions is = .ok p →
      (∀ position k v, p.constant? position k = some v ↔
        ∃ i l, is[position]? = some i ∧ i.operands[k]? = some (.constant l) ∧
          l.value? = some v) ∧
      ∀ streams n,
        Direct.run (.table p) is p.labels n { streams } = Machine.run p n { streams } ∧
        Direct.run .onDemand is p.labels n { streams } = Machine.run p n { streams } := by
  refine ⟨Program.exists_ofInstructions_iff, fun f => Program.ofInstructions_eq_error_iff, ?_⟩
  intro p hp
  refine ⟨fun position k v => Program.constant?_eq_some_iff hp, fun streams n => ⟨?_, ?_⟩⟩
  · exact Direct.run_eq (fun _ _ hi => ConstantSource.table_agrees hp hi) hp n { streams }
  · exact Direct.run_eq (fun _ _ _ => ConstantSource.onDemand_agrees _ _) hp n { streams }

/-- Calls a function twice, from a loop, that writes a letter and a blank. -/
def callInLoop : List Instruction :=
  [⟨.defVar, [.variable ⟨.global, "i"⟩]⟩,
    ⟨.move, [.variable ⟨.global, "i"⟩, .constant ⟨.int, "0"⟩]⟩,
    declaration "loop",
    ⟨.call, [.label "say"]⟩,
    ⟨.add, [.variable ⟨.global, "i"⟩, .variable ⟨.global, "i"⟩, .constant ⟨.int, "0x1"⟩]⟩,
    ⟨.jumpIfNeq, [.label "loop", .variable ⟨.global, "i"⟩, .constant ⟨.int, "+2"⟩]⟩,
    ⟨.exit, [.constant ⟨.int, "3"⟩]⟩,
    declaration "say",
    ⟨.write, [.constant ⟨.string, "a\\032"⟩]⟩,
    ⟨.return, []⟩]

/-- The exit code of a program that has exited, and the bytes of its output. -/
def Status.exit? : Status → Option (Nat × List UInt8)
  | .exited code m => some (code, m.streams.written .output)
  | _ => none

/-- The text that is written twice stands in the table once, with its escape decoded.  With
constants converted at each execution the program writes it twice and exits. -/
theorem run_eq_onDemand_callInLoop :
    ∃ p, Program.ofInstructions callInLoop = .ok p ∧ p.constant? 8 0 = some (.str "a ") ∧
      (Direct.run .onDemand callInLoop p.labels 17 {}).exit? =
        some (3, Text.Utf8.encode "a a ") := by
  have hexit : (Program.ofInstructions callInLoop).toOption.bind
      (fun p => (Machine.run p 17 {}).exit?) = some (3, Text.Utf8.encode "a a ") := by
    decide +kernel
  obtain ⟨-, -, hprogram⟩ := run_eq_onDemand callInLoop
  cases hp : Program.ofInstructions callInLoop with
  | error f =>
      rw [hp] at hexit
      cases hexit
  | ok p =>
      rw [hp] at hexit
      obtain ⟨hconstant, hrun⟩ := hprogram p hp
      have hvalue : Literal.value? ⟨.string, "a\\032"⟩ = some (.str "a ") := by decide +kernel
      refine ⟨p, rfl, (hconstant 8 0 _).2 ⟨_, _, rfl, rfl, hvalue⟩, ?_⟩
      rw [(hrun {} 17).2]
      exact hexit

end IppCode
