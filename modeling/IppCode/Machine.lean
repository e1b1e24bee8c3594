import IppCode.Program
import IppCode.Streams

/-!
# The machine

A machine holds the memory of a running program, its position, the number of
instructions executed, and its streams.  `Machine.step` executes one instruction;
`Machine.run` takes a number of steps.  A machine that stops keeps the state it
stopped in, so what an instruction did before it failed can be seen.
-/

namespace IppCode

/-- The state of a running program. -/
structure Machine where
  memory : Memory := {}
  position : Nat := 0
  executed : Nat := 0
  streams : Streams := {}

/-- Where a program continues after an instruction. -/
inductive Flow where
  | next
  | jump (target : Nat)
  | exit (code : Nat)
  deriving DecidableEq

/-- How a program stands: it goes on, has ended with an exit code, or has failed. -/
inductive Status where
  | running (m : Machine)
  | exited (code : Nat) (m : Machine)
  | faulted (fault : Fault) (m : Machine)

namespace Machine

/-- A computation that changes a machine and may fail. -/
abbrev Action := EStateM ExecError Machine

/-- The result of a computation on the memory, which stays as it is. -/
def inspect {α : Type} (f : Memory → Except ExecError α) : Action α := fun m =>
  match f m.memory with
  | .ok a => .ok a m
  | .error e => .error e m

/-- Works on the memory.  What has happened to it stays if the work fails. -/
def onMemory {α : Type} (act : Memory.Action α) : Action α := fun m =>
  match act m.memory with
  | .ok a memory => .ok a { m with memory }
  | .error e memory => .error e { m with memory }

/-- Works on the streams.  What has happened to them stays if the work fails. -/
def onStreams {α : Type} (act : EStateM String Streams α) : Action α := fun m =>
  match act m.streams with
  | .ok a streams => .ok a { m with streams }
  | .error text streams => .error (.io text) { m with streams }

/-- Stores a value in a variable. -/
def assign (x : Variable) (v : Value) : Action Unit :=
  onMemory (Memory.write x (some v))

/-- The whole state of a machine at an instruction that shows it. -/
def report (m : Machine) : String :=
  "position: " ++ Nat.repr m.position ++ "\n"
    ++ "instruction: " ++ Opcode.break.mnemonic ++ "\n"
    ++ "executed instructions: " ++ Nat.repr m.executed ++ "\n"
    ++ m.memory.dump

/-- The exit code that an integer stands for: a byte of 49 at most. -/
def exitCode? (n : Int64) : Option Nat :=
  (n.toInt.toNat?.filter (· < UInt8.size)).filter (· ≤ 49)

/-- The exit code that a value stands for. -/
def exitCode : Value → Except ExecError Nat
  | .int n =>
    match exitCode? n with
    | some code => .ok code
    | none => .error (.operandValue (.exitCode n.toInt))
  | v => .error (mismatch .exit [v])

/-- Whether a conditional jump is taken. -/
def isTaken (equal : Bool) (v w : Value) : Except ExecError Bool :=
  match v.equals? w with
  | some b => .ok (b == equal)
  | none => .error (mismatch (Operation.jumpIfOpcode equal) [v, w])

/-- Executes an operation and says where to continue. -/
def execute : Operation Nat → Action Flow
  | .assign x e => do
    assign x (← inspect e.eval)
    return .next
  | .createFrame => do
    onMemory (modify Memory.createFrame)
    return .next
  | .pushFrame => do
    onMemory Memory.pushFrame
    return .next
  | .popFrame => do
    onMemory Memory.popFrame
    return .next
  | .declare x => do
    onMemory (Memory.declare x)
    return .next
  | .call target => do
    let m ← get
    onMemory (modify fun memory => memory.pushCall (m.position + 1))
    return .jump target
  | .return => do
    return .jump (← onMemory Memory.popCall)
  | .push a => do
    let v ← inspect a.eval
    onMemory (modify fun memory => memory.pushValue v)
    return .next
  | .pop x => do
    assign x (← onMemory Memory.popValue)
    return .next
  | .read x type => do
    assign x (← onStreams (Streams.readValue type))
    return .next
  | .write a => do
    let v ← inspect a.eval
    onStreams (Streams.writeText .output v.text)
    return .next
  | .label _ => return .next
  | .jump target => return .jump target
  | .jumpIf equal target a b => do
    let v ← inspect a.eval
    let w ← inspect b.eval
    let taken ← inspect fun _ => isTaken equal v w
    return if taken then .jump target else .next
  | .exit a => do
    let v ← inspect a.eval
    let code ← inspect fun _ => exitCode v
    return .exit code
  | .print a => do
    let v ← inspect a.eval
    onStreams (Streams.diagnose (v.text ++ "\n"))
    return .next
  | .dump => do
    let m ← get
    onStreams (Streams.diagnose m.report)
    return .next

/-- Ends a program with an exit code once the output is flushed. -/
def finish (code : Nat) (m : Machine) : Status :=
  match onStreams (Streams.flush .output) m with
  | .ok _ m => .exited code m
  | .error e m => .faulted ⟨e, none⟩ m

/-- Continues after an instruction. -/
def proceed (flow : Flow) (m : Machine) : Status :=
  match flow with
  | .next => .running { m with position := m.position + 1, executed := m.executed + 1 }
  | .jump target => .running { m with position := target, executed := m.executed + 1 }
  | .exit code => finish code { m with executed := m.executed + 1 }

/-- Executes the instruction at the position of a machine.  Behind the last one the
program ends with the exit code zero. -/
def step (p : Program) (m : Machine) : Status :=
  match p.lines[m.position]? with
  | none => finish 0 m
  | some line =>
    match execute line.operation m with
    | .ok flow m => proceed flow m
    | .error e m' => .faulted ⟨e, some (m.position, line.instruction.opcode)⟩ m'

/-- Takes steps until the program stops, but no more than a given number. -/
def run (p : Program) : Nat → Machine → Status
  | 0, m => .running m
  | steps + 1, m =>
    match step p m with
    | .running m => run p steps m
    | stopped => stopped

end Machine

end IppCode
