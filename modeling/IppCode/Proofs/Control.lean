import IppCode.Machine
import IppCode.Proofs.Memory

/-!
# Control

Where a machine is, its position, the number of instructions executed and the positions to
return to, matters to a few operations only: to calls, to returns, and to the report of the
whole machine.  All others neither look at it nor change it (`ignoresControl_execute`).

That is shown for the actions that operations are made of, and carried over by
`IgnoresControl.bind`.  The operations of the memory come first: but for calls and returns, they do
the same whatever is on the call stack (`Memory.IgnoresCalls`).
-/

namespace IppCode

/-- The result of work, in a state that has been changed afterwards. -/
def mapState {ε σ α : Type} (f : σ → σ) : EStateM.Result ε σ α → EStateM.Result ε σ α
  | .ok a s => .ok a (f s)
  | .error e s => .error e (f s)

/-- Where a machine is: its position, the number of instructions executed, and the positions
to return to. -/
structure Control where
  position : Nat
  executed : Nat
  calls : Stack Nat

/-- The memory with other positions to return to. -/
def Memory.withCalls (calls : Stack Nat) (memory : Memory) : Memory :=
  { memory with calls }

namespace Memory

variable {calls : Stack Nat} {memory : Memory} {x : Variable}

/-- The frames in sight do not depend on the call stack. -/
theorem frame?_withCalls (kind : FrameKind) :
    (memory.withCalls calls).frame? kind = memory.frame? kind := by
  cases kind <;> rfl

theorem setFrame_withCalls (kind : FrameKind) (f : Frame) :
    (memory.withCalls calls).setFrame kind f = (memory.setFrame kind f).withCalls calls := by
  cases kind <;> rfl

/-- What variables hold does not depend on the call stack. -/
theorem slot_withCalls : (memory.withCalls calls).slot x = memory.slot x := by
  rw [slot, frame?_withCalls, slot]

theorem read_withCalls : (memory.withCalls calls).read x = memory.read x := by
  rw [read, slot_withCalls, read]

/-- The operation neither looks at the call stack nor changes it. -/
def IgnoresCalls {α : Type} (act : Action α) : Prop :=
  ∀ calls memory, act (withCalls calls memory) = mapState (withCalls calls) (act memory)

/-- A write looks at one frame, which is another part of the memory than the call stack. -/
theorem ignoresCalls_write (x : Variable) (content : Option Value) :
    IgnoresCalls (write x content) := by
  intro calls memory
  rw [write_eq, write_eq, frame?_withCalls]
  cases memory.frame? x.frame with
  | none => rfl
  | some f =>
      -- the frame is put back beside the call stack, be that the one or the other
      cases hslot : f.slot? x.name with
      | none => simp only [hslot, mapState]
      | some held => simp only [hslot, mapState, setFrame_withCalls]

theorem ignoresCalls_declare (x : Variable) : IgnoresCalls (declare x) := by
  intro calls memory
  rw [declare_eq, declare_eq, frame?_withCalls]
  cases memory.frame? x.frame with
  | none => rfl
  | some f =>
      cases hslot : f.slot? x.name with
      | none => simp only [hslot, mapState, setFrame_withCalls]
      | some held => simp only [hslot, mapState]

/-- Frames are moved between two parts of the memory, neither of which is the call stack. -/
theorem ignoresCalls_pushFrame : IgnoresCalls pushFrame := by
  intro calls memory
  obtain ⟨global, locals, temporary, data, own⟩ := memory
  cases temporary <;> rfl

theorem ignoresCalls_popFrame : IgnoresCalls popFrame := by
  intro calls memory
  simp only [popFrame_eq, withCalls]
  cases memory.locals.pop? <;> rfl

theorem ignoresCalls_popValue : IgnoresCalls popValue := by
  intro calls memory
  simp only [popValue_eq, withCalls]
  cases memory.data.pop? <;> rfl

end Memory

theorem Symbol.slot_withCalls {calls : Stack Nat} {memory : Memory} (a : Symbol) :
    a.slot (memory.withCalls calls) = a.slot memory := by
  cases a with
  | «variable» x => exact Memory.slot_withCalls
  | constant v => rfl

theorem Symbol.eval_withCalls {calls : Stack Nat} {memory : Memory} (a : Symbol) :
    a.eval (memory.withCalls calls) = a.eval memory := by
  cases a with
  | «variable» x => exact Memory.read_withCalls
  | constant v => rfl

/-- No expression can look at the call stack: all that it sees are variables. -/
theorem Expr.eval_withCalls {calls : Stack Nat} {memory : Memory} (e : Expr) :
    e.eval (memory.withCalls calls) = e.eval memory := by
  cases e <;> simp only [Expr.eval, Symbol.eval_withCalls, Symbol.slot_withCalls,
    Memory.read_withCalls]

namespace Machine

variable {α β : Type} {m : Machine}

/-- The control of a machine. -/
def control (m : Machine) : Control :=
  ⟨m.position, m.executed, m.memory.calls⟩

/-- The machine with another control. -/
def withControl (c : Control) (m : Machine) : Machine :=
  { m with position := c.position, executed := c.executed, memory := m.memory.withCalls c.calls }

theorem withControl_control (m : Machine) : m.withControl m.control = m := rfl

/-- The control of a machine can be chosen freely. -/
theorem control_withControl (c : Control) (m : Machine) : (m.withControl c).control = c := rfl

/-- The action neither looks at the control of a machine nor changes it. -/
def IgnoresControl (act : Action α) : Prop :=
  ∀ c m, act (m.withControl c) = mapState (withControl c) (act m)

theorem ignoresControl_pure (a : α) : IgnoresControl (pure a : Action α) :=
  fun _ _ => rfl

/-- Two actions that ignore the control do so in sequence.  What the first one gives does not depend
on it either, so the second one is the same for every control. -/
theorem IgnoresControl.bind {act : Action α} {next : α → Action β} (hact : IgnoresControl act)
    (hnext : ∀ a, IgnoresControl (next a)) : IgnoresControl (act >>= next) := by
  intro c m
  simp only [Bind.bind, EStateM.bind, hact c m]
  cases act m with
  | ok a m' => exact hnext a c m'
  | error e m' => rfl

/-- What is found in the memory does not depend on the control if it does not on the call stack. -/
theorem ignoresControl_inspect {f : Memory → Except ExecError α}
    (hf : ∀ calls memory, f (Memory.withCalls calls memory) = f memory) :
    IgnoresControl (inspect f) := by
  intro c m
  simp only [inspect, withControl, hf]
  cases f m.memory <;> rfl

/-- Where the call stack does not matter to the memory, the control does not matter to a machine. -/
theorem ignoresControl_onMemory {act : Memory.Action α} (hact : Memory.IgnoresCalls act) :
    IgnoresControl (onMemory act) := by
  intro c m
  simp only [onMemory, withControl, hact c.calls m.memory]
  cases act m.memory <;> rfl

/-- Streams are no part of the control. -/
theorem ignoresControl_onStreams (act : EStateM String Streams α) :
    IgnoresControl (onStreams act) := by
  intro c m
  simp only [onStreams, withControl]
  cases act m.streams <;> rfl

theorem ignoresControl_assign (x : Variable) (v : Value) : IgnoresControl (assign x v) :=
  ignoresControl_onMemory (Memory.ignoresCalls_write x (some v))

/-- Operations other than calls, returns and reports ignore the control. -/
theorem ignoresControl_execute {op : Operation Nat} (hcall : ∀ target, op ≠ .call target)
    (hreturn : op ≠ .return) (hdump : op ≠ .dump) : IgnoresControl (execute op) := by
  have hsymbol : ∀ a : Symbol, IgnoresControl (inspect a.eval) := fun a =>
    ignoresControl_inspect fun _ _ => a.eval_withCalls
  -- every operation is a sequence of actions that ignore the control, the excluded ones apart
  cases op with
  | assign x e =>
      exact (ignoresControl_inspect fun _ _ => e.eval_withCalls).bind fun v =>
        (ignoresControl_assign x v).bind fun _ => ignoresControl_pure _
  | createFrame =>
      exact (ignoresControl_onMemory fun _ _ => rfl).bind fun _ => ignoresControl_pure _
  | pushFrame =>
      exact (ignoresControl_onMemory Memory.ignoresCalls_pushFrame).bind fun _ =>
        ignoresControl_pure _
  | popFrame =>
      exact (ignoresControl_onMemory Memory.ignoresCalls_popFrame).bind fun _ =>
        ignoresControl_pure _
  | declare x =>
      exact (ignoresControl_onMemory (Memory.ignoresCalls_declare x)).bind fun _ =>
        ignoresControl_pure _
  | call target => exact absurd rfl (hcall target)
  | «return» => exact absurd rfl hreturn
  | push a =>
      exact (hsymbol a).bind fun v =>
        (ignoresControl_onMemory fun _ _ => rfl).bind fun _ => ignoresControl_pure _
  | pop x =>
      exact (ignoresControl_onMemory Memory.ignoresCalls_popValue).bind fun v =>
        (ignoresControl_assign x v).bind fun _ => ignoresControl_pure _
  | read x type =>
      exact (ignoresControl_onStreams _).bind fun v =>
        (ignoresControl_assign x v).bind fun _ => ignoresControl_pure _
  | write a =>
      exact (hsymbol a).bind fun v =>
        (ignoresControl_onStreams _).bind fun _ => ignoresControl_pure _
  | label name => exact ignoresControl_pure _
  | jump target => exact ignoresControl_pure _
  | jumpIf equal target a b =>
      exact (hsymbol a).bind fun v => (hsymbol b).bind fun w =>
        (ignoresControl_inspect fun _ _ => rfl).bind fun _ => ignoresControl_pure _
  | exit a =>
      exact (hsymbol a).bind fun v =>
        (ignoresControl_inspect fun _ _ => rfl).bind fun _ => ignoresControl_pure _
  | print a =>
      exact (hsymbol a).bind fun v =>
        (ignoresControl_onStreams _).bind fun _ => ignoresControl_pure _
  | dump => exact absurd rfl hdump

/-- What ignores the control leaves it as it is. -/
theorem IgnoresControl.control_eq {act : Action α} (h : IgnoresControl act) {a : α} {mid : Machine}
    (hact : act m = .ok a mid) : mid.control = m.control := by
  -- the action is compared with itself, on the machine given its own control
  have hsame := h m.control m
  rw [withControl_control, hact, mapState] at hsame
  injection hsame with _ hmid
  rw [hmid, control_withControl]

end Machine

end IppCode
