import IppCode.Machine
import IppCode.Proofs.Memory

/-!
# The rules of execution

`Machine.execute` is a program in a monad of actions.  Here it is read as a set of
rules, one or two for each operation:

* `Executes m op flow m'`: on the machine `m` the operation succeeds, says to continue
  as `flow`, and leaves `m'`;
* `Fails m op e m'`: it fails with `e` and leaves `m'`.

`execute_eq_ok_iff` and `execute_eq_error_iff` say that these are exactly the outcomes
of the program.  What an operation can do to a machine is then a matter of cases on the
rules, and nothing has to open the monad again.
-/

namespace IppCode.Machine

/-! ## Actions -/

section Actions

variable {α β : Type} {m m' : Machine} {e : ExecError}

/-- Two actions in sequence succeed exactly if both do, the second one on what the first one leaves.
-/
theorem bind_eq_ok_iff {x : Action α} {f : α → Action β} {b : β} :
    (x >>= f) m = .ok b m' ↔ ∃ a mid, x m = .ok a mid ∧ f a mid = .ok b m' := by
  simp only [bind, EStateM.bind]
  cases x m <;> simp [and_assoc]

/-- Two actions in sequence fail if the first one does, or the second one on what the first one
leaves. -/
theorem bind_eq_error_iff {x : Action α} {f : α → Action β} :
    (x >>= f) m = .error e m' ↔
      x m = .error e m' ∨ ∃ a mid, x m = .ok a mid ∧ f a mid = .error e m' := by
  simp only [bind, EStateM.bind]
  cases x m <;> simp [and_assoc]

theorem pure_eq_ok_iff {a b : α} : (pure a : Action α) m = .ok b m' ↔ a = b ∧ m = m' := by
  simp [pure, EStateM.pure]

theorem pure_ne_error {a : α} : (pure a : Action α) m ≠ .error e m' := by
  simp [pure, EStateM.pure]

theorem get_eq (m : Machine) : (get : Action Machine) m = .ok m m := rfl

theorem get_eq_ok_iff {found : Machine} : (get : Action Machine) m = .ok found m' ↔
    m = found ∧ m = m' := by
  simp [get_eq]

theorem get_ne_error : (get : Action Machine) m ≠ .error e m' := by
  simp [get_eq]

/-- To look at the memory leaves the machine as it was, whatever is found. -/
theorem inspect_eq_ok_iff {f : Memory → Except ExecError α} {a : α} :
    inspect f m = .ok a m' ↔ f m.memory = .ok a ∧ m = m' := by
  unfold inspect
  cases f m.memory <;> simp

theorem inspect_eq_error_iff {f : Memory → Except ExecError α} :
    inspect f m = .error e m' ↔ f m.memory = .error e ∧ m = m' := by
  unfold inspect
  cases f m.memory <;> simp

/-- Work on the memory leaves the rest of the machine as it was. -/
theorem onMemory_eq_ok_iff {act : Memory.Action α} {a : α} :
    onMemory act m = .ok a m' ↔ ∃ memory, act m.memory = .ok a memory ∧ { m with memory } = m' := by
  unfold onMemory
  cases act m.memory <;> simp [and_assoc]

/-- An operation that keeps the memory when it fails keeps the whole machine. -/
theorem onMemory_eq_error_iff {act : Memory.Action α} (hact : Memory.KeepsOnError act) :
    onMemory act m = .error e m' ↔ act m.memory = .error e m.memory ∧ m = m' := by
  unfold onMemory
  cases hresult : act m.memory with
  | ok a memory => simp
  | error error memory =>
      obtain rfl := hact _ _ _ hresult
      simp

theorem modify_eq (f : Memory → Memory) (memory : Memory) :
    (modify f : Memory.Action PUnit) memory = .ok () (f memory) := rfl

theorem onMemory_modify_eq_ok_iff {f : Memory → Memory} {u : Unit} :
    onMemory (modify f) m = .ok u m' ↔ { m with memory := f m.memory } = m' := by
  simp [onMemory, modify_eq]

/-- What cannot fail on the memory cannot fail on the machine. -/
theorem onMemory_modify_ne_error {f : Memory → Memory} : onMemory (modify f) m ≠ .error e m' := by
  simp [onMemory, modify_eq]

theorem assign_eq_ok_iff {x : Variable} {v : Value} {u : Unit} :
    assign x v m = .ok u m' ↔
      ∃ memory, m.memory.write x (some v) = .ok () memory ∧ { m with memory } = m' :=
  onMemory_eq_ok_iff

/-- A value that cannot be stored leaves no trace. -/
theorem assign_eq_error_iff {x : Variable} {v : Value} :
    assign x v m = .error e m' ↔ m.memory.write x (some v) = .error e m.memory ∧ m = m' :=
  onMemory_eq_error_iff (Memory.keepsOnError_write x (some v))

theorem onStreams_eq_ok_iff {act : EStateM String Streams α} {a : α} :
    onStreams act m = .ok a m' ↔
      ∃ streams, act m.streams = .ok a streams ∧ { m with streams } = m' := by
  unfold onStreams
  cases act m.streams <;> simp [and_assoc]

/-- Work on the streams that fails leaves what has become of them, with the text of their error. -/
theorem onStreams_eq_error_iff {act : EStateM String Streams α} :
    onStreams act m = .error e m' ↔
      ∃ text streams, act m.streams = .error text streams ∧ .io text = e ∧
        { m with streams } = m' := by
  unfold onStreams
  cases act m.streams <;> simp [and_assoc]

end Actions

/-! ## Exit codes -/

/-- An exit code passes two tests of the size of a byte and of the highest code, which together are
the one test that the check applies to constants. -/
theorem exitCode?_eq_some_iff {n : Int64} {code : Nat} :
    exitCode? n = some code ↔ (0 ≤ n.toInt ∧ n.toInt ≤ 49) ∧ n.toInt = code := by
  -- whatever is at most 49 is a byte, so one of the two tests decides
  have hsize : UInt8.size = 256 := rfl
  simp only [exitCode?, Option.filter_eq_some_iff, Int.mem_toNat?, decide_eq_true_eq]
  omega

/-- What is no exit code to a running program is none to the check, and conversely. -/
theorem exitCode?_eq_none_iff {n : Int64} :
    exitCode? n = none ↔ ¬ (0 ≤ n.toInt ∧ n.toInt ≤ 49) := by
  constructor
  · intro h hrange
    have hcode := exitCode?_eq_some_iff.2 ⟨hrange, (Int.toNat_of_nonneg hrange.1).symm⟩
    rw [h] at hcode
    cases hcode
  · intro hrange
    cases hcode : exitCode? n with
    | none => rfl
    | some code => exact absurd (exitCode?_eq_some_iff.1 hcode).1 hrange

/-! ## Rules -/

/-- The operation succeeds on the machine, says where to continue, and leaves a machine. -/
inductive Executes (m : Machine) : Operation Nat → Flow → Machine → Prop
  | assign {x : Variable} {e : Expr} {v : Value} {memory : Memory}
      (hvalue : e.eval m.memory = .ok v) (hstore : m.memory.write x (some v) = .ok () memory) :
      Executes m (.assign x e) .next { m with memory }
  | createFrame : Executes m .createFrame .next { m with memory := m.memory.createFrame }
  | pushFrame {memory : Memory} (h : m.memory.pushFrame = .ok () memory) :
      Executes m .pushFrame .next { m with memory }
  | popFrame {memory : Memory} (h : m.memory.popFrame = .ok () memory) :
      Executes m .popFrame .next { m with memory }
  | declare {x : Variable} {memory : Memory} (h : m.memory.declare x = .ok () memory) :
      Executes m (.declare x) .next { m with memory }
  | call {target : Nat} :
      Executes m (.call target) (.jump target)
        { m with memory := m.memory.pushCall (m.position + 1) }
  | comeBack {position : Nat} {memory : Memory} (h : m.memory.popCall = .ok position memory) :
      Executes m .return (.jump position) { m with memory }
  | push {a : Symbol} {v : Value} (hvalue : a.eval m.memory = .ok v) :
      Executes m (.push a) .next { m with memory := m.memory.pushValue v }
  | pop {x : Variable} {v : Value} {below memory : Memory}
      (hvalue : m.memory.popValue = .ok v below) (hstore : below.write x (some v) = .ok () memory) :
      Executes m (.pop x) .next { m with memory }
  | read {x : Variable} {type : ValueType} {v : Value} {streams : Streams} {memory : Memory}
      (hvalue : Streams.readValue type m.streams = .ok v streams)
      (hstore : m.memory.write x (some v) = .ok () memory) :
      Executes m (.read x type) .next { m with memory, streams }
  | write {a : Symbol} {v : Value} {streams : Streams} (hvalue : a.eval m.memory = .ok v)
      (hwrite : Streams.writeText .output v.text m.streams = .ok () streams) :
      Executes m (.write a) .next { m with streams }
  | label {name : String} : Executes m (.label name) .next m
  | jump {target : Nat} : Executes m (.jump target) (.jump target) m
  | jumpTaken {equal : Bool} {target : Nat} {a b : Symbol} {v w : Value}
      (hfirst : a.eval m.memory = .ok v) (hsecond : b.eval m.memory = .ok w)
      (htaken : isTaken equal v w = .ok true) :
      Executes m (.jumpIf equal target a b) (.jump target) m
  | jumpPassed {equal : Bool} {target : Nat} {a b : Symbol} {v w : Value}
      (hfirst : a.eval m.memory = .ok v) (hsecond : b.eval m.memory = .ok w)
      (hpassed : isTaken equal v w = .ok false) :
      Executes m (.jumpIf equal target a b) .next m
  | exit {a : Symbol} {v : Value} {code : Nat} (hvalue : a.eval m.memory = .ok v)
      (hcode : exitCode v = .ok code) : Executes m (.exit a) (.exit code) m
  | print {a : Symbol} {v : Value} {streams : Streams} (hvalue : a.eval m.memory = .ok v)
      (hwrite : Streams.diagnose (v.text ++ "\n") m.streams = .ok () streams) :
      Executes m (.print a) .next { m with streams }
  | dump {streams : Streams} (hwrite : Streams.diagnose m.report m.streams = .ok () streams) :
      Executes m .dump .next { m with streams }

/-- The operation fails on the machine with an error and leaves a machine. -/
inductive Fails (m : Machine) : Operation Nat → ExecError → Machine → Prop
  | assignValue {x : Variable} {e : Expr} {error : ExecError}
      (hvalue : e.eval m.memory = .error error) : Fails m (.assign x e) error m
  | assignStore {x : Variable} {e : Expr} {v : Value} {error : ExecError}
      (hvalue : e.eval m.memory = .ok v)
      (hstore : m.memory.write x (some v) = .error error m.memory) :
      Fails m (.assign x e) error m
  | pushFrame {error : ExecError} (h : m.memory.pushFrame = .error error m.memory) :
      Fails m .pushFrame error m
  | popFrame {error : ExecError} (h : m.memory.popFrame = .error error m.memory) :
      Fails m .popFrame error m
  | declare {x : Variable} {error : ExecError} (h : m.memory.declare x = .error error m.memory) :
      Fails m (.declare x) error m
  | comeBack {error : ExecError} (h : m.memory.popCall = .error error m.memory) :
      Fails m .return error m
  | push {a : Symbol} {error : ExecError} (hvalue : a.eval m.memory = .error error) :
      Fails m (.push a) error m
  | popValue {x : Variable} {error : ExecError}
      (hvalue : m.memory.popValue = .error error m.memory) :
      Fails m (.pop x) error m
  | popStore {x : Variable} {v : Value} {below : Memory} {error : ExecError}
      (hvalue : m.memory.popValue = .ok v below)
      (hstore : below.write x (some v) = .error error below) :
      Fails m (.pop x) error { m with memory := below }
  | readValue {x : Variable} {type : ValueType} {text : String} {streams : Streams}
      (hvalue : Streams.readValue type m.streams = .error text streams) :
      Fails m (.read x type) (.io text) { m with streams }
  | readStore {x : Variable} {type : ValueType} {v : Value} {streams : Streams} {error : ExecError}
      (hvalue : Streams.readValue type m.streams = .ok v streams)
      (hstore : m.memory.write x (some v) = .error error m.memory) :
      Fails m (.read x type) error { m with streams }
  | writeValue {a : Symbol} {error : ExecError} (hvalue : a.eval m.memory = .error error) :
      Fails m (.write a) error m
  | writeOutput {a : Symbol} {v : Value} {text : String} {streams : Streams}
      (hvalue : a.eval m.memory = .ok v)
      (hwrite : Streams.writeText .output v.text m.streams = .error text streams) :
      Fails m (.write a) (.io text) { m with streams }
  | jumpFirst {equal : Bool} {target : Nat} {a b : Symbol} {error : ExecError}
      (hfirst : a.eval m.memory = .error error) : Fails m (.jumpIf equal target a b) error m
  | jumpSecond {equal : Bool} {target : Nat} {a b : Symbol} {v : Value} {error : ExecError}
      (hfirst : a.eval m.memory = .ok v) (hsecond : b.eval m.memory = .error error) :
      Fails m (.jumpIf equal target a b) error m
  | jumpCompare {equal : Bool} {target : Nat} {a b : Symbol} {v w : Value} {error : ExecError}
      (hfirst : a.eval m.memory = .ok v) (hsecond : b.eval m.memory = .ok w)
      (hcompare : isTaken equal v w = .error error) : Fails m (.jumpIf equal target a b) error m
  | exitValue {a : Symbol} {error : ExecError} (hvalue : a.eval m.memory = .error error) :
      Fails m (.exit a) error m
  | exitCode {a : Symbol} {v : Value} {error : ExecError} (hvalue : a.eval m.memory = .ok v)
      (hcode : exitCode v = .error error) : Fails m (.exit a) error m
  | printValue {a : Symbol} {error : ExecError} (hvalue : a.eval m.memory = .error error) :
      Fails m (.print a) error m
  | printOutput {a : Symbol} {v : Value} {text : String} {streams : Streams}
      (hvalue : a.eval m.memory = .ok v)
      (hwrite : Streams.diagnose (v.text ++ "\n") m.streams = .error text streams) :
      Fails m (.print a) (.io text) { m with streams }
  | dump {text : String} {streams : Streams}
      (hwrite : Streams.diagnose m.report m.streams = .error text streams) :
      Fails m .dump (.io text) { m with streams }

variable {m m' : Machine} {op : Operation Nat} {flow : Flow} {e : ExecError}

/-- Whatever an operation does when it succeeds is given by one of the rules. -/
theorem Executes.of_execute (h : execute op m = .ok flow m') : Executes m op flow m' := by
  cases op with
  | assign x e =>
      simp only [execute, bind_eq_ok_iff, pure_eq_ok_iff, inspect_eq_ok_iff, assign_eq_ok_iff] at h
      obtain ⟨v, _, ⟨hvalue, rfl⟩, _, _, ⟨memory, hstore, rfl⟩, rfl, rfl⟩ := h
      exact .assign hvalue hstore
  | createFrame =>
      simp only [execute, bind_eq_ok_iff, pure_eq_ok_iff, onMemory_modify_eq_ok_iff] at h
      obtain ⟨_, _, rfl, rfl, rfl⟩ := h
      exact .createFrame
  | pushFrame =>
      simp only [execute, bind_eq_ok_iff, pure_eq_ok_iff, onMemory_eq_ok_iff] at h
      obtain ⟨_, _, ⟨memory, hmemory, rfl⟩, rfl, rfl⟩ := h
      exact .pushFrame hmemory
  | popFrame =>
      simp only [execute, bind_eq_ok_iff, pure_eq_ok_iff, onMemory_eq_ok_iff] at h
      obtain ⟨_, _, ⟨memory, hmemory, rfl⟩, rfl, rfl⟩ := h
      exact .popFrame hmemory
  | declare x =>
      simp only [execute, bind_eq_ok_iff, pure_eq_ok_iff, onMemory_eq_ok_iff] at h
      obtain ⟨_, _, ⟨memory, hmemory, rfl⟩, rfl, rfl⟩ := h
      exact .declare hmemory
  | call target =>
      simp only [execute, bind_eq_ok_iff, pure_eq_ok_iff, get_eq_ok_iff,
        onMemory_modify_eq_ok_iff] at h
      obtain ⟨_, _, ⟨rfl, rfl⟩, _, _, rfl, rfl, rfl⟩ := h
      -- the position is looked up before the memory is changed
      exact .call
  | «return» =>
      simp only [execute, bind_eq_ok_iff, pure_eq_ok_iff, onMemory_eq_ok_iff] at h
      obtain ⟨position, _, ⟨memory, hmemory, rfl⟩, rfl, rfl⟩ := h
      exact .comeBack hmemory
  | push a =>
      simp only [execute, bind_eq_ok_iff, pure_eq_ok_iff, inspect_eq_ok_iff,
        onMemory_modify_eq_ok_iff] at h
      obtain ⟨v, _, ⟨hvalue, rfl⟩, _, _, rfl, rfl, rfl⟩ := h
      exact .push hvalue
  | pop x =>
      simp only [execute, bind_eq_ok_iff, pure_eq_ok_iff, onMemory_eq_ok_iff, assign_eq_ok_iff] at h
      obtain ⟨v, _, ⟨below, hvalue, rfl⟩, _, _, ⟨memory, hstore, rfl⟩, rfl, rfl⟩ := h
      exact .pop hvalue hstore
  | read x type =>
      simp only [execute, bind_eq_ok_iff, pure_eq_ok_iff, onStreams_eq_ok_iff,
        assign_eq_ok_iff] at h
      obtain ⟨v, _, ⟨streams, hvalue, rfl⟩, _, _, ⟨memory, hstore, rfl⟩, rfl, rfl⟩ := h
      exact .read hvalue hstore
  | write a =>
      simp only [execute, bind_eq_ok_iff, pure_eq_ok_iff, inspect_eq_ok_iff,
        onStreams_eq_ok_iff] at h
      obtain ⟨v, _, ⟨hvalue, rfl⟩, _, _, ⟨streams, hwrite, rfl⟩, rfl, rfl⟩ := h
      exact .write hvalue hwrite
  | label name =>
      obtain ⟨rfl, rfl⟩ := pure_eq_ok_iff.1 h
      exact .label
  | jump target =>
      obtain ⟨rfl, rfl⟩ := pure_eq_ok_iff.1 h
      exact .jump
  | jumpIf equal target a b =>
      simp only [execute, bind_eq_ok_iff, pure_eq_ok_iff, inspect_eq_ok_iff] at h
      obtain ⟨v, _, ⟨hfirst, rfl⟩, w, _, ⟨hsecond, rfl⟩, taken, _, ⟨htaken, rfl⟩, rfl, rfl⟩ := h
      -- the flow depends on the comparison, hence two rules for one operation
      cases taken with
      | true => exact .jumpTaken hfirst hsecond htaken
      | false => exact .jumpPassed hfirst hsecond htaken
  | exit a =>
      simp only [execute, bind_eq_ok_iff, pure_eq_ok_iff, inspect_eq_ok_iff] at h
      obtain ⟨v, _, ⟨hvalue, rfl⟩, code, _, ⟨hcode, rfl⟩, rfl, rfl⟩ := h
      exact .exit hvalue hcode
  | print a =>
      simp only [execute, bind_eq_ok_iff, pure_eq_ok_iff, inspect_eq_ok_iff,
        onStreams_eq_ok_iff] at h
      obtain ⟨v, _, ⟨hvalue, rfl⟩, _, _, ⟨streams, hwrite, rfl⟩, rfl, rfl⟩ := h
      exact .print hvalue hwrite
  | dump =>
      simp only [execute, bind_eq_ok_iff, pure_eq_ok_iff, get_eq_ok_iff, onStreams_eq_ok_iff] at h
      obtain ⟨_, _, ⟨rfl, rfl⟩, _, _, ⟨streams, hwrite, rfl⟩, rfl, rfl⟩ := h
      exact .dump hwrite

/-- Whatever an operation does when it fails is given by one of the rules.  They are read off its
actions in their order: one for each action that can fail, with those before it having succeeded. -/
theorem Fails.of_execute (h : execute op m = .error e m') : Fails m op e m' := by
  cases op with
  | assign x expr =>
      simp only [execute, bind_eq_error_iff, pure_ne_error, inspect_eq_ok_iff,
        inspect_eq_error_iff, assign_eq_error_iff, and_false, exists_false, or_false] at h
      obtain ⟨hvalue, rfl⟩ | ⟨v, _, ⟨hvalue, rfl⟩, hstore, rfl⟩ := h
      · exact .assignValue hvalue
      · exact .assignStore hvalue hstore
  | createFrame =>
      -- there is no rule: a new frame can always be made
      simp only [execute, bind_eq_error_iff, pure_ne_error, onMemory_modify_ne_error, and_false,
        exists_false, or_false] at h
  | pushFrame =>
      simp only [execute, bind_eq_error_iff, pure_ne_error,
        onMemory_eq_error_iff Memory.keepsOnError_pushFrame, and_false, exists_false, or_false] at h
      obtain ⟨hmemory, rfl⟩ := h
      exact .pushFrame hmemory
  | popFrame =>
      simp only [execute, bind_eq_error_iff, pure_ne_error,
        onMemory_eq_error_iff Memory.keepsOnError_popFrame, and_false, exists_false, or_false] at h
      obtain ⟨hmemory, rfl⟩ := h
      exact .popFrame hmemory
  | declare x =>
      simp only [execute, bind_eq_error_iff, pure_ne_error,
        onMemory_eq_error_iff (Memory.keepsOnError_declare x), and_false, exists_false,
        or_false] at h
      obtain ⟨hmemory, rfl⟩ := h
      exact .declare hmemory
  | call target =>
      simp only [execute, bind_eq_error_iff, pure_ne_error, get_ne_error, onMemory_modify_ne_error,
        and_false, exists_false, or_false] at h
  | «return» =>
      simp only [execute, bind_eq_error_iff, pure_ne_error,
        onMemory_eq_error_iff Memory.keepsOnError_popCall, and_false, exists_false, or_false] at h
      obtain ⟨hmemory, rfl⟩ := h
      exact .comeBack hmemory
  | push a =>
      simp only [execute, bind_eq_error_iff, pure_ne_error, inspect_eq_error_iff,
        onMemory_modify_ne_error, and_false, exists_false, or_false] at h
      obtain ⟨hvalue, rfl⟩ := h
      exact .push hvalue
  | pop x =>
      simp only [execute, bind_eq_error_iff, pure_ne_error, onMemory_eq_ok_iff,
        onMemory_eq_error_iff Memory.keepsOnError_popValue, assign_eq_error_iff, and_false,
        exists_false, or_false] at h
      obtain ⟨hvalue, rfl⟩ | ⟨v, _, ⟨below, hvalue, rfl⟩, hstore, rfl⟩ := h
      -- a value that cannot be stored has been taken all the same
      · exact .popValue hvalue
      · exact .popStore hvalue hstore
  | read x type =>
      simp only [execute, bind_eq_error_iff, pure_ne_error, onStreams_eq_ok_iff,
        onStreams_eq_error_iff, assign_eq_error_iff, and_false, exists_false, or_false] at h
      obtain ⟨text, streams, hvalue, rfl, rfl⟩ | ⟨v, _, ⟨streams, hvalue, rfl⟩, hstore, rfl⟩ := h
      -- in either case a line is gone from the input
      · exact .readValue hvalue
      · exact .readStore hvalue hstore
  | write a =>
      simp only [execute, bind_eq_error_iff, pure_ne_error, inspect_eq_ok_iff,
        inspect_eq_error_iff, onStreams_eq_error_iff, and_false, exists_false, or_false] at h
      obtain ⟨hvalue, rfl⟩ | ⟨v, _, ⟨hvalue, rfl⟩, text, streams, hwrite, rfl, rfl⟩ := h
      · exact .writeValue hvalue
      · exact .writeOutput hvalue hwrite
  | label name => exact absurd h pure_ne_error
  | jump target => exact absurd h pure_ne_error
  | jumpIf equal target a b =>
      simp only [execute, bind_eq_error_iff, pure_ne_error, inspect_eq_ok_iff,
        inspect_eq_error_iff, and_false, exists_false, or_false] at h
      obtain ⟨hfirst, rfl⟩ | ⟨v, _, ⟨hfirst, rfl⟩, ⟨hsecond, rfl⟩ |
        ⟨w, _, ⟨hsecond, rfl⟩, hcompare, rfl⟩⟩ := h
      · exact .jumpFirst hfirst
      · exact .jumpSecond hfirst hsecond
      · exact .jumpCompare hfirst hsecond hcompare
  | exit a =>
      simp only [execute, bind_eq_error_iff, pure_ne_error, inspect_eq_ok_iff,
        inspect_eq_error_iff, and_false, exists_false, or_false] at h
      obtain ⟨hvalue, rfl⟩ | ⟨v, _, ⟨hvalue, rfl⟩, hcode, rfl⟩ := h
      · exact .exitValue hvalue
      · exact .exitCode hvalue hcode
  | print a =>
      simp only [execute, bind_eq_error_iff, pure_ne_error, inspect_eq_ok_iff,
        inspect_eq_error_iff, onStreams_eq_error_iff, and_false, exists_false, or_false] at h
      obtain ⟨hvalue, rfl⟩ | ⟨v, _, ⟨hvalue, rfl⟩, text, streams, hwrite, rfl, rfl⟩ := h
      · exact .printValue hvalue
      · exact .printOutput hvalue hwrite
  | dump =>
      simp only [execute, bind_eq_error_iff, pure_ne_error, get_ne_error, get_eq_ok_iff,
        onStreams_eq_error_iff, and_false, exists_false, or_false, false_or] at h
      obtain ⟨_, _, ⟨rfl, rfl⟩, text, streams, hwrite, rfl, rfl⟩ := h
      exact .dump hwrite

/-- The rules give the outcome of the program that they describe. -/
theorem Executes.execute_eq (h : Executes m op flow m') : execute op m = .ok flow m' := by
  cases h <;> simp_all [execute, bind, EStateM.bind, pure, EStateM.pure, inspect, onMemory,
    onStreams, Machine.assign, get_eq, modify_eq]

theorem Fails.execute_eq (h : Fails m op e m') : execute op m = .error e m' := by
  cases h <;> simp_all [execute, bind, EStateM.bind, inspect, onMemory, onStreams,
    Machine.assign, get_eq]

/-- An operation succeeds exactly as its rules say. -/
theorem execute_eq_ok_iff : execute op m = .ok flow m' ↔ Executes m op flow m' :=
  ⟨.of_execute, Executes.execute_eq⟩

/-- An operation fails exactly as its rules say. -/
theorem execute_eq_error_iff : execute op m = .error e m' ↔ Fails m op e m' :=
  ⟨.of_execute, Fails.execute_eq⟩

end IppCode.Machine
