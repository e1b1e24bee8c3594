import IppCode.Proofs.Linking
import IppCode.Proofs.Rules

/-!
# Executing instructions as they stand

A machine executes operations, made from the instructions before the program runs.
`Direct.execute` does without them: it looks at the opcode, takes one operand after the
other, and looks a label up at the moment it jumps there.  What a constant is worth it asks
of a `ConstantSource`, by the position of the instruction and the index of the operand; a
source may look into a table (`ConstantSource.table`) or convert the constant each time
(`ConstantSource.onDemand`).

`Direct.execute_of_link` says that the two ways come to the same: an instruction that can
be linked does, as it stands, what its operation does.  `Direct.execute_extend` says what
labels are good for: with more of them an instruction does the same, unless it had stopped
for want of one.
-/

namespace IppCode

/-- Where the values of constants come from while a program runs: the value of a constant,
by the position of its instruction and its index among the operands. -/
abbrev ConstantSource :=
  (position operand : Nat) → Literal → Option Value

namespace ConstantSource

/-- Converts a constant each time it is asked for. -/
def onDemand : ConstantSource := fun _ _ l => l.value?

/-- Looks a constant up in the table of a program. -/
def table (p : Program) : ConstantSource := fun position operand _ => p.constant? position operand

/-- The source has the values of the constants of an instruction at a position. -/
def Agrees (source : ConstantSource) (position : Nat) (i : Instruction) : Prop :=
  ∀ k l, i.operands[k]? = some (.constant l) → source position k l = l.value?

theorem onDemand_agrees (position : Nat) (i : Instruction) : onDemand.Agrees position i :=
  fun _ _ _ => rfl

end ConstantSource

namespace Direct

open Machine

/-! ## Operands -/

section Operands

variable (source : ConstantSource) (labels : Table Nat) (position : Nat) (i : Instruction) (k : Nat)

/-- The error of an operand that is not of the kind asked for. -/
def unexpected (o : Operand) : ExecError :=
  .malformed (.operandKind i.opcode k o)

/-- The operand at an index. -/
def operandAt : Except ExecError Operand :=
  match i.operands[k]? with
  | some o => .ok o
  | none => .error (.malformed (.missingOperand i.opcode k))

/-- The variable at an index. -/
def variableAt : Except ExecError Variable :=
  match operandAt i k with
  | .ok (.variable x) => .ok x
  | .ok o => .error (unexpected i k o)
  | .error e => .error e

/-- The type at an index. -/
def typeAt : Except ExecError ValueType :=
  match operandAt i k with
  | .ok (.type t) => .ok t
  | .ok o => .error (unexpected i k o)
  | .error e => .error e

/-- What the symbol at an index holds; `none` for an uninitialized variable. -/
def slotAt (memory : Memory) : Except ExecError (Option Value) :=
  match operandAt i k with
  | .ok (.variable x) => memory.slot x
  | .ok (.constant l) =>
    match source position k l with
    | some v => .ok (some v)
    | none => .error (unexpected i k (.constant l))
  | .ok o => .error (unexpected i k o)
  | .error e => .error e

/-- The value of the symbol at an index. -/
def symbolAt (memory : Memory) : Except ExecError Value :=
  match slotAt source position i k memory with
  | .ok (some v) => .ok v
  | .ok none =>
    match variableAt i k with
    | .ok x => .error (.missingValue (.uninitialized x))
    | .error e => .error e
  | .error e => .error e

/-- The position of the label that the first operand names. -/
def target : Except ExecError Nat :=
  match operandAt i 0 with
  | .ok (.label name) =>
    match labels.find? name with
    | some t => .ok t
    | none => .error (.undefinedLabels [name])
  | .ok o => .error (unexpected i 0 o)
  | .error e => .error e

end Operands

/-! ## Execution -/

section Execution

variable (source : ConstantSource) (labels : Table Nat) (i : Instruction)

/-- Takes what the symbol at an index holds. -/
def slot (k : Nat) : Action (Option Value) := do
  let m ← get
  inspect (slotAt source m.position i k)

/-- Takes the value of the symbol at an index. -/
def symbol (k : Nat) : Action Value := do
  let m ← get
  inspect (symbolAt source m.position i k)

/-- Stores a value in the variable that the first operand names. -/
def store (v : Value) : Action Flow := do
  let x ← inspect fun _ => variableAt i 0
  assign x v
  return .next

/-- Computes a value from one symbol and stores it. -/
def unary (f : UnaryOp) : Action Flow := do
  let v ← symbol source i 1
  let r ← inspect fun _ => f.eval v
  store i r

/-- Computes a value from two symbols and stores it. -/
def binary (f : BinaryOp) : Action Flow := do
  let v ← symbol source i 1
  let w ← symbol source i 2
  let r ← inspect fun _ => f.eval v w
  store i r

/-- Continues at a label if two symbols are equal, or if they are not. -/
def branch (equal : Bool) : Action Flow := do
  let v ← symbol source i 1
  let w ← symbol source i 2
  let taken ← inspect fun _ => isTaken equal v w
  if taken then return .jump (← inspect fun _ => target labels i) else return .next

/-- Executes an instruction as it stands and says where to continue. -/
def execute : Action Flow :=
  match i.opcode with
  | .move => do
    store i (← symbol source i 1)
  | .createFrame => do
    onMemory (modify Memory.createFrame)
    return .next
  | .pushFrame => do
    onMemory Memory.pushFrame
    return .next
  | .popFrame => do
    onMemory Memory.popFrame
    return .next
  | .defVar => do
    let x ← inspect fun _ => variableAt i 0
    onMemory (Memory.declare x)
    return .next
  | .call => do
    let t ← inspect fun _ => target labels i
    let m ← get
    onMemory (modify fun memory => memory.pushCall (m.position + 1))
    return .jump t
  | .return => do
    return .jump (← onMemory Memory.popCall)
  | .pushs => do
    let v ← symbol source i 0
    onMemory (modify fun memory => memory.pushValue v)
    return .next
  | .pops => do
    store i (← onMemory Memory.popValue)
  | .add => binary source i .add
  | .sub => binary source i .sub
  | .mul => binary source i .mul
  | .idiv => binary source i .idiv
  | .lt => binary source i .lt
  | .gt => binary source i .gt
  | .eq => binary source i .eq
  | .and => binary source i .and
  | .or => binary source i .or
  | .not => unary source i .not
  | .int2Char => unary source i .int2Char
  | .stri2Int => binary source i .stri2Int
  | .read => do
    let t ← inspect fun _ => typeAt i 1
    store i (← onStreams (Streams.readValue t))
  | .write => do
    let v ← symbol source i 0
    onStreams (Streams.writeText .output v.text)
    return .next
  | .concat => binary source i .concat
  | .strlen => unary source i .strlen
  | .getChar => binary source i .getChar
  | .setChar => do
    let x ← inspect fun _ => variableAt i 0
    let v ← inspect fun memory => memory.read x
    let index ← symbol source i 1
    let replacement ← symbol source i 2
    let r ← inspect fun _ => evalSetChar v index replacement
    store i r
  | .type => do
    let content ← slot source i 1
    store i (.str ((content.map fun v => v.type.name).getD ""))
  | .label => return .next
  | .jump => do
    return .jump (← inspect fun _ => target labels i)
  | .jumpIfEq => branch source labels i true
  | .jumpIfNeq => branch source labels i false
  | .exit => do
    let v ← symbol source i 0
    let code ← inspect fun _ => exitCode v
    return .exit code
  | .dprint => do
    let v ← symbol source i 0
    onStreams (Streams.diagnose (v.text ++ "\n"))
    return .next
  | .break => do
    let m ← get
    onStreams (Streams.diagnose m.report)
    return .next

end Execution

/-! ## Taking operands -/

section Operands

variable {source : ConstantSource} {labels : Table Nat} {position k : Nat} {i : Instruction}
  {o : Operand} {a : Symbol} {x : Variable}

theorem operandAt_eq (h : i.operands[k]? = some o) : operandAt i k = .ok o := by
  simp only [operandAt, h]

theorem variableAt_eq (h : i.operands[k]? = some (.variable x)) : variableAt i k = .ok x := by
  simp only [variableAt, operandAt_eq h]

theorem target_eq {name : String} {t : Nat} (h : i.operands[0]? = some (.label name))
    (hfind : labels.find? name = some t) : target labels i = .ok t := by
  simp only [target, operandAt_eq h, hfind]

theorem slotAt_eq (hsource : source.Agrees position i) (h : i.operands[k]? = some o)
    (ho : o.symbol? = some a) (memory : Memory) :
    slotAt source position i k memory = a.slot memory := by
  unfold slotAt
  rw [operandAt_eq h]
  cases o with
  | «variable» x =>
      cases ho
      rfl
  | constant l =>
      obtain ⟨v, hvalue, rfl⟩ := Option.map_eq_some_iff.1 ho
      have hfound : source position k l = some v := (hsource k l h).trans hvalue
      simp only [hfound, Symbol.slot]
  | label name => cases ho
  | type t => cases ho

theorem eq_variable_of_symbol? (ho : o.symbol? = some (.variable x)) : o = .variable x := by
  cases o with
  | «variable» y =>
      cases ho
      rfl
  | constant l =>
      obtain ⟨v, -, hv⟩ := Option.map_eq_some_iff.1 ho
      cases hv
  | label name => cases ho
  | type t => cases ho

/-- A constant of the source and a variable of the memory have the value of the linked symbol. -/
theorem symbolAt_eq (hsource : source.Agrees position i) (h : i.operands[k]? = some o)
    (ho : o.symbol? = some a) (memory : Memory) :
    symbolAt source position i k memory = a.eval memory := by
  unfold symbolAt
  rw [slotAt_eq hsource h ho]
  cases a with
  | constant v => rfl
  | «variable» x =>
      -- only a variable can hold nothing, and it is the operand itself
      have hx : variableAt i k = .ok x := variableAt_eq (eq_variable_of_symbol? ho ▸ h)
      simp only [Symbol.slot, Symbol.eval, Memory.read, hx]
      cases memory.slot x with
      | error e => rfl
      | ok content => cases content <;> rfl

end Operands

/-! ## Inspections one after the other -/

section Inspections

variable {α β : Type} {f : Memory → Except ExecError α} {m : Machine}

/-- What follows on an inspection sees the same machine. -/
theorem inspect_bind_congr {g g' : α → Action β} (h : ∀ a, g a m = g' a m) :
    (inspect f >>= g) m = (inspect f >>= g') m := by
  simp only [bind, EStateM.bind, inspect]
  cases f m.memory with
  | error e => rfl
  | ok a => exact h a

theorem inspect_bind_of_ok {g : α → Action β} {a : α} (h : f m.memory = .ok a) :
    (inspect f >>= g) m = g a m := by
  simp only [bind, EStateM.bind, inspect, h]

/-- A failed look at the memory ends the action, and leaves the machine as it was. -/
theorem inspect_bind_of_error {g : α → Action β} {e : ExecError} (h : f m.memory = .error e) :
    (inspect f >>= g) m = .error e m := by
  simp only [bind, EStateM.bind, inspect, h]

/-- Two inspections, the second of which knows the result of the first, are one. -/
theorem inspect_bind_inspect (f : Memory → Except ExecError α)
    (g : α → Memory → Except ExecError β) :
    (inspect f >>= fun a => inspect (g a)) =
      inspect fun memory => f memory >>= fun a => g a memory := by
  funext m
  simp only [bind, EStateM.bind, inspect, Except.bind]
  cases f m.memory <;> rfl

end Inspections

/-! ## Families of instructions -/

section Families

variable {source : ConstantSource} {labels : Table Nat} {i : Instruction} {m : Machine} {k : Nat}
  {x : Variable} {o o' : Operand} {a b : Symbol} {β : Type}

theorem slot_bind (hsource : source.Agrees m.position i) (h : i.operands[k]? = some o)
    (ho : o.symbol? = some a) (g : Option Value → Action β) :
    (slot source i k >>= g) m = (inspect a.slot >>= g) m := by
  have hslot : slotAt source m.position i k = fun memory => a.slot memory :=
    funext (slotAt_eq hsource h ho)
  change (inspect (slotAt source m.position i k) >>= g) m = _
  rw [hslot]

theorem symbol_bind (hsource : source.Agrees m.position i) (h : i.operands[k]? = some o)
    (ho : o.symbol? = some a) (g : Value → Action β) :
    (symbol source i k >>= g) m = (inspect a.eval >>= g) m := by
  have heval : symbolAt source m.position i k = fun memory => a.eval memory :=
    funext (symbolAt_eq hsource h ho)
  change (inspect (symbolAt source m.position i k) >>= g) m = _
  rw [heval]

/-- Two symbols are taken from the same machine. -/
theorem symbol_bind_symbol (hsource : source.Agrees m.position i)
    (hi : ∃ first, i.operands = [first, o, o']) (ho : o.symbol? = some a)
    (ho' : o'.symbol? = some b) (g : Value → Value → Action β) :
    (symbol source i 1 >>= fun v => symbol source i 2 >>= g v) m =
      (inspect a.eval >>= fun v => inspect b.eval >>= g v) m := by
  obtain ⟨first, hi⟩ := hi
  have hfirst : i.operands[1]? = some o := by simp [hi]
  have hsecond : i.operands[2]? = some o' := by simp [hi]
  calc (symbol source i 1 >>= fun v => symbol source i 2 >>= g v) m
      = (inspect a.eval >>= fun v => symbol source i 2 >>= g v) m :=
        symbol_bind hsource hfirst ho _
    _ = (inspect a.eval >>= fun v => inspect b.eval >>= g v) m :=
        inspect_bind_congr fun v => symbol_bind hsource hsecond ho' _

theorem store_eq (h : i.operands[0]? = some (.variable x)) :
    store i = fun v => assign x v >>= fun _ => pure .next := by
  funext v m
  exact inspect_bind_of_ok (variableAt_eq h)

/-- A value that is computed as an expression is stored as that is. -/
theorem bind_store_apply {e : Expr} {compute : Action Value}
    (h : i.operands[0]? = some (.variable x)) (hcompute : compute m = inspect e.eval m) :
    (compute >>= store i) m = Machine.execute (.assign x e) m := by
  rw [store_eq h, Machine.execute]
  simp only [bind, EStateM.bind, hcompute]

theorem copy_apply (hsource : source.Agrees m.position i) (hi : i.operands = [.variable x, o])
    (ho : o.symbol? = some a) :
    (symbol source i 1 >>= store i) m = Machine.execute (.assign x (.copy a)) m := by
  have hstore : i.operands[0]? = some (.variable x) := by simp [hi]
  have hcompute : symbol source i 1 m = inspect a.eval m := by
    simpa using symbol_bind hsource (by simp [hi] : i.operands[1]? = some o) ho pure
  exact bind_store_apply hstore hcompute

theorem typeName_apply (hsource : source.Agrees m.position i) (hi : i.operands = [.variable x, o])
    (ho : o.symbol? = some a) :
    (slot source i 1 >>= fun content =>
      store i (.str ((content.map fun v => v.type.name).getD ""))) m =
      Machine.execute (.assign x (.typeName a)) m := by
  have hstore : i.operands[0]? = some (.variable x) := by simp [hi]
  rw [slot_bind hsource (by simp [hi] : i.operands[1]? = some o) ho, store_eq hstore,
    Machine.execute]
  simp only [bind, EStateM.bind, inspect, Expr.eval, Except.bind]
  cases a.slot m.memory <;> rfl

/-- An operator of one symbol, executed as it stands and linked. -/
theorem unary_apply (hsource : source.Agrees m.position i) (hi : i.operands = [.variable x, o])
    (ho : o.symbol? = some a) (f : UnaryOp) :
    unary source i f m = Machine.execute (.assign x (.unary f a)) m := by
  have hstore : i.operands[0]? = some (.variable x) := by simp [hi]
  have hcompute : (symbol source i 1 >>= fun v => inspect fun _ => f.eval v) m =
      inspect (Expr.unary f a).eval m := by
    rw [symbol_bind hsource (by simp [hi] : i.operands[1]? = some o) ho, inspect_bind_inspect]
    rfl
  rw [← bind_store_apply hstore hcompute, bind_assoc, unary]

theorem binary_apply (hsource : source.Agrees m.position i)
    (hi : i.operands = [.variable x, o, o']) (ho : o.symbol? = some a) (ho' : o'.symbol? = some b)
    (f : BinaryOp) : binary source i f m = Machine.execute (.assign x (.binary f a b)) m := by
  have hstore : i.operands[0]? = some (.variable x) := by simp [hi]
  have hcompute : (symbol source i 1 >>= fun v => symbol source i 2 >>= fun w =>
      inspect fun _ => f.eval v w) m = inspect (Expr.binary f a b).eval m := by
    rw [symbol_bind_symbol hsource ⟨_, hi⟩ ho ho']
    simp only [inspect_bind_inspect]
    rfl
  rw [← bind_store_apply hstore hcompute, binary]
  simp only [bind_assoc]

theorem setChar_apply (hsource : source.Agrees m.position i)
    (hi : i.operands = [.variable x, o, o']) (ho : o.symbol? = some a)
    (ho' : o'.symbol? = some b) :
    (inspect (fun _ => variableAt i 0) >>= fun y =>
      inspect (fun memory => memory.read y) >>= fun v =>
      symbol source i 1 >>= fun index => symbol source i 2 >>= fun replacement =>
        inspect (fun _ => evalSetChar v index replacement) >>= store i) m =
      Machine.execute (.assign x (.setChar x a b)) m := by
  have hstore : i.operands[0]? = some (.variable x) := by simp [hi]
  have hcompute : (inspect (fun memory => memory.read x) >>= fun v =>
      symbol source i 1 >>= fun index => symbol source i 2 >>= fun replacement =>
        inspect fun _ => evalSetChar v index replacement) m =
      inspect (Expr.setChar x a b).eval m := by
    rw [inspect_bind_congr fun v => symbol_bind_symbol hsource ⟨_, hi⟩ ho ho' _]
    simp only [inspect_bind_inspect]
    rfl
  rw [← bind_store_apply hstore hcompute, inspect_bind_of_ok (variableAt_eq hstore)]
  simp only [bind_assoc]

/-- A conditional jump, executed as it stands and linked.  The label is looked up only if the jump
is taken, and then it is found. -/
theorem branch_apply (hsource : source.Agrees m.position i) {name : String} {t : Nat}
    (hi : i.operands = [.label name, o, o']) (ho : o.symbol? = some a) (ho' : o'.symbol? = some b)
    (hfind : labels.find? name = some t) (equal : Bool) :
    branch source labels i equal m = Machine.execute (.jumpIf equal t a b) m := by
  have htarget : target labels i = .ok t := target_eq (by simp [hi]) hfind
  rw [branch, symbol_bind_symbol hsource ⟨_, hi⟩ ho ho', Machine.execute]
  refine inspect_bind_congr fun v => inspect_bind_congr fun w => inspect_bind_congr fun taken => ?_
  cases taken with
  | true => exact inspect_bind_of_ok htarget
  | false => rfl

end Families

/-! ## Linked instructions -/

/-- An instruction that is executed as it stands does what the operation does that it
links to. -/
theorem execute_of_link {source : ConstantSource} {labels : Table Nat} {i : Instruction}
    {op : Operation Nat} {m : Machine} (hsource : source.Agrees m.position i)
    (h : i.link labels = .ok op) : execute source labels i m = Machine.execute op m := by
  obtain ⟨made, hmade, hresolve⟩ := Instruction.link_eq_ok_iff.1 h
  obtain ⟨opcode, operands⟩ := i
  -- one case for each shape of operands: only jumps are changed when their labels are resolved
  cases opcode with
  | createFrame | pushFrame | popFrame | «return» | «break» =>
      obtain ⟨rfl, rfl⟩ := Operation.plain_eq_some_iff.1 hmade
      cases hresolve
      rfl
  | defVar | pops =>
      obtain ⟨x, rfl, rfl⟩ := Operation.onVariable_eq_some_iff.1 hmade
      cases hresolve
      rfl
  | label =>
      obtain ⟨name, rfl, rfl⟩ := Operation.onLabel_eq_some_iff.1 hmade
      cases hresolve
      rfl
  | call | jump =>
      obtain ⟨name, rfl, rfl⟩ := Operation.onLabel_eq_some_iff.1 hmade
      obtain ⟨t, hfind, rfl⟩ := Option.map_eq_some_iff.1 hresolve
      exact inspect_bind_of_ok (target_eq rfl hfind)
  | pushs | write | exit | dprint =>
      obtain ⟨o, a, rfl, ho, rfl⟩ := Operation.onSymbol_eq_some_iff.1 hmade
      cases hresolve
      exact symbol_bind hsource rfl ho _
  | move =>
      obtain ⟨x, o, a, rfl, ho, rfl⟩ := Operation.assign₁_eq_some_iff.1 hmade
      cases hresolve
      exact copy_apply hsource rfl ho
  | type =>
      obtain ⟨x, o, a, rfl, ho, rfl⟩ := Operation.assign₁_eq_some_iff.1 hmade
      cases hresolve
      exact typeName_apply hsource rfl ho
  | not | int2Char | strlen =>
      obtain ⟨x, o, a, rfl, ho, rfl⟩ := Operation.assign₁_eq_some_iff.1 hmade
      cases hresolve
      exact unary_apply hsource rfl ho _
  | add | sub | mul | idiv | lt | gt | eq | and | or | stri2Int | concat | getChar =>
      obtain ⟨x, o, o', a, b, rfl, ho, ho', rfl⟩ := Operation.assign₂_eq_some_iff.1 hmade
      cases hresolve
      exact binary_apply hsource rfl ho ho' _
  | setChar =>
      obtain ⟨x, o, o', a, b, rfl, ho, ho', rfl⟩ := Operation.assign₂_eq_some_iff.1 hmade
      cases hresolve
      exact setChar_apply hsource rfl ho ho'
  | read =>
      obtain ⟨x, t, rfl, rfl⟩ := Operation.reading_eq_some_iff.1 hmade
      cases hresolve
      rfl
  | jumpIfEq | jumpIfNeq =>
      obtain ⟨name, o, o', a, b, rfl, ho, ho', rfl⟩ := Operation.branch_eq_some_iff.1 hmade
      obtain ⟨t, hfind, rfl⟩ := Option.map_eq_some_iff.1 hresolve
      exact branch_apply hsource rfl ho ho' hfind _

/-! ## More labels -/

section Extend

variable {source : ConstantSource} {labels more : Table Nat} {i : Instruction} {m : Machine}

/-- With more labels the target is the same, unless it was not found before. -/
theorem target_extend (hmore : ∀ name t, labels.find? name = some t → more.find? name = some t) :
    target labels i = target more i ∨
      ∃ name t, target labels i = .error (.undefinedLabels [name]) ∧ target more i = .ok t := by
  unfold target
  split
  · rename_i name hoperand
    cases hfind : labels.find? name with
    | some t => simp [hmore name t hfind]
    | none =>
        cases hfound : more.find? name with
        | none => exact .inl rfl
        | some t => exact .inr ⟨name, t, rfl, rfl⟩
  · exact .inl rfl
  · exact .inl rfl

theorem branch_extend {name : String} {t : Nat} (equal : Bool)
    (hmissing : target labels i = .error (.undefinedLabels [name]))
    (hfound : target more i = .ok t) :
    branch source labels i equal m = branch source more i equal m ∨
      (branch source labels i equal m = .error (.undefinedLabels [name]) m ∧
        branch source more i equal m = .ok (.jump t) m) := by
  -- both evaluate and compare the same symbols, and stop alike if that fails
  have hbranch : ∀ labels, branch source labels i equal m =
      (inspect (symbolAt source m.position i 1) >>= fun v =>
        inspect (symbolAt source m.position i 2) >>= fun w =>
          inspect (fun _ => isTaken equal v w) >>= fun taken =>
            if taken then inspect (fun _ => target labels i) >>= fun t => pure (.jump t)
            else pure .next) m :=
    fun labels => inspect_bind_congr fun v => rfl
  rw [hbranch, hbranch]
  cases hfirst : symbolAt source m.position i 1 m.memory with
  | error e => simp only [inspect_bind_of_error hfirst, true_or]
  | ok v =>
      rw [inspect_bind_of_ok hfirst, inspect_bind_of_ok hfirst]
      cases hsecond : symbolAt source m.position i 2 m.memory with
      | error e => simp only [inspect_bind_of_error hsecond, true_or]
      | ok w =>
          rw [inspect_bind_of_ok hsecond, inspect_bind_of_ok hsecond]
          cases htaken : isTaken equal v w with
          | error e => exact .inl rfl
          | ok taken =>
              cases taken with
              | false => exact .inl rfl
              | true =>
                  refine .inr ⟨?_, ?_⟩
                  · change (inspect (fun _ => target labels i) >>=
                      fun t => pure (Flow.jump t)) m = _
                    exact inspect_bind_of_error hmissing
                  · change (inspect (fun _ => target more i) >>= fun t => pure (Flow.jump t)) m = _
                    exact inspect_bind_of_ok hfound

/-- With more labels an instruction does the same, unless it had stopped for want of the
label that it continues at. -/
theorem execute_extend
    (hmore : ∀ name t, labels.find? name = some t → more.find? name = some t) :
    execute source labels i m = execute source more i m ∨
      (i.opcode.targetsLabel = true ∧
        (∃ name, execute source labels i m = .error (.undefinedLabels [name]) m) ∧
        ∃ t m', execute source more i m = .ok (.jump t) m') := by
  rcases target_extend (i := i) hmore with hsame | ⟨name, t, hmissing, hfound⟩
  · left
    unfold execute branch
    rw [hsame]
  · unfold execute
    cases i.opcode with
    | call =>
        refine .inr
          ⟨rfl, ⟨name, ?_⟩, t, { m with memory := m.memory.pushCall (m.position + 1) }, ?_⟩
        · exact inspect_bind_of_error hmissing
        · exact inspect_bind_of_ok hfound
    | jump =>
        refine .inr ⟨rfl, ⟨name, ?_⟩, t, m, ?_⟩
        · exact inspect_bind_of_error hmissing
        · exact inspect_bind_of_ok hfound
    | jumpIfEq | jumpIfNeq =>
        rcases branch_extend _ hmissing hfound with h | ⟨hlabels, hmore⟩
        · exact .inl h
        · exact .inr ⟨rfl, ⟨name, hlabels⟩, t, m, hmore⟩
    | _ => exact .inl rfl

end Extend

end Direct

end IppCode
