import IppCode.Proofs.MemoryAccess
import IppCode.Proofs.Requests
import IppCode.Proofs.RuntimeErrors

/-!
# Conditional jumps

The comparison for equality and the two conditional jumps take two symbols each and compare their
values.  They do so in different places, the one by `BinaryOp.eval` and the others by
`Machine.isTaken`, and yet agree in all respects: which of the symbols is looked at first, what is
missing if there is no value, which values cannot be compared, and what comes of those that can.

`Incomparable` and `Compared` say what the outcome of a comparison is, without reference to either
of the two.  The rest follows from one lemma for each of these outcomes and each of the two
places.
-/

namespace IppCode

/-- The error with which an instruction of another opcode fails for the same cause, which is of the
same kind (`kind_forOpcode`).  Only errors of types name an opcode. -/
def ExecError.forOpcode (opcode : Opcode) : ExecError → ExecError
  | .operandType _ found => .operandType opcode found
  | e => e

@[simp]
theorem ExecError.kind_forOpcode (opcode : Opcode) (e : ExecError) :
    (e.forOpcode opcode).kind = e.kind := by
  cases e <;> rfl

theorem ExecError.forOpcode_of_kind {e : ExecError} (h : e.kind ≠ .operandType) (opcode : Opcode) :
    e.forOpcode opcode = e := by
  cases e with
  | operandType => exact absurd rfl h
  | _ => rfl

/-! ## Outcomes of comparisons -/

/-- The symbols have values that can be compared, and these are equal or not. -/
def Compared (memory : Memory) (a b : Symbol) (equal : Bool) : Prop :=
  ∃ v w, a.eval memory = .ok v ∧ b.eval memory = .ok w ∧ v.equals? w = some equal

/-- The symbols cannot be compared: the first one has no value, or the second one has none, or their
values are of types that cannot be compared. -/
inductive Incomparable (memory : Memory) (a b : Symbol) : ExecError → Prop
  | first {e : ExecError} (h : a.eval memory = .error e) : Incomparable memory a b e
  | second {v : Value} {e : ExecError} (hfirst : a.eval memory = .ok v)
      (h : b.eval memory = .error e) : Incomparable memory a b e
  | types {v w : Value} {opcode : Opcode} (hfirst : a.eval memory = .ok v)
      (hsecond : b.eval memory = .ok w) (h : v.equals? w = none) :
      Incomparable memory a b (.operandType opcode [v.type, w.type])

section Outcomes

variable {memory : Memory} {a b : Symbol} {e : ExecError} {equal : Bool}

/-- Two symbols have been compared, or an error says why not. -/
theorem incomparable_or_compared (memory : Memory) (a b : Symbol) :
    (∃ e, Incomparable memory a b e) ∨ ∃ equal, Compared memory a b equal := by
  cases hfirst : a.eval memory with
  | error e => exact .inl ⟨e, .first hfirst⟩
  | ok v =>
      cases hsecond : b.eval memory with
      | error e => exact .inl ⟨e, .second hfirst hsecond⟩
      | ok w =>
          cases hequals : v.equals? w with
          | none => exact .inl ⟨.operandType .eq [v.type, w.type], .types hfirst hsecond hequals⟩
          | some equal => exact .inr ⟨equal, v, w, hfirst, hsecond, hequals⟩

/-- The error of a symbol without a value names no opcode. -/
theorem Symbol.forOpcode_of_eval (h : a.eval memory = .error e) (opcode : Opcode) :
    e.forOpcode opcode = e := by
  apply ExecError.forOpcode_of_kind
  intro hkind
  have hslot := Symbol.kind_of_eval h
  rw [hkind] at hslot
  exact absurd hslot (by decide)

/-- Of symbols with values an operator is applied to these. -/
theorem Expr.eval_binary {v w : Value} (f : BinaryOp) (hfirst : a.eval memory = .ok v)
    (hsecond : b.eval memory = .ok w) : (Expr.binary f a b).eval memory = f.eval v w := by
  simp only [Expr.eval, hfirst, hsecond]
  rfl

theorem Compared.eval_eq (h : Compared memory a b equal) :
    (Expr.binary .eq a b).eval memory = .ok (.bool equal) := by
  obtain ⟨v, w, hfirst, hsecond, hequals⟩ := h
  rw [Expr.eval_binary .eq hfirst hsecond]
  simp only [BinaryOp.eval, hequals]

/-- The test for equality fails with the error of the comparison, under its own opcode. -/
theorem Incomparable.eval_eq (h : Incomparable memory a b e) :
    (Expr.binary .eq a b).eval memory = .error (e.forOpcode .eq) := by
  cases h with
  | first h =>
      rw [Symbol.forOpcode_of_eval h]
      simp only [Expr.eval, h]
      rfl
  | second hfirst h =>
      rw [Symbol.forOpcode_of_eval h]
      simp only [Expr.eval, hfirst, h]
      rfl
  | types hfirst hsecond h =>
      rw [Expr.eval_binary .eq hfirst hsecond]
      simp only [BinaryOp.eval, h]
      rfl

end Outcomes

/-! ## Instructions -/

namespace Machine

section Instructions

variable {p : Program} {m : Machine} {i : Instruction} {a b : Operand} {s t : Symbol}
  {x : Variable} {name : String} {e : ExecError} {equal expected : Bool}

/-- The machine is about to execute an instruction, which stands on the line of the program at its
position together with what it links to. -/
def Faces (p : Program) (m : Machine) (i : Instruction) : Prop :=
  ∃ op, p.lines[m.position]? = some ⟨i, op⟩ ∧ i.link p.labels = .ok op

theorem faces_of_ofInstructions {is : List Instruction} (hp : Program.ofInstructions is = .ok p)
    (h : is[m.position]? = some i) : Faces p m i := by
  obtain ⟨line, hline, rfl⟩ := Program.exists_line hp h
  exact ⟨line.operation, hline, (Program.line_of_getElem? hp hline).2⟩

theorem Faces.eq_operation (h : Faces p m ⟨.eq, [.variable x, a, b]⟩) (ha : a.symbol? = some s)
    (hb : b.symbol? = some t) :
    p.lines[m.position]? =
      some ⟨⟨.eq, [.variable x, a, b]⟩, .assign x (.binary .eq s t)⟩ := by
  obtain ⟨op, hline, hlink⟩ := h
  obtain ⟨made, hmade, hresolve⟩ := Instruction.link_eq_ok_iff.1 hlink
  have hassign : Operation.assign₂ (fun _ => .binary .eq) [.variable x, a, b] = some made := hmade
  obtain ⟨_, _, _, s', t', hoperands, hs, ht, rfl⟩ := Operation.assign₂_eq_some_iff.1 hassign
  cases hoperands
  cases ha.symm.trans hs
  cases hb.symm.trans ht
  cases hresolve
  exact hline

theorem Faces.jumpIf_operation
    (h : Faces p m ⟨Operation.jumpIfOpcode expected, [.label name, a, b]⟩)
    (ha : a.symbol? = some s) (hb : b.symbol? = some t) :
    ∃ target, p.labels.find? name = some target ∧
      p.lines[m.position]? = some ⟨⟨Operation.jumpIfOpcode expected, [.label name, a, b]⟩,
        .jumpIf expected target s t⟩ := by
  obtain ⟨op, hline, hlink⟩ := h
  obtain ⟨made, hmade, hresolve⟩ := Instruction.link_eq_ok_iff.1 hlink
  have hbranch : Operation.branch expected [.label name, a, b] = some made := by
    cases expected <;> exact hmade
  obtain ⟨_, _, _, s', t', hoperands, hs, ht, rfl⟩ := Operation.branch_eq_some_iff.1 hbranch
  cases hoperands
  cases ha.symm.trans hs
  cases hb.symm.trans ht
  obtain ⟨target, htarget, rfl⟩ := Option.map_eq_some_iff.1 hresolve
  exact ⟨target, htarget, hline⟩

theorem isTaken_of_equals? {v w : Value} (h : v.equals? w = some equal) (expected : Bool) :
    isTaken expected v w = .ok (equal == expected) := by
  simp only [isTaken, h]

/-- A comparison that succeeds decides between both ways, and changes nothing. -/
theorem executes_of_compared (h : Compared m.memory s t equal) (expected : Bool) (target : Nat) :
    Executes m (.jumpIf expected target s t) (if equal = expected then .jump target else .next)
      m := by
  obtain ⟨v, w, hfirst, hsecond, hequals⟩ := h
  have htaken := isTaken_of_equals? hequals expected
  split
  · next heq => exact .jumpTaken hfirst hsecond (by rw [htaken, heq, beq_self_eq_true])
  · next hne => exact .jumpPassed hfirst hsecond (by rw [htaken, beq_false_of_ne hne])

theorem fails_of_incomparable (h : Incomparable m.memory s t e) (expected : Bool) (target : Nat) :
    Fails m (.jumpIf expected target s t) (e.forOpcode (Operation.jumpIfOpcode expected)) m := by
  cases h with
  | first h =>
      rw [Symbol.forOpcode_of_eval h]
      exact .jumpFirst h
  | second hfirst h =>
      rw [Symbol.forOpcode_of_eval h]
      exact .jumpSecond hfirst h
  | types hfirst hsecond h =>
      refine .jumpCompare hfirst hsecond ?_
      simp only [isTaken, h]
      rfl

/-- The step computes a truth value and stores it in a variable, which then holds it, or fails for
want of that. -/
def Computes (p : Program) (m : Machine) (x : Variable) (result : Bool) : Prop :=
  (∃ memory, m.memory.write x (some (.bool result)) = .ok () memory ∧
    memory.read x = .ok (.bool result) ∧ step p m = .running ({ m with memory }).advanced) ∨
  ∃ e, m.memory.write x (some (.bool result)) = .error e m.memory ∧
    step p m = .faulted ⟨e, some (m.position, .eq)⟩ m

/-- The test for equality stores what the jumps decide by. -/
theorem computes_of_compared (h : Compared m.memory s t equal)
    (hfaces : Faces p m ⟨.eq, [.variable x, a, b]⟩) (ha : a.symbol? = some s)
    (hb : b.symbol? = some t) : Computes p m x equal := by
  have hline := hfaces.eq_operation ha hb
  cases hstore : m.memory.write x (some (.bool equal)) with
  | ok _ memory =>
      exact .inl ⟨memory, hstore, Memory.read_of_write hstore,
        step_of_executes hline (.assign h.eval_eq hstore)⟩
  | error e memory =>
      obtain ⟨-, rfl⟩ := Memory.write_eq_error_iff.1 hstore
      exact .inr ⟨e, hstore, step_of_fails hline (.assignStore h.eval_eq hstore)⟩

/-- Where two symbols can be compared, a conditional jump is taken if the outcome is the expected
one, and the memory stays as it is. -/
theorem step_jumpIf_of_compared (expected : Bool) (h : Compared m.memory s t equal)
    (hfaces : Faces p m ⟨Operation.jumpIfOpcode expected, [.label name, a, b]⟩)
    (ha : a.symbol? = some s) (hb : b.symbol? = some t) :
    ∃ target, p.labels.find? name = some target ∧
      step p m = .running (if equal = expected then m.jumped target else m.advanced) := by
  obtain ⟨target, htarget, hline⟩ := hfaces.jumpIf_operation ha hb
  refine ⟨target, htarget, ?_⟩
  rw [step_of_executes hline (executes_of_compared h expected target)]
  split <;> rfl

theorem step_eq_of_incomparable (h : Incomparable m.memory s t e)
    (hfaces : Faces p m ⟨.eq, [.variable x, a, b]⟩) (ha : a.symbol? = some s)
    (hb : b.symbol? = some t) :
    step p m = .faulted ⟨e.forOpcode .eq, some (m.position, .eq)⟩ m :=
  step_of_fails (hfaces.eq_operation ha hb) (.assignValue h.eval_eq)

theorem step_jumpIf_of_incomparable (expected : Bool) (h : Incomparable m.memory s t e)
    (hfaces : Faces p m ⟨Operation.jumpIfOpcode expected, [.label name, a, b]⟩)
    (ha : a.symbol? = some s) (hb : b.symbol? = some t) :
    step p m = .faulted ⟨e.forOpcode (Operation.jumpIfOpcode expected),
      some (m.position, Operation.jumpIfOpcode expected)⟩ m := by
  obtain ⟨target, -, hline⟩ := hfaces.jumpIf_operation ha hb
  exact step_of_fails hline (fails_of_incomparable h expected target)

/-- **Conditional jumps agree with the comparison for equality.**  On every machine and for every
two symbols one of these holds, wherever the instructions stand.

* None of the three instructions can compare the symbols.  They fail for the same cause, and the
  machine stays as it is.
* The comparison computes a truth value, and stores it if it can.  If this is true, then the one
  jump goes to its label and the other one goes on; if it is false, then it is the other way
  round.  Neither of them changes the memory. -/
theorem conditional_jumps_agree (ha : a.symbol? = some s) (hb : b.symbol? = some t) (m : Machine) :
    (∃ e : ExecError, (Expr.binary .eq s t).eval m.memory = .error (e.forOpcode .eq) ∧
      (∀ p x, Faces p m ⟨.eq, [.variable x, a, b]⟩ →
        step p m = .faulted ⟨e.forOpcode .eq, some (m.position, .eq)⟩ m) ∧
      (∀ p l, Faces p m ⟨.jumpIfEq, [.label l, a, b]⟩ →
        step p m = .faulted ⟨e.forOpcode .jumpIfEq, some (m.position, .jumpIfEq)⟩ m) ∧
      ∀ p l, Faces p m ⟨.jumpIfNeq, [.label l, a, b]⟩ →
        step p m = .faulted ⟨e.forOpcode .jumpIfNeq, some (m.position, .jumpIfNeq)⟩ m) ∨
    ∃ equal, (Expr.binary .eq s t).eval m.memory = .ok (.bool equal) ∧
      (∀ p x, Faces p m ⟨.eq, [.variable x, a, b]⟩ → Computes p m x equal) ∧
      (∀ p l, Faces p m ⟨.jumpIfEq, [.label l, a, b]⟩ →
        ∃ target, p.labels.find? l = some target ∧
          step p m = .running (if equal = true then m.jumped target else m.advanced)) ∧
      ∀ p l, Faces p m ⟨.jumpIfNeq, [.label l, a, b]⟩ →
        ∃ target, p.labels.find? l = some target ∧
          step p m = .running (if equal = false then m.jumped target else m.advanced) := by
  rcases incomparable_or_compared m.memory s t with ⟨e, h⟩ | ⟨equal, h⟩
  · exact .inl ⟨e, h.eval_eq, fun p x hfaces => step_eq_of_incomparable h hfaces ha hb,
      fun p l hfaces => step_jumpIf_of_incomparable true h hfaces ha hb,
      fun p l hfaces => step_jumpIf_of_incomparable false h hfaces ha hb⟩
  · exact .inr ⟨equal, h.eval_eq, fun p x hfaces => computes_of_compared h hfaces ha hb,
      fun p l hfaces => step_jumpIf_of_compared true h hfaces ha hb,
      fun p l hfaces => step_jumpIf_of_compared false h hfaces ha hb⟩

end Instructions

/-- A label, and behind it an instruction that compares a variable with a constant and may jump
to the label. -/
def comparing (opcode : Opcode) (first : Operand) (constant : Literal) : List Instruction :=
  [⟨.label, [.label "l"]⟩, ⟨opcode, [first, .variable ⟨.global, "x"⟩, .constant constant]⟩]

/-- A machine at the second instruction, with a variable that holds nil. -/
def withNil : Machine where
  memory := { global := ⟨(∅ : Table (Option Value)).insert "x" (some .nil)⟩ }
  position := 1

/-- Nil is compared with zero: one jump is not taken, the other one is.  Compared with nil, it is
the other way round. -/
theorem conditional_jumps_agree_nilAgainstZero :
    (∃ p q r,
      Program.ofInstructions (comparing .eq (.variable ⟨.global, "x"⟩) ⟨.int, "0"⟩) = .ok p ∧
      Program.ofInstructions (comparing .jumpIfEq (.label "l") ⟨.int, "0"⟩) = .ok q ∧
      Program.ofInstructions (comparing .jumpIfNeq (.label "l") ⟨.int, "0"⟩) = .ok r ∧
      Computes p withNil ⟨.global, "x"⟩ false ∧ step q withNil = .running withNil.advanced ∧
      step r withNil = .running (withNil.jumped 0)) ∧
    ∃ p q r,
      Program.ofInstructions (comparing .eq (.variable ⟨.global, "x"⟩) ⟨.nil, "nil"⟩) = .ok p ∧
      Program.ofInstructions (comparing .jumpIfEq (.label "l") ⟨.nil, "nil"⟩) = .ok q ∧
      Program.ofInstructions (comparing .jumpIfNeq (.label "l") ⟨.nil, "nil"⟩) = .ok r ∧
      Computes p withNil ⟨.global, "x"⟩ true ∧ step q withNil = .running (withNil.jumped 0) ∧
      step r withNil = .running withNil.advanced := by
  constructor
  · have hp : Program.ofInstructions (comparing .eq (.variable ⟨.global, "x"⟩) ⟨.int, "0"⟩) =
      .ok _ := rfl
    have hq : Program.ofInstructions (comparing .jumpIfEq (.label "l") ⟨.int, "0"⟩) = .ok _ := rfl
    have hr : Program.ofInstructions (comparing .jumpIfNeq (.label "l") ⟨.int, "0"⟩) = .ok _ := rfl
    have hvalue : (Expr.binary .eq (.variable ⟨.global, "x"⟩) (.constant (.int 0))).eval
      withNil.memory = .ok (.bool false) := rfl
    refine ⟨_, _, _, hp, hq, hr, ?_⟩
    rcases conditional_jumps_agree (a := .variable ⟨.global, "x"⟩) (b := .constant ⟨.int, "0"⟩)
      rfl rfl withNil with ⟨e, herror, -⟩ | ⟨equal, hequal, hcomputes, hjumpEq, hjumpNeq⟩
    · cases hvalue.symm.trans herror
    · cases hvalue.symm.trans hequal
      obtain ⟨_, -, hstepEq⟩ := hjumpEq _ "l" (faces_of_ofInstructions hq rfl)
      obtain ⟨target, htarget, hstepNeq⟩ := hjumpNeq _ "l" (faces_of_ofInstructions hr rfl)
      cases htarget
      exact ⟨hcomputes _ _ (faces_of_ofInstructions hp rfl), hstepEq, hstepNeq⟩
  · have hp : Program.ofInstructions (comparing .eq (.variable ⟨.global, "x"⟩) ⟨.nil, "nil"⟩) =
      .ok _ := rfl
    have hq : Program.ofInstructions (comparing .jumpIfEq (.label "l") ⟨.nil, "nil"⟩) = .ok _ := rfl
    have hr : Program.ofInstructions (comparing .jumpIfNeq (.label "l") ⟨.nil, "nil"⟩) =
      .ok _ := rfl
    have hvalue : (Expr.binary .eq (.variable ⟨.global, "x"⟩) (.constant .nil)).eval
      withNil.memory = .ok (.bool true) := rfl
    refine ⟨_, _, _, hp, hq, hr, ?_⟩
    rcases conditional_jumps_agree (a := .variable ⟨.global, "x"⟩) (b := .constant ⟨.nil, "nil"⟩)
      rfl rfl withNil with ⟨e, herror, -⟩ | ⟨equal, hequal, hcomputes, hjumpEq, hjumpNeq⟩
    · cases hvalue.symm.trans herror
    · cases hvalue.symm.trans hequal
      obtain ⟨target, htarget, hstepEq⟩ := hjumpEq _ "l" (faces_of_ofInstructions hq rfl)
      obtain ⟨_, -, hstepNeq⟩ := hjumpNeq _ "l" (faces_of_ofInstructions hr rfl)
      cases htarget
      exact ⟨hcomputes _ _ (faces_of_ofInstructions hp rfl), hstepEq, hstepNeq⟩

end Machine

end IppCode
