import Mathlib.Algebra.Group.Nat.Defs
import IppCode.Proofs.ConstantTable
import IppCode.Proofs.ControlState

/-!
# The errors of running programs

Which kinds of errors a program can stop with that has passed the check.  Each opcode
has a list of them (`Opcode.runtimeErrors`), and a fault of a run is at an instruction
with an error of a kind in the list of its opcode, or it is the failure of the last flush
(`fault_of_run`).  In particular no malformed instruction and no undefined label is ever
found while a program runs, not even if its instructions are executed as they stand, which
has to provide for both (`Direct.execute`).

The kinds are followed from the memory and the operators up to expressions and
operations, one lemma for each.
-/

namespace IppCode

open ErrorKind

/-- The kinds of errors of looking up a variable. -/
def slotErrors : List ErrorKind :=
  [noSuchFrame, noSuchVariable]

/-- The kinds of errors of taking the value of a symbol. -/
def valueErrors : List ErrorKind :=
  [noSuchFrame, noSuchVariable, missingValue]

/-- The kinds of errors that an instruction can stop a running program with. -/
def Opcode.runtimeErrors : Opcode → List ErrorKind
  | .createFrame | .call | .label | .jump => []
  | .pushFrame | .popFrame => [noSuchFrame]
  | .defVar => [noSuchFrame, redefinition]
  | .return => [missingValue]
  | .type => slotErrors
  | .read => slotErrors ++ [io]
  | .break => [io]
  | .move | .pushs | .pops => valueErrors
  | .write | .dprint => valueErrors ++ [io]
  | .lt | .gt | .eq | .and | .or | .not | .concat | .jumpIfEq | .jumpIfNeq =>
    valueErrors ++ [operandType]
  -- the length of a text is a value that may not fit, see `OverlongOn`
  | .add | .sub | .mul | .idiv | .exit | .strlen => valueErrors ++ [operandType, operandValue]
  | .int2Char | .stri2Int | .getChar | .setChar => valueErrors ++ [operandType, string]

/-- The instruction asks for the length of a text that is too long for an integer. -/
def Instruction.OverlongOn (i : Instruction) (memory : Memory) : Prop :=
  ∃ x o a text, i = ⟨.strlen, [.variable x, o]⟩ ∧ o.symbol? = some a ∧
    a.eval memory = .ok (.str text) ∧ 2 ^ 63 ≤ text.length

variable {memory : Memory} {error : ExecError}

/-! ## Symbols -/

theorem slotErrors_subset_valueErrors : slotErrors ⊆ valueErrors := by
  decide

theorem Memory.kind_of_slot {x : Variable} (h : memory.slot x = .error error) :
    error.kind ∈ slotErrors := by
  rcases Memory.slot_eq_error h with rfl | rfl <;> simp [slotErrors, ExecError.kind]

theorem Memory.kind_of_write {x : Variable} {content : Option Value} {after : Memory}
    (h : memory.write x content = .error error after) : error.kind ∈ slotErrors := by
  rcases Memory.write_eq_error h with rfl | rfl <;> simp [slotErrors, ExecError.kind]

theorem Memory.kind_of_read {x : Variable} (h : memory.read x = .error error) :
    error.kind ∈ valueErrors := by
  rcases Memory.read_eq_error h with rfl | rfl | rfl <;> simp [valueErrors, ExecError.kind]

theorem Symbol.kind_of_slot {a : Symbol} (h : a.slot memory = .error error) :
    error.kind ∈ slotErrors := by
  cases a with
  | «variable» x => exact Memory.kind_of_slot h
  | constant v => cases h

theorem Symbol.kind_of_eval {a : Symbol} (h : a.eval memory = .error error) :
    error.kind ∈ valueErrors := by
  cases a with
  | «variable» x => exact Memory.kind_of_read h
  | constant v => cases h

/-! ## Operators -/

theorem UnaryOp.valueErrors_subset (f : UnaryOp) : valueErrors ⊆ f.opcode.runtimeErrors := by
  cases f <;> decide

theorem BinaryOp.valueErrors_subset (f : BinaryOp) : valueErrors ⊆ f.opcode.runtimeErrors := by
  cases f <;> decide

theorem length?_eq_none {s : String} (h : Characters.length? s = none) : 2 ^ 63 ≤ s.length := by
  unfold Characters.length? int64? at h
  split at h
  · cases h
  · omega

theorem UnaryOp.eval_eq_error {f : UnaryOp} {v : Value} (h : f.eval v = .error error) :
    error = mismatch f.opcode [v] ∨
    (f = .int2Char ∧ ∃ why, error = .string why) ∨
    (f = .strlen ∧ error = .operandValue .length ∧ ∃ s, v = .str s ∧ 2 ^ 63 ≤ s.length) := by
  -- unfolding the operator would compute with the bound of the lengths
  revert h
  fun_cases UnaryOp.eval f v with
  | case1 | case2 | case4 =>
      intro h
      cases h
  | case3 code why =>
      intro h
      injection h with h
      exact .inr (.inl ⟨rfl, why, h.symm⟩)
  | case5 s hlength =>
      intro h
      injection h with h
      exact .inr (.inr ⟨rfl, h.symm, s, rfl, length?_eq_none hlength⟩)
  | case6 =>
      intro h
      injection h with h
      exact .inl h.symm

theorem UnaryOp.kind_of_eval {f : UnaryOp} {v : Value} (h : f.eval v = .error error) :
    error.kind ∈ f.opcode.runtimeErrors := by
  rcases UnaryOp.eval_eq_error h with rfl | ⟨rfl, why, rfl⟩ | ⟨rfl, rfl, -⟩
  · change operandType ∈ f.opcode.runtimeErrors
    cases f <;> decide
  · change string ∈ Opcode.runtimeErrors .int2Char
    decide
  · decide

theorem BinaryOp.integer_eq_error {f : BinaryOp} {result : Option Int64}
    (h : f.integer result = .error error) : ∃ why, error = .operandValue why := by
  cases result with
  | none =>
      cases h
      exact ⟨_, rfl⟩
  | some n => cases h

theorem BinaryOp.eval_eq_error {f : BinaryOp} {v w : Value} (h : f.eval v w = .error error) :
    error = mismatch f.opcode [v, w] ∨
    (f ∈ [.add, .sub, .mul, .idiv] ∧ ∃ why, error = .operandValue why) ∨
    (f ∈ [.stri2Int, .getChar] ∧ ∃ why, error = .string why) := by
  unfold BinaryOp.eval at h
  split at h
  case h_1 | h_2 | h_3 => exact .inr (.inl ⟨by decide, BinaryOp.integer_eq_error h⟩)
  case h_4 =>
    split at h
    · injection h with h
      exact .inr (.inl ⟨by decide, _, h.symm⟩)
    · exact .inr (.inl ⟨by decide, BinaryOp.integer_eq_error h⟩)
  case h_5 | h_6 | h_7 =>
    split at h
    · cases h
    · injection h with h
      exact .inl h.symm
  case h_8 | h_9 | h_11 => cases h
  case h_10 | h_12 =>
    split at h
    · cases h
    · injection h with h
      exact .inr (.inr ⟨by decide, _, h.symm⟩)
  case h_13 =>
    injection h with h
    exact .inl h.symm

theorem BinaryOp.kind_of_eval {f : BinaryOp} {v w : Value} (h : f.eval v w = .error error) :
    error.kind ∈ f.opcode.runtimeErrors := by
  rcases BinaryOp.eval_eq_error h with rfl | ⟨hf, why, rfl⟩ | ⟨hf, why, rfl⟩
  · change operandType ∈ f.opcode.runtimeErrors
    cases f <;> decide
  · change operandValue ∈ f.opcode.runtimeErrors
    revert hf
    cases f <;> decide
  · change string ∈ f.opcode.runtimeErrors
    revert hf
    cases f <;> decide

theorem kind_of_evalSetChar {target index replacement : Value}
    (h : evalSetChar target index replacement = .error error) :
    error.kind ∈ Opcode.runtimeErrors .setChar := by
  unfold evalSetChar at h
  split at h
  · split at h
    · cases h
    · injection h with h
      rw [← h]
      change string ∈ Opcode.runtimeErrors .setChar
      decide
  · injection h with h
    rw [← h]
    change operandType ∈ Opcode.runtimeErrors .setChar
    decide

/-! ## Expressions -/

theorem bind_eq_error {α β : Type} {x : Except ExecError α} {f : α → Except ExecError β}
    (h : x >>= f = .error error) : x = .error error ∨ ∃ a, x = .ok a ∧ f a = .error error := by
  cases x with
  | error e =>
      cases h
      exact .inl rfl
  | ok a => exact .inr ⟨a, rfl, h⟩

theorem Expr.slotErrors_subset (e : Expr) : slotErrors ⊆ e.opcode.runtimeErrors := by
  cases e with
  | copy a => exact slotErrors_subset_valueErrors
  | typeName a => exact List.Subset.refl _
  | setChar x index replacement =>
      change slotErrors ⊆ Opcode.runtimeErrors .setChar
      decide
  | unary f a => exact List.Subset.trans slotErrors_subset_valueErrors f.valueErrors_subset
  | binary f a b => exact List.Subset.trans slotErrors_subset_valueErrors f.valueErrors_subset

/-- An expression has an error of a kind that its opcode can have. -/
theorem Expr.kind_of_eval {e : Expr} (h : e.eval memory = .error error) :
    error.kind ∈ e.opcode.runtimeErrors := by
  cases e with
  | copy a => exact Symbol.kind_of_eval h
  | typeName a =>
      rcases bind_eq_error h with ha | ⟨content, -, h⟩
      · exact Symbol.kind_of_slot ha
      · cases h
  | unary f a =>
      rcases bind_eq_error h with ha | ⟨v, -, h⟩
      · exact f.valueErrors_subset (Symbol.kind_of_eval ha)
      · exact UnaryOp.kind_of_eval h
  | binary f a b =>
      rcases bind_eq_error h with ha | ⟨v, -, h⟩
      · exact f.valueErrors_subset (Symbol.kind_of_eval ha)
      rcases bind_eq_error h with hb | ⟨w, -, h⟩
      · exact f.valueErrors_subset (Symbol.kind_of_eval hb)
      · exact BinaryOp.kind_of_eval h
  | setChar x index replacement =>
      have hsubset : valueErrors ⊆ Opcode.runtimeErrors .setChar := by decide
      rcases bind_eq_error h with hx | ⟨target, -, h⟩
      · exact hsubset (Memory.kind_of_read hx)
      rcases bind_eq_error h with hindex | ⟨i, -, h⟩
      · exact hsubset (Symbol.kind_of_eval hindex)
      rcases bind_eq_error h with hreplacement | ⟨r, -, h⟩
      · exact hsubset (Symbol.kind_of_eval hreplacement)
      · exact kind_of_evalSetChar h

/-- The length of a text has an error of its value only if it is too long. -/
theorem Expr.overlong_of_eval {e : Expr} (h : e.eval memory = .error error)
    (hopcode : e.opcode = .strlen) (hkind : error.kind = operandValue) :
    ∃ a text, e = .unary .strlen a ∧ a.eval memory = .ok (.str text) ∧ 2 ^ 63 ≤ text.length := by
  cases e with
  | copy a | typeName a | setChar x index replacement => cases hopcode
  | binary f a b => cases f <;> cases hopcode
  | unary f a =>
      rcases bind_eq_error h with ha | ⟨v, hv, h⟩
      · have hmem := Symbol.kind_of_eval ha
        rw [hkind] at hmem
        exact absurd hmem (by decide)
      · rcases UnaryOp.eval_eq_error h with rfl | ⟨rfl, -⟩ | ⟨rfl, -, text, rfl, hlength⟩
        · cases hkind
        · cases hopcode
        · exact ⟨a, text, rfl, hv, hlength⟩

/-! ## Operations -/

namespace Machine

variable {is : List Instruction} {p : Program} {m m' : Machine} {op : Operation Nat}

theorem kind_of_isTaken {equal : Bool} {v w : Value} (h : isTaken equal v w = .error error) :
    error.kind = operandType := by
  unfold isTaken at h
  split at h <;> cases h
  rfl

theorem kind_of_exitCode {v : Value} (h : exitCode v = .error error) :
    error.kind = operandType ∨ error.kind = operandValue := by
  unfold exitCode at h
  split at h
  · split at h <;> cases h
    exact .inr rfl
  · cases h
    exact .inl rfl

/-- An operation fails with an error of a kind that its opcode can have. -/
theorem Fails.kind_mem (h : Fails m op error m') : error.kind ∈ op.opcode.runtimeErrors := by
  cases h with
  | assignValue hvalue => exact Expr.kind_of_eval hvalue
  | assignStore _ hstore => exact Expr.slotErrors_subset _ (Memory.kind_of_write hstore)
  | pushFrame h =>
      obtain ⟨rfl, -⟩ := Memory.pushFrame_eq_error h
      exact List.mem_singleton_self _
  | popFrame h =>
      obtain ⟨rfl, -⟩ := Memory.popFrame_eq_error h
      exact List.mem_singleton_self _
  | declare h =>
      rcases (Memory.declare_eq_error h).1 with rfl | rfl <;>
        simp [Operation.opcode, Opcode.runtimeErrors, ExecError.kind]
  | comeBack h =>
      obtain ⟨rfl, -⟩ := Memory.popCall_eq_error h
      exact List.mem_singleton_self _
  | push hvalue => exact Symbol.kind_of_eval hvalue
  | popValue hvalue =>
      obtain ⟨rfl, -⟩ := Memory.popValue_eq_error hvalue
      change missingValue ∈ valueErrors
      decide
  | popStore _ hstore => exact slotErrors_subset_valueErrors (Memory.kind_of_write hstore)
  | readStore _ hstore => exact List.mem_append_left _ (Memory.kind_of_write hstore)
  | writeValue hvalue | printValue hvalue | exitValue hvalue =>
      exact List.mem_append_left _ (Symbol.kind_of_eval hvalue)
  | readValue | writeOutput | printOutput =>
      exact List.mem_append_right _ (List.mem_singleton_self _)
  | dump => exact List.mem_singleton_self _
  | @jumpFirst equal _ _ _ _ h =>
      cases equal <;> exact List.mem_append_left _ (Symbol.kind_of_eval h)
  | @jumpSecond equal _ _ _ _ _ _ h =>
      cases equal <;> exact List.mem_append_left _ (Symbol.kind_of_eval h)
  | @jumpCompare equal _ _ _ _ _ _ _ _ h =>
      rw [kind_of_isTaken h]
      cases equal <;> exact List.mem_append_right _ (List.mem_singleton_self _)
  | exitCode _ hcode =>
      rcases kind_of_exitCode hcode with h | h
      · rw [h]
        change operandType ∈ Opcode.runtimeErrors .exit
        decide
      · rw [h]
        change operandValue ∈ Opcode.runtimeErrors .exit
        decide

/-- The length of a text fails for its value only if it is too long. -/
theorem Fails.overlong (h : Fails m op error m') (hopcode : op.opcode = .strlen)
    (hkind : error.kind = operandValue) :
    ∃ x a text, op = .assign x (.unary .strlen a) ∧ a.eval m'.memory = .ok (.str text) ∧
      2 ^ 63 ≤ text.length := by
  cases h with
  | assignValue hvalue =>
      obtain ⟨a, text, rfl, ha, hlength⟩ := Expr.overlong_of_eval hvalue hopcode hkind
      exact ⟨_, a, text, rfl, ha, hlength⟩
  | assignStore _ hstore =>
      -- stores fail for want of a frame or of a variable
      have hmem := Memory.kind_of_write hstore
      rw [hkind] at hmem
      exact absurd hmem (by decide)
  | @jumpFirst equal | @jumpSecond equal | @jumpCompare equal => cases equal <;> cases hopcode
  | _ => cases hopcode

/-! ## Runs -/

theorem log_of_flush {channel : Channel} {streams streams' : Streams} {text : String}
    (h : Streams.flush channel streams = .error text streams') :
    streams'.log.head? = some (.flushed channel (some text)) := by
  cases hfailure : (streams.sink channel).flushFailure (streams.sink channel).served with
  | none => simp [Streams.flush, hfailure] at h
  | some found =>
      simp only [Streams.flush, hfailure] at h
      cases h
      rfl

/-- An instruction fails with an error of a kind that its opcode can have. -/
theorem kind_of_line (h : Program.ofInstructions is = .ok p) {line : Line}
    (hline : p.lines[m.position]? = some line) (hfails : Fails m line.operation error m') :
    error.kind ∈ line.instruction.opcode.runtimeErrors ∧
      (line.instruction.opcode = .strlen → error.kind = operandValue →
        line.instruction.OverlongOn m'.memory) := by
  have hopcode := opcode_of_line h hline
  refine ⟨hopcode ▸ hfails.kind_mem, ?_⟩
  intro hstrlen hkind
  obtain ⟨x, a, text, hop, ha, hlength⟩ := hfails.overlong (hopcode.trans hstrlen) hkind
  obtain ⟨-, hlink⟩ := Program.line_of_getElem? h hline
  rw [hop] at hlink
  obtain ⟨o, hinstruction, ho⟩ := Instruction.unary_of_link hlink
  exact ⟨x, o, a, text, hinstruction, ho, ha, hlength⟩

/-- What the check has excluded is not among the errors of any opcode. -/
theorem not_mem_of_runtimeErrors (opcode : Opcode) :
    ∀ kind ∈ opcode.runtimeErrors, kind ∉ [malformed, duplicateLabel, undefinedLabel] := by
  cases opcode <;> decide

/-- What a run of a program can fail with: the last flush, where it would have ended, or the
instruction at the position, with an error of a kind that its opcode can have. -/
theorem fault_cases (hp : Program.ofInstructions is = .ok p) {streams : Streams} {n : Nat}
    {f : Fault} (hrun : run p n { streams } = .faulted f m) :
    (f.location = none ∧ EndsAt is m.position ∧ ∃ text, f.error = .io text ∧
      m.streams.log.head? = some (.flushed .output (some text))) ∨
    ∃ i, is[m.position]? = some i ∧ f.location = some (m.position, i.opcode) ∧
      f.error.kind ∈ i.opcode.runtimeErrors ∧
      (i.opcode = .strlen → f.error.kind = operandValue → i.OverlongOn m.memory) := by
  cases hlocation : f.location with
  | none =>
      obtain ⟨hends, text, before, herror, hflush⟩ :=
        (controlled_initial is streams).of_unlocated hp hrun hlocation
      exact .inl ⟨rfl, hends, text, herror, log_of_flush hflush⟩
  | some location =>
      -- failed operations stay where they are, so the location is that of the last machine
      obtain ⟨mid, -, hstep⟩ := run_stopped hrun (by simp)
      rcases step_faulted hstep with ⟨line, hline, hfails, hlocated⟩ |
        ⟨code, last, text, streams', -, -, rfl, -⟩
      · obtain ⟨hget, -⟩ := Program.line_of_getElem? hp hline
        obtain ⟨hkind, hoverlong⟩ := kind_of_line hp hline hfails
        rw [← hfails.position_eq] at hget hlocated
        exact .inr ⟨_, hget, hlocation.symm.trans hlocated, hkind, hoverlong⟩
      · cases hlocation

/-- Instructions that pass the check are a program, and what its runs can fail with, on
all streams: the last flush, where the program would have ended, or the instruction at
the position, with an error of a kind that its opcode can have.  The length of a text
has an error of its value only if it does not fit an integer.

The same holds if the instructions are executed as they stand, one operand after the other.
In neither case is the error one of those that the check looks for. -/
theorem fault_of_run {labels : Table Nat} (h : check is = .ok labels) :
    ∃ p, Program.ofInstructions is = .ok p ∧
      ∀ streams n f m, (run p n { streams } = .faulted f m ∨
          Direct.run (.table p) is p.labels n { streams } = .faulted f m) →
        ((f.location = none ∧ EndsAt is m.position ∧ ∃ text, f.error = .io text ∧
          m.streams.log.head? = some (.flushed .output (some text))) ∨
        ∃ i, is[m.position]? = some i ∧ f.location = some (m.position, i.opcode) ∧
          f.error.kind ∈ i.opcode.runtimeErrors ∧
          (i.opcode = .strlen → f.error.kind = operandValue → i.OverlongOn m.memory)) ∧
        f.error.kind ∉ [malformed, duplicateLabel, undefinedLabel] := by
  obtain ⟨p, hp⟩ := Program.exists_ofInstructions h
  have hdirect := Direct.run_eq (fun _ _ hi => ConstantSource.table_agrees hp hi) hp
  refine ⟨p, hp, ?_⟩
  intro streams n f m hrun
  rw [hdirect, or_self] at hrun
  have hcases := fault_cases hp hrun
  refine ⟨hcases, ?_⟩
  rcases hcases with ⟨-, -, text, herror, -⟩ | ⟨i, -, -, hkind, -⟩
  · rw [herror]
    simp [ExecError.kind]
  · exact not_mem_of_runtimeErrors i.opcode _ hkind

/-- Writes a variable that has been declared and not assigned. -/
def unassigned : List Instruction :=
  [⟨.defVar, [.variable ⟨.global, "x"⟩]⟩, ⟨.write, [.variable ⟨.global, "x"⟩]⟩]

/-- The write fails for want of a value, which is among the errors of writes. -/
theorem fault_of_run_unassigned :
    ∃ p f m, Program.ofInstructions unassigned = .ok p ∧ run p 2 {} = .faulted f m ∧
      Direct.run (.table p) unassigned p.labels 2 {} = .faulted f m ∧
      f.location = some (1, .write) ∧ f.error.kind = missingValue ∧
      missingValue ∈ Opcode.runtimeErrors .write := by
  obtain ⟨p, hp, hfault⟩ := @fault_of_run unassigned _ rfl
  obtain rfl := Except.ok.inj hp
  rcases (hfault {} 2 _ _ (.inr rfl)).1 with ⟨hlocation, -⟩ | ⟨i, hi, hlocation, hkind, -⟩
  · cases hlocation
  · cases hi
    exact ⟨_, _, _, hp, rfl, rfl, hlocation, rfl, hkind⟩

end Machine

end IppCode
