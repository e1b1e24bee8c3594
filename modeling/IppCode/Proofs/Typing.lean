import IppCode.Proofs.DirectExecution
import IppCode.Proofs.RuntimeErrors
import IppCode.Proofs.SymbolTypes

/-!
# Types of operands, before and while a program runs

The types of operands are judged twice.  The check compares the constants of an
instruction with the signature and the pairing of its opcode, and each operator looks at
the values it is applied to.  Here the two are compared.

An operator refuses values for their types exactly where the check would refuse them as
constants (`UnaryOp.eval_eq_mismatch_iff`, `BinaryOp.eval_eq_mismatch_iff`).  So an operation
that succeeds has symbols without a defect (`Executes.typed`), and an operation on constants
that fails has an error that tells which defect there is, if there is one
(`Fails.explained`).
-/

namespace IppCode

/-! ## Operators -/

section Operators

variable {opcode : Opcode} {a b : Symbol} {v w : Value} {error : ExecError}

theorem Symbol.within_constant {types : List ValueType} :
    (Symbol.constant v).Within types ↔ v.type ∈ types := by
  simp [Symbol.Within]

theorem Opcode.typed_one {types : List ValueType} (h : opcode.symbolTypes = [types]) :
    opcode.Typed [a] ↔ a.Within types := by
  constructor
  · rintro ⟨hwithin, -⟩
    rw [h] at hwithin
    exact (List.forall₂_cons.1 hwithin).1
  · intro ha
    exact ⟨by rw [h]; exact .cons ha .nil, by simp⟩

theorem Opcode.typed_none (h : opcode.symbolTypes = []) : opcode.Typed [] :=
  ⟨by rw [h]; exact .nil, by simp⟩

theorem Value.type_mem_all (v : Value) : v.type ∈ [ValueType.int, .string, .bool, .nil] := by
  cases v <;> simp [Value.type]

theorem Opcode.typed_any (h : opcode.symbolTypes = [[.int, .string, .bool, .nil]]) :
    opcode.Typed [a] :=
  (Opcode.typed_one h).2 fun v _ => v.type_mem_all

theorem Opcode.typed_single {type : ValueType} (h : opcode.symbolTypes = [[type]]) :
    opcode.Typed [.constant v] ↔ v.type = type := by
  rw [Opcode.typed_one h, Symbol.within_constant, List.mem_singleton]

/-- The types of two constants are checked one by one, and then as a pair. -/
theorem Opcode.typed_two {types types' : List ValueType}
    (h : opcode.symbolTypes = [types, types']) :
    opcode.Typed [.constant v, .constant w] ↔
      v.type ∈ types ∧ w.type ∈ types' ∧ opcode.pairing.Permits v.type w.type := by
  constructor
  · rintro ⟨hwithin, hpaired⟩
    rw [h, List.forall₂_cons, List.forall₂_cons, Symbol.within_constant,
      Symbol.within_constant] at hwithin
    exact ⟨hwithin.1, hwithin.2.1, hpaired v w rfl⟩
  · rintro ⟨hv, hw, hpair⟩
    refine ⟨?_, ?_⟩
    · rw [h]
      exact .cons (Symbol.within_constant.2 hv) (.cons (Symbol.within_constant.2 hw) .nil)
    · intro v' w' heq
      cases heq
      exact hpair

theorem Opcode.typed_pair {type type' : ValueType} (h : opcode.symbolTypes = [[type], [type']])
    (hpairing : opcode.pairing = .independent) :
    opcode.Typed [.constant v, .constant w] ↔ v.type = type ∧ w.type = type' := by
  rw [Opcode.typed_two h, List.mem_singleton, List.mem_singleton, hpairing]
  simp [Pairing.Permits]

/-- Only divisors and exit codes have a range. -/
theorem Opcode.inRange_of_ne {as : List Symbol}
    (h : decide (opcode = .idiv ∨ opcode = .exit) = false) : opcode.InRange as := by
  have hne := of_decide_eq_false h
  exact ⟨fun hidiv => absurd (.inl hidiv) hne, fun hexit => absurd (.inr hexit) hne⟩

/-- Only values of one type, or with nil among them, can be tested for equality. -/
theorem Value.equals?_eq_none_iff :
    v.equals? w = none ↔ ¬ Pairing.sameTypeOrNil.Permits v.type w.type := by
  simp [Value.equals?, Pairing.Permits, Value.type_eq_nil_iff]

/-- Only values of one type can be ordered, and nil not at all. -/
theorem Value.compare?_eq_none_iff :
    v.compare? w = none ↔
      ¬ (v.type ∈ [ValueType.int, .string, .bool] ∧ w.type ∈ [ValueType.int, .string, .bool] ∧
        Pairing.sameType.Permits v.type w.type) := by
  cases v <;> cases w <;> simp [Value.compare?, Value.type, Pairing.Permits]

theorem Value.exists_int (h : v.type = .int) : ∃ n, v = .int n := by
  cases v <;> simp [Value.type] at h ⊢

theorem Value.exists_str (h : v.type = .string) : ∃ s, v = .str s := by
  cases v <;> simp [Value.type] at h ⊢

theorem Value.exists_bool (h : v.type = .bool) : ∃ b, v = .bool b := by
  cases v <;> simp [Value.type] at h ⊢

/-- An operator refuses a value for its type exactly if the check refuses it as a
constant. -/
theorem UnaryOp.eval_eq_mismatch_iff {f : UnaryOp} :
    f.eval v = .error (mismatch f.opcode [v]) ↔ ¬ f.opcode.Typed [.constant v] := by
  fun_cases UnaryOp.eval f v with
  | case1 | case2 | case3 | case4 | case5 =>
      refine iff_of_false (by simp [mismatch]) (not_not.2 ?_)
      exact (Opcode.typed_single rfl).2 rfl
  | case6 f v hnot hcode hlength =>
      refine iff_of_true rfl fun htyped => ?_
      cases f with
      | not =>
          obtain ⟨b, rfl⟩ := Value.exists_bool ((Opcode.typed_single rfl).1 htyped)
          exact hnot b rfl rfl
      | int2Char =>
          obtain ⟨n, rfl⟩ := Value.exists_int ((Opcode.typed_single rfl).1 htyped)
          exact hcode n rfl rfl
      | strlen =>
          obtain ⟨s, rfl⟩ := Value.exists_str ((Opcode.typed_single rfl).1 htyped)
          exact hlength s rfl rfl

/-- Integers are refused for their values only. -/
theorem BinaryOp.integer_ne_mismatch {f : BinaryOp} {result : Option Int64} {opcode : Opcode}
    {values : List Value} : f.integer result ≠ .error (mismatch opcode values) := by
  intro h
  obtain ⟨why, hwhy⟩ := BinaryOp.integer_eq_error h
  cases hwhy

/-- An operator refuses two values for their types exactly if the check refuses them as
constants. -/
theorem BinaryOp.eval_eq_mismatch_iff {f : BinaryOp} :
    f.eval v w = .error (mismatch f.opcode [v, w]) ↔
      ¬ f.opcode.Typed [.constant v, .constant w] := by
  fun_cases BinaryOp.eval f v w with
  | case1 | case2 | case3 | case5 =>
      refine iff_of_false BinaryOp.integer_ne_mismatch (not_not.2 ?_)
      exact (Opcode.typed_pair rfl rfl).2 ⟨rfl, rfl⟩
  | case4 | case12 | case13 | case14 | case15 | case16 | case17 | case18 =>
      refine iff_of_false (by simp [mismatch]) (not_not.2 ?_)
      exact (Opcode.typed_pair rfl rfl).2 ⟨rfl, rfl⟩
  | case6 v w order horder | case8 v w order horder =>
      refine iff_of_false (by simp) (not_not.2 ((Opcode.typed_two rfl).2 ?_))
      by_contra hnot
      rw [Value.compare?_eq_none_iff.2 hnot] at horder
      cases horder
  | case7 v w hnone | case9 v w hnone =>
      exact iff_of_true rfl fun htyped =>
        Value.compare?_eq_none_iff.1 hnone ((Opcode.typed_two rfl).1 htyped)
  | case10 v w equal hequal =>
      refine iff_of_false (by simp) (not_not.2 ((Opcode.typed_two rfl).2 ⟨?_, ?_, ?_⟩))
      · exact v.type_mem_all
      · exact w.type_mem_all
      · by_contra hnot
        rw [Value.equals?_eq_none_iff.2 hnot] at hequal
        cases hequal
  | case11 v w hnone =>
      exact iff_of_true rfl fun htyped =>
        Value.equals?_eq_none_iff.1 hnone ((Opcode.typed_two rfl).1 htyped).2.2
  | case19 f v w hadd hsub hmul hidiv hlt hgt heq hand hor hcode hconcat hget =>
      refine iff_of_true rfl fun htyped => ?_
      -- values of the right types are those of a branch above, which was not taken
      cases f with
      | lt => exact hlt rfl
      | gt => exact hgt rfl
      | eq => exact heq rfl
      | add =>
          obtain ⟨hv, hw⟩ := (Opcode.typed_pair rfl rfl).1 htyped
          obtain ⟨l, rfl⟩ := Value.exists_int hv
          obtain ⟨r, rfl⟩ := Value.exists_int hw
          exact hadd l r rfl rfl rfl
      | sub =>
          obtain ⟨hv, hw⟩ := (Opcode.typed_pair rfl rfl).1 htyped
          obtain ⟨l, rfl⟩ := Value.exists_int hv
          obtain ⟨r, rfl⟩ := Value.exists_int hw
          exact hsub l r rfl rfl rfl
      | mul =>
          obtain ⟨hv, hw⟩ := (Opcode.typed_pair rfl rfl).1 htyped
          obtain ⟨l, rfl⟩ := Value.exists_int hv
          obtain ⟨r, rfl⟩ := Value.exists_int hw
          exact hmul l r rfl rfl rfl
      | idiv =>
          obtain ⟨hv, hw⟩ := (Opcode.typed_pair rfl rfl).1 htyped
          obtain ⟨l, rfl⟩ := Value.exists_int hv
          obtain ⟨r, rfl⟩ := Value.exists_int hw
          exact hidiv l r rfl rfl rfl
      | and =>
          obtain ⟨hv, hw⟩ := (Opcode.typed_pair rfl rfl).1 htyped
          obtain ⟨b, rfl⟩ := Value.exists_bool hv
          obtain ⟨c, rfl⟩ := Value.exists_bool hw
          exact hand b c rfl rfl rfl
      | or =>
          obtain ⟨hv, hw⟩ := (Opcode.typed_pair rfl rfl).1 htyped
          obtain ⟨b, rfl⟩ := Value.exists_bool hv
          obtain ⟨c, rfl⟩ := Value.exists_bool hw
          exact hor b c rfl rfl rfl
      | stri2Int =>
          obtain ⟨hv, hw⟩ := (Opcode.typed_pair rfl rfl).1 htyped
          obtain ⟨s, rfl⟩ := Value.exists_str hv
          obtain ⟨i, rfl⟩ := Value.exists_int hw
          exact hcode s i rfl rfl rfl
      | getChar =>
          obtain ⟨hv, hw⟩ := (Opcode.typed_pair rfl rfl).1 htyped
          obtain ⟨s, rfl⟩ := Value.exists_str hv
          obtain ⟨i, rfl⟩ := Value.exists_int hw
          exact hget s i rfl rfl rfl
      | concat =>
          obtain ⟨hv, hw⟩ := (Opcode.typed_pair rfl rfl).1 htyped
          obtain ⟨s, rfl⟩ := Value.exists_str hv
          obtain ⟨t, rfl⟩ := Value.exists_str hw
          exact hconcat s t rfl rfl rfl

end Operators

/-! ## What errors tell -/

/-- The error of an opcode on constants tells what the check would have found: a wrong type
has an error of the type, a value out of range one of the value, and constants without a
defect have neither. -/
structure Opcode.Explains (opcode : Opcode) (as : List Symbol) (error : ExecError) : Prop where
  type : ¬ opcode.Typed as → error.kind = .operandType
  range : opcode.Typed as → ¬ opcode.InRange as → error.kind = .operandValue
  clean : opcode.Typed as → opcode.InRange as →
    error.kind ≠ .operandType ∧ error ≠ .operandValue .divisionByZero ∧ opcode ≠ .exit

section Errors

variable {opcode : Opcode} {as : List Symbol} {v w r : Value} {error : ExecError}

theorem Opcode.Explains.of_not_typed (hnot : ¬ opcode.Typed as)
    (hkind : error.kind = .operandType) : opcode.Explains as error :=
  ⟨fun _ => hkind, fun htyped => absurd htyped hnot, fun htyped => absurd htyped hnot⟩

/-- Constants without a defect are not to blame for an error that is about neither types nor
division. -/
theorem Opcode.Explains.of_inRange (htyped : opcode.Typed as) (hrange : opcode.InRange as)
    (hkind : error.kind ≠ .operandType) (hzero : error ≠ .operandValue .divisionByZero)
    (hexit : opcode ≠ .exit) : opcode.Explains as error :=
  ⟨fun hnot => absurd htyped hnot, fun _ hnot => absurd hrange hnot,
    fun _ _ => ⟨hkind, hzero, hexit⟩⟩

theorem Opcode.Explains.of_kind {kinds : List ErrorKind} (htyped : opcode.Typed as)
    (hrange : opcode.InRange as) (hmem : error.kind ∈ kinds) (htype : .operandType ∉ kinds)
    (hvalue : .operandValue ∉ kinds) (hexit : opcode ≠ .exit) : opcode.Explains as error := by
  refine .of_inRange htyped hrange ?_ ?_ hexit
  · rintro hkind
    exact htype (hkind ▸ hmem)
  · rintro rfl
    exact hvalue hmem

theorem UnaryOp.inRange (f : UnaryOp) (as : List Symbol) : f.opcode.InRange as := by
  apply Opcode.inRange_of_ne
  cases f <;> rfl

theorem UnaryOp.opcode_ne_exit (f : UnaryOp) : f.opcode ≠ .exit := by
  cases f <;> decide

theorem UnaryOp.typed_of_ne {f : UnaryOp} (h : f.eval v ≠ .error (mismatch f.opcode [v])) :
    f.opcode.Typed [.constant v] :=
  not_not.1 (mt UnaryOp.eval_eq_mismatch_iff.2 h)

/-- The error of an operator tells what is wrong with its one constant. -/
theorem UnaryOp.explains {f : UnaryOp} (h : f.eval v = .error error) :
    f.opcode.Explains [.constant v] error := by
  rcases UnaryOp.eval_eq_error h with rfl | ⟨-, why, rfl⟩ | ⟨-, rfl, -⟩
  · exact .of_not_typed (UnaryOp.eval_eq_mismatch_iff.1 h) rfl
  · exact .of_inRange (UnaryOp.typed_of_ne (by simp [h, mismatch])) (f.inRange _)
      (by simp [ExecError.kind]) (by simp) f.opcode_ne_exit
  · exact .of_inRange (UnaryOp.typed_of_ne (by simp [h, mismatch])) (f.inRange _)
      (by simp [ExecError.kind]) (by simp) f.opcode_ne_exit

theorem BinaryOp.typed_of_ne {f : BinaryOp} (h : f.eval v w ≠ .error (mismatch f.opcode [v, w])) :
    f.opcode.Typed [.constant v, .constant w] :=
  not_not.1 (mt BinaryOp.eval_eq_mismatch_iff.2 h)

theorem BinaryOp.opcode_ne_exit (f : BinaryOp) : f.opcode ≠ .exit := by
  cases f <;> decide

/-- The only values out of range are divisors that are zero. -/
theorem BinaryOp.inRange_iff {f : BinaryOp} :
    f.opcode.InRange [.constant v, .constant w] ↔ ¬ (f = .idiv ∧ w = .int 0) := by
  constructor
  · rintro hrange ⟨rfl, rfl⟩
    exact hrange.divisor rfl _ rfl
  · intro h
    refine ⟨?_, fun hexit => absurd hexit f.opcode_ne_exit⟩
    intro hopcode a heq
    cases heq
    have hf : f = .idiv := by
      cases f <;> first | rfl | cases hopcode
    exact h ⟨hf, rfl⟩

/-- Division by zero is reported of divisors that are zero, and of nothing else. -/
theorem BinaryOp.eval_ne_divisionByZero {f : BinaryOp}
    (hrange : f.opcode.InRange [.constant v, .constant w]) :
    f.eval v w ≠ .error (.operandValue .divisionByZero) := by
  have hinteger : ∀ (g : BinaryOp) result,
      g.integer result ≠ .error (.operandValue .divisionByZero) := by
    rintro g (_ | n) <;> simp [BinaryOp.integer]
  fun_cases BinaryOp.eval f v w with
  | case1 | case2 | case3 | case5 => exact hinteger _ _
  | case4 l => exact absurd ⟨rfl, rfl⟩ (BinaryOp.inRange_iff.1 hrange)
  | _ => simp [mismatch]

/-- The error of an operator tells what is wrong with its two constants. -/
theorem BinaryOp.explains {f : BinaryOp} (h : f.eval v w = .error error) :
    f.opcode.Explains [.constant v, .constant w] error := by
  rcases BinaryOp.eval_eq_error h with rfl | ⟨-, why, rfl⟩ | ⟨hf, why, rfl⟩
  · exact .of_not_typed (BinaryOp.eval_eq_mismatch_iff.1 h) rfl
  · have htyped : f.opcode.Typed [.constant v, .constant w] :=
      BinaryOp.typed_of_ne (by simp [h, mismatch])
    refine ⟨fun hnot => absurd htyped hnot, fun _ _ => rfl, fun _ hrange => ?_⟩
    refine ⟨by simp [ExecError.kind], ?_, f.opcode_ne_exit⟩
    intro hzero
    rw [hzero] at h
    exact BinaryOp.eval_ne_divisionByZero hrange h
  · refine .of_inRange (BinaryOp.typed_of_ne (by simp [h, mismatch])) ?_ (by simp [ExecError.kind])
      (by simp) f.opcode_ne_exit
    refine BinaryOp.inRange_iff.2 ?_
    rintro ⟨rfl, -⟩
    exact absurd hf (by decide)

/-- A result is only there for values without a defect. -/
theorem BinaryOp.typed_of_eval {f : BinaryOp} (h : f.eval v w = .ok r) :
    f.opcode.Typed [.constant v, .constant w] ∧ f.opcode.InRange [.constant v, .constant w] := by
  refine ⟨BinaryOp.typed_of_ne (by simp [h]), BinaryOp.inRange_iff.2 ?_⟩
  rintro ⟨rfl, rfl⟩
  cases v <;> simp [BinaryOp.eval] at h

theorem typed_of_evalSetChar {target : Value} (h : evalSetChar target v w = .ok r) :
    Opcode.Typed .setChar [.constant v, .constant w] := by
  unfold evalSetChar at h
  split at h
  · exact (Opcode.typed_pair rfl rfl).2 ⟨rfl, rfl⟩
  · cases h

namespace Machine

/-- A conditional jump fails to compare exactly the values that the check refuses as constants. -/
theorem isTaken_eq_error_iff {equal : Bool} :
    isTaken equal v w = .error error ↔
      ¬ (Operation.jumpIfOpcode equal).Typed [.constant v, .constant w] ∧
        error = mismatch (Operation.jumpIfOpcode equal) [v, w] := by
  have htypes : (Operation.jumpIfOpcode equal).symbolTypes =
      [[.int, .string, .bool, .nil], [.int, .string, .bool, .nil]] := by
    cases equal <;> rfl
  have hpairing : (Operation.jumpIfOpcode equal).pairing = .sameTypeOrNil := by
    cases equal <;> rfl
  have htyped : ¬ (Operation.jumpIfOpcode equal).Typed [.constant v, .constant w] ↔
      v.equals? w = none := by
    rw [Opcode.typed_two htypes, hpairing, Value.equals?_eq_none_iff]
    simp [v.type_mem_all, w.type_mem_all]
  rw [htyped]
  unfold isTaken
  cases v.equals? w <;> simp [eq_comm]

theorem inRange_jumpIf (equal : Bool) (as : List Symbol) :
    (Operation.jumpIfOpcode equal).InRange as := by
  apply Opcode.inRange_of_ne
  cases equal <;> rfl

theorem typed_of_exitCode {code : Nat} (h : exitCode v = .ok code) :
    Opcode.Typed .exit [.constant v] ∧ Opcode.InRange .exit [.constant v] := by
  cases v with
  | int n =>
      refine ⟨(Opcode.typed_single rfl).2 rfl, by simp, ?_⟩
      intro _ n' heq
      cases heq
      by_contra hrange
      rw [exitCode, exitCode?_eq_none_iff.2 hrange] at h
      cases h
  | str s | bool b | nil => cases h

theorem explains_of_exitCode (h : exitCode v = .error error) :
    Opcode.Explains .exit [.constant v] error := by
  cases v with
  | int n =>
      have htyped : Opcode.Typed .exit [.constant (.int n)] := (Opcode.typed_single rfl).2 rfl
      cases hcode : exitCode? n with
      | some code =>
          rw [exitCode, hcode] at h
          cases h
      | none =>
          rw [exitCode, hcode] at h
          cases h
          -- the type is right, so the defect is that of the range
          refine ⟨fun hnot => absurd htyped hnot, fun _ _ => rfl, fun _ hrange => ?_⟩
          exact absurd (hrange.exitCode rfl n rfl) (exitCode?_eq_none_iff.1 hcode)
  | str s | bool b | nil =>
      cases h
      refine .of_not_typed ?_ rfl
      rw [Opcode.typed_single rfl]
      simp [Value.type]

end Machine

end Errors

/-! ## Operations -/

theorem bind_eq_ok {α β : Type} {x : Except ExecError α} {f : α → Except ExecError β} {b : β}
    (h : x >>= f = .ok b) : ∃ a, x = .ok a ∧ f a = .ok b := by
  cases x with
  | error e => cases h
  | ok a => exact ⟨a, rfl, h⟩

section Values

variable {opcode : Opcode} {memory : Memory} {as : List Symbol} {vs : List Value}

theorem Symbol.Within.of_value {types : List ValueType} {a : Symbol} {v : Value}
    (h : (Symbol.constant v).Within types) (ha : a.eval memory = .ok v) : a.Within types := by
  rintro u rfl
  cases ha
  exact h _ rfl

/-- Where the values of symbols are typed, so are the constants among the symbols. -/
theorem Opcode.Typed.of_values (h : opcode.Typed (vs.map .constant))
    (heval : List.Forall₂ (fun a v => a.eval memory = .ok v) as vs) : opcode.Typed as := by
  obtain ⟨hwithin, hpaired⟩ := h
  refine ⟨?_, ?_⟩
  · generalize opcode.symbolTypes = types at hwithin
    clear hpaired
    induction heval generalizing types with
    | nil => exact hwithin
    | cons ha _ ih =>
        obtain ⟨t, rest, ht, hrest, rfl⟩ := List.forall₂_cons_right_iff.1 hwithin
        exact .cons (ht.of_value ha) (ih rest hrest)
  · rintro v w rfl
    obtain ⟨_, _, hv, hrest, rfl⟩ := List.forall₂_cons_left_iff.1 heval
    obtain ⟨_, _, hw, hnil, rfl⟩ := List.forall₂_cons_left_iff.1 hrest
    cases hnil
    cases hv
    cases hw
    exact hpaired v w rfl

theorem Opcode.InRange.of_values (h : opcode.InRange (vs.map .constant))
    (heval : List.Forall₂ (fun a v => a.eval memory = .ok v) as vs) : opcode.InRange as := by
  refine ⟨?_, ?_⟩
  · rintro hopcode a rfl
    obtain ⟨v, _, -, hrest, rfl⟩ := List.forall₂_cons_left_iff.1 heval
    obtain ⟨_, _, hw, hnil, rfl⟩ := List.forall₂_cons_left_iff.1 hrest
    cases hnil
    cases hw
    exact h.divisor hopcode _ rfl
  · rintro hopcode n rfl
    obtain ⟨_, _, hv, hnil, rfl⟩ := List.forall₂_cons_left_iff.1 heval
    cases hnil
    cases hv
    exact h.exitCode hopcode n rfl

end Values

theorem Expr.opcode_ne_exit (e : Expr) : e.opcode ≠ .exit := by
  cases e with
  | copy a | typeName a | setChar x index replacement => simp [Expr.opcode]
  | unary f a => exact f.opcode_ne_exit
  | binary f a b => exact f.opcode_ne_exit

namespace Machine

variable {memory : Memory} {m m' : Machine} {op : Operation Nat} {flow : Flow} {error : ExecError}

/-- An expression that has a value is computed from symbols without a defect. -/
theorem typed_of_eval {e : Expr} {r : Value} (h : e.eval memory = .ok r) :
    e.opcode.Typed e.symbols ∧ e.opcode.InRange e.symbols := by
  cases e with
  | copy a | typeName a => exact ⟨Opcode.typed_any rfl, Opcode.inRange_of_ne rfl⟩
  | unary f a =>
      obtain ⟨v, ha, hv⟩ := bind_eq_ok h
      have htyped : f.opcode.Typed [.constant v] := UnaryOp.typed_of_ne (by simp [hv])
      have heval : List.Forall₂ (fun a v => a.eval memory = .ok v) [a] [v] := .cons ha .nil
      exact ⟨htyped.of_values heval, f.inRange _⟩
  | binary f a b =>
      obtain ⟨v, ha, h⟩ := bind_eq_ok h
      obtain ⟨w, hb, hvalue⟩ := bind_eq_ok h
      obtain ⟨htyped, hrange⟩ := BinaryOp.typed_of_eval hvalue
      have heval : List.Forall₂ (fun a v => a.eval memory = .ok v) [a, b] [v, w] :=
        .cons ha (.cons hb .nil)
      exact ⟨htyped.of_values heval, hrange.of_values heval⟩
  | setChar x index replacement =>
      obtain ⟨target, -, h⟩ := bind_eq_ok h
      obtain ⟨v, hv, h⟩ := bind_eq_ok h
      obtain ⟨w, hw, hvalue⟩ := bind_eq_ok h
      have heval : List.Forall₂ (fun a v => a.eval memory = .ok v) [index, replacement] [v, w] :=
        .cons hv (.cons hw .nil)
      exact ⟨(typed_of_evalSetChar hvalue).of_values heval, Opcode.inRange_of_ne rfl⟩

/-- An operation that succeeds has symbols without a defect. -/
theorem Executes.typed (h : Executes m op flow m') :
    op.opcode.Typed op.symbols ∧ op.opcode.InRange op.symbols := by
  have hbranch : ∀ {equal taken : Bool} {a b : Symbol} {v w : Value},
      a.eval m.memory = .ok v → b.eval m.memory = .ok w → isTaken equal v w = .ok taken →
        (Operation.jumpIfOpcode equal).Typed [a, b] := by
    intro equal taken a b v w ha hb htaken
    have htyped : (Operation.jumpIfOpcode equal).Typed [.constant v, .constant w] := by
      by_contra hnot
      rw [isTaken_eq_error_iff.2 ⟨hnot, rfl⟩] at htaken
      cases htaken
    have heval : List.Forall₂ (fun a v => a.eval m.memory = .ok v) [a, b] [v, w] :=
      .cons ha (.cons hb .nil)
    exact htyped.of_values heval
  cases h with
  | assign hvalue _ => exact typed_of_eval hvalue
  | push | write | print => exact ⟨Opcode.typed_any rfl, Opcode.inRange_of_ne rfl⟩
  | jumpTaken ha hb htaken => exact ⟨hbranch ha hb htaken, inRange_jumpIf _ _⟩
  | jumpPassed ha hb hpassed => exact ⟨hbranch ha hb hpassed, inRange_jumpIf _ _⟩
  | @exit a v code hvalue hcode =>
      obtain ⟨htyped, hrange⟩ := typed_of_exitCode hcode
      have heval : List.Forall₂ (fun a v => a.eval m.memory = .ok v) [a] [v] := .cons hvalue .nil
      exact ⟨htyped.of_values heval, hrange.of_values heval⟩
  | _ => exact ⟨Opcode.typed_none rfl, Opcode.inRange_of_ne rfl⟩

/-- The error of an operation on constants tells what is wrong with them.  Where a
character is set, the text to change is a third value, and may be the one that is wrong. -/
theorem Fails.explained (h : Fails m op error m')
    (hconstant : ∀ a ∈ op.symbols, ∃ v, a = .constant v) (hsetChar : op.opcode ≠ .setChar) :
    op.opcode.Explains op.symbols error := by
  have hmem := h.kind_mem
  cases h with
  | @assignValue x e _ hvalue =>
      cases e with
      | copy a | typeName a =>
          obtain ⟨v, rfl⟩ := hconstant _ (List.mem_singleton_self _)
          cases hvalue
      | unary f a =>
          obtain ⟨v, rfl⟩ := hconstant _ (List.mem_singleton_self _)
          exact UnaryOp.explains hvalue
      | binary f a b =>
          obtain ⟨v, rfl⟩ := hconstant a List.mem_cons_self
          obtain ⟨w, rfl⟩ := hconstant b (List.mem_cons_of_mem _ List.mem_cons_self)
          exact BinaryOp.explains hvalue
      | setChar => exact absurd rfl hsetChar
  | @assignStore x e v _ hvalue hstore =>
      obtain ⟨htyped, hrange⟩ := typed_of_eval hvalue
      exact .of_kind htyped hrange (Memory.kind_of_write hstore) (by decide) (by decide)
        e.opcode_ne_exit
  -- a constant always has a value, so these failures are those of variables
  | push hvalue | writeValue hvalue | printValue hvalue | exitValue hvalue =>
      obtain ⟨v, rfl⟩ := hconstant _ (List.mem_singleton_self _)
      cases hvalue
  | writeOutput | printOutput =>
      exact .of_inRange (Opcode.typed_any rfl) (Opcode.inRange_of_ne rfl) (by simp [ExecError.kind])
        (by simp) (by simp [Operation.opcode])
  | jumpFirst hfirst =>
      obtain ⟨v, rfl⟩ := hconstant _ List.mem_cons_self
      cases hfirst
  | jumpSecond _ hsecond =>
      obtain ⟨v, rfl⟩ := hconstant _ (List.mem_cons_of_mem _ List.mem_cons_self)
      cases hsecond
  | @jumpCompare equal target a b v w _ hfirst hsecond hcompare =>
      obtain ⟨v', rfl⟩ := hconstant a List.mem_cons_self
      obtain ⟨w', rfl⟩ := hconstant b (List.mem_cons_of_mem _ List.mem_cons_self)
      cases hfirst
      cases hsecond
      obtain ⟨hnot, rfl⟩ := isTaken_eq_error_iff.1 hcompare
      exact .of_not_typed hnot rfl
  | @exitCode a v _ hvalue hcode =>
      obtain ⟨v', rfl⟩ := hconstant _ (List.mem_singleton_self _)
      cases hvalue
      exact explains_of_exitCode hcode
  -- all others have no symbols, and none of their errors is about a type or a value
  | _ =>
      refine .of_kind (Opcode.typed_none rfl) (Opcode.inRange_of_ne rfl) hmem ?_ ?_ ?_ <;>
        simp [Operation.opcode, Opcode.runtimeErrors, slotErrors, valueErrors]

end Machine

/-! ## Both judgements -/

namespace Instruction

variable {i : Instruction} {m : Machine} {r : EStateM.Result ExecError Machine Flow}

/-- All symbols of the instruction are constants. -/
def AllConstant (i : Instruction) : Prop :=
  ∀ (k : Nat) (allowed : List ValueType), i.opcode.signature[k]? = some (.symbol allowed) →
    ∃ l, i.operands[k]? = some (.constant l)

/-- What an instruction can come to on a machine: linked with some labels, or as it stands,
with any labels and any source that has the values of its constants. -/
inductive Outcome (i : Instruction) (m : Machine) : EStateM.Result ExecError Machine Flow → Prop
  | linked {labels : Table Nat} {op : Operation Nat} (h : i.link labels = .ok op) :
      Outcome i m (Machine.execute op m)
  | direct {source : ConstantSource} {labels : Table Nat} (h : source.Agrees m.position i) :
      Outcome i m (Direct.execute source labels i m)

theorem constant_of_symbolsAt {slots : List Slot} {operands : List Operand} {as : List Symbol}
    (h : SymbolsAt slots operands as)
    (hall : ∀ (k : Nat) (allowed : List ValueType), slots[k]? = some (.symbol allowed) →
      ∃ l, operands[k]? = some (.constant l)) :
    ∀ a ∈ as, ∃ v, a = .constant v := by
  induction h with
  | nil => simp
  | other _ _ ih => exact ih fun k allowed hk => hall (k + 1) allowed hk
  | symbol ho _ ih =>
      intro a ha
      rcases List.mem_cons.1 ha with rfl | ha
      · obtain ⟨l, hl⟩ := hall 0 _ rfl
        cases hl
        obtain ⟨v, -, rfl⟩ := Option.map_eq_some_iff.1 ho
        exact ⟨v, rfl⟩
      · exact ih (fun k allowed hk => hall (k + 1) allowed hk) a ha

/-- Labels can be added to others until an instruction can be linked. -/
theorem exists_link_extending (hfits : i.Fits) (hconverts : i.Converts) (labels : Table Nat) :
    ∃ more op, i.link more = .ok op ∧
      ∀ name t, labels.find? name = some t → more.find? name = some t := by
  by_cases hmissing : ∃ name, i.Targets name ∧ labels.find? name = none
  · obtain ⟨name, hname, hnone⟩ := hmissing
    have hfound : ∀ other, i.Targets other → ∃ p, (labels.insert name 0).find? other = some p := by
      intro other hother
      rw [hother.eq hname, Table.find?_insert]
      exact ⟨0, if_pos rfl⟩
    obtain ⟨op, hop⟩ := exists_link hfits hconverts hfound
    refine ⟨_, op, hop, ?_⟩
    intro other t ht
    rw [Table.find?_insert]
    split
    · rename_i heq
      rw [heq, hnone] at ht
      cases ht
    · exact ht
  · push Not at hmissing
    obtain ⟨op, hop⟩ := exists_link hfits hconverts fun name hname =>
      Option.ne_none_iff_exists'.1 (hmissing name hname)
    exact ⟨labels, op, hop, fun _ _ h => h⟩

/-- Outcomes are those of a linked operation, but for an instruction that stops where its
operation jumps, for want of the label. -/
theorem Outcome.exists_link (h : i.Outcome m r) (hfits : i.Fits) (hconverts : i.Converts) :
    ∃ labels op, i.link labels = .ok op ∧
      (r = Machine.execute op m ∨
        (i.opcode.targetsLabel = true ∧ (∃ name, r = .error (.undefinedLabels [name]) m) ∧
          ∃ t m', Machine.execute op m = .ok (.jump t) m')) := by
  cases h with
  | @linked labels op hlink => exact ⟨labels, op, hlink, .inl rfl⟩
  | @direct source labels hsource =>
      obtain ⟨more, op, hlink, hmore⟩ := exists_link_extending hfits hconverts labels
      refine ⟨more, op, hlink, ?_⟩
      rw [← Direct.execute_of_link hsource hlink]
      exact Direct.execute_extend hmore

section Linked

variable {labels : Table Nat} {op : Operation Nat} {m' : Machine} {flow : Flow} {e e' : ExecError}

/-- What has been executed has no defect in its constants. -/
theorem constantDefect?_of_executes (hlink : i.link labels = .ok op)
    (h : Machine.Executes m op flow m') : i.constantDefect? = none := by
  obtain ⟨htyped, hrange⟩ := h.typed
  rw [opcode_of_link hlink] at htyped hrange
  rcases constantDefect?_of_symbols (symbolsAt_of_link hlink) with
    ⟨hnot, -⟩ | ⟨-, hnot, -⟩ | ⟨-, -, hnone⟩
  · exact absurd htyped hnot
  · exact absurd hrange hnot
  · exact hnone

/-- The error of an instruction with nothing but constants tells of them. -/
theorem explains_of_fails (hlink : i.link labels = .ok op) (hall : i.AllConstant)
    (hsetChar : i.opcode ≠ .setChar) (h : Machine.Fails m op e m') :
    i.opcode.Explains op.symbols e := by
  rw [← opcode_of_link hlink] at hsetChar ⊢
  exact h.explained (constant_of_symbolsAt (symbolsAt_of_link hlink) hall) hsetChar

/-- The defect that was found before tells the exit code of the failure. -/
theorem code_of_constantDefect? (hlink : i.link labels = .ok op)
    (hdefect : i.constantDefect? = some e) (h : i.opcode.Explains op.symbols e') :
    e'.code = e.code := by
  have hkind : e'.kind = e.kind := by
    rcases constantDefect?_of_symbols (symbolsAt_of_link hlink) with
      ⟨hnot, found, hfound, hkind⟩ | ⟨htyped, hnot, found, hfound, hkind⟩ | ⟨-, -, hnone⟩
    · cases hdefect.symm.trans hfound
      exact (h.type hnot).trans hkind.symm
    · cases hdefect.symm.trans hfound
      exact (h.range htyped hnot).trans hkind.symm
    · cases hdefect.symm.trans hnone
  exact congrArg ErrorKind.code hkind

theorem clean_of_constantDefect? (hlink : i.link labels = .ok op) (hnone : i.constantDefect? = none)
    (h : i.opcode.Explains op.symbols e') :
    e'.kind ≠ .operandType ∧ e' ≠ .operandValue .divisionByZero ∧ i.opcode ≠ .exit := by
  rcases constantDefect?_of_symbols (symbolsAt_of_link hlink) with
    ⟨-, found, hfound, -⟩ | ⟨-, -, found, hfound, -⟩ | ⟨htyped, hrange, -⟩
  · cases hnone.symm.trans hfound
  · cases hnone.symm.trans hfound
  · exact h.clean htyped hrange

theorem flow_of_exit (h : Machine.Executes m op flow m') (hexit : op.opcode = .exit) :
    ∃ code, flow = .exit code := by
  cases h with
  | exit => exact ⟨_, rfl⟩
  | @assign x e => exact absurd hexit e.opcode_ne_exit
  | @jumpTaken equal | @jumpPassed equal => cases equal <;> cases hexit
  | _ => cases hexit

end Linked

/-- The check of constants and the execution agree.  Of an instruction whose operands are of
the right kinds and whose constants have values:

* if the constants have a defect, then the instruction fails on every machine;
* if moreover all its symbols are constants, and it does not set a character, then it fails
  with the exit code of the defect; and if there is no defect, then it does not fail for a
  type, a division not by zero, and an exit not at all. -/
theorem constant_checks_agree (hshape : i.shapeDefect? = none) (hconverts : i.Converts)
    (h : i.Outcome m r) :
    (∀ e, i.constantDefect? = some e → ∃ e' m', r = .error e' m') ∧
    (i.AllConstant → i.opcode ≠ .setChar →
      (∀ e, i.constantDefect? = some e → ∃ e' m', r = .error e' m' ∧ e'.code = e.code) ∧
      (i.constantDefect? = none →
        (∀ e' m', r = .error e' m' →
          e'.kind ≠ .operandType ∧ (i.opcode = .idiv → e' ≠ .operandValue .divisionByZero)) ∧
        (i.opcode = .exit → ∃ code m', r = .ok (.exit code) m'))) := by
  have hfits := shapeDefect?_eq_none_iff.1 hshape
  obtain ⟨labels, op, hlink, hr | ⟨htargets, ⟨name, hr⟩, t, m', hjump⟩⟩ :=
    h.exists_link hfits hconverts
  · cases hexecute : Machine.execute op m with
    | ok flow m' =>
        rw [hexecute] at hr
        have hexec := Machine.execute_eq_ok_iff.1 hexecute
        have hnone := constantDefect?_of_executes hlink hexec
        refine ⟨by simp [hnone], fun _ _ => ⟨by simp [hnone], fun _ => ⟨by simp [hr], ?_⟩⟩⟩
        intro hexit
        obtain ⟨code, rfl⟩ := flow_of_exit hexec ((opcode_of_link hlink).trans hexit)
        exact ⟨code, m', hr⟩
    | error e' m' =>
        rw [hexecute] at hr
        have hfails := Machine.execute_eq_error_iff.1 hexecute
        refine ⟨fun _ _ => ⟨e', m', hr⟩, fun hall hsetChar => ?_⟩
        have hexplains := explains_of_fails hlink hall hsetChar hfails
        refine ⟨fun e hdefect => ⟨e', m', hr, code_of_constantDefect? hlink hdefect hexplains⟩, ?_⟩
        intro hnone
        obtain ⟨htype, hzero, hexit⟩ := clean_of_constantDefect? hlink hnone hexplains
        refine ⟨?_, fun h => absurd h hexit⟩
        intro found after hfound
        obtain ⟨rfl, -⟩ := EStateM.Result.error.inj (hr.symm.trans hfound)
        exact ⟨htype, fun _ => hzero⟩
  · -- the instruction stopped at its label, so its operation succeeds and there is no defect
    have hnone := constantDefect?_of_executes hlink (Machine.execute_eq_ok_iff.1 hjump)
    refine ⟨by simp [hnone], fun _ _ => ⟨by simp [hnone], fun _ => ⟨?_, ?_⟩⟩⟩
    · intro found after hfound
      obtain ⟨rfl, -⟩ := EStateM.Result.error.inj (hr.symm.trans hfound)
      exact ⟨by simp [ExecError.kind], by simp⟩
    · intro hexit
      rw [hexit] at htargets
      cases htargets

/-- Divides a text by zero. -/
def textByZero : Instruction :=
  ⟨.idiv, [.variable ⟨.global, "x"⟩, .constant ⟨.string, "a"⟩, .constant ⟨.int, "0"⟩]⟩

/-- Two things are wrong with the operands; both judgements put the type first. -/
theorem constant_checks_agree_textByZero :
    ∃ e, textByZero.constantDefect? = some e ∧ e.code = 53 ∧
      ∀ m r, textByZero.Outcome m r → ∃ e' m', r = .error e' m' ∧ e'.code = 53 := by
  have hdefect : textByZero.constantDefect? = some (.operandType .idiv [.string]) := by
    decide +kernel
  have hconverts : textByZero.Converts := by
    intro l hl
    have hmem : l ∈ [⟨.string, "a"⟩, ⟨.int, "0"⟩] := by simpa [textByZero] using hl
    rcases List.mem_pair.1 hmem with rfl | rfl
    · exact ⟨_, rfl⟩
    · exact ⟨.int 0, by decide +kernel⟩
  have hall : textByZero.AllConstant := by
    intro k allowed hk
    match k with
    | 0 => cases hk
    | 1 => exact ⟨_, rfl⟩
    | 2 => exact ⟨_, rfl⟩
    | k + 3 => cases hk
  refine ⟨_, hdefect, rfl, ?_⟩
  intro m r h
  exact ((constant_checks_agree rfl hconverts h).2 hall (by decide)).1 _ hdefect

end Instruction

end IppCode
