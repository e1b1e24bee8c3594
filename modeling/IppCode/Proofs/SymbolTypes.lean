import IppCode.Proofs.Linking

/-!
# The symbols of instructions and their types

The check and the operators judge the same operands, the symbols, and each sees them in its
own way: the check goes through the operands beside the slots of the signature, an operation
has them sorted out.  `SymbolsAt` ties the two together.

`Opcode.Typed` and `Opcode.InRange` say of symbols, some of them constants, what the check
asks for, and `constantDefect?_of_symbols` says that it asks for exactly that.
-/

namespace IppCode

/-! ## Symbols -/

/-- The symbols that an expression is computed from. -/
def Expr.symbols : Expr → List Symbol
  | .copy a => [a]
  | .typeName a => [a]
  | .unary _ a => [a]
  | .binary _ a b => [a, b]
  | .setChar _ index replacement => [index, replacement]

/-- The symbols of an operation. -/
def Operation.symbols {τ : Type} : Operation τ → List Symbol
  | .assign _ e => e.symbols
  | .push a => [a]
  | .write a => [a]
  | .jumpIf _ _ a b => [a, b]
  | .exit a => [a]
  | .print a => [a]
  | _ => []

theorem Operation.symbols_of_resolve? {τ σ : Type} {place? : τ → Option σ} {op : Operation τ}
    {linked : Operation σ} (h : op.resolve? place? = some linked) :
    linked.symbols = op.symbols := by
  cases op with
  | call target | jump target | jumpIf _ target _ _ =>
      obtain ⟨place, -, rfl⟩ := Option.map_eq_some_iff.1 h
      rfl
  | _ =>
      cases h
      rfl

/-- The types that a slot allows, if it takes symbols. -/
def Slot.types? : Slot → Option (List ValueType)
  | .symbol allowed => some allowed
  | _ => none

/-- The symbols among operands, where the slots ask for some. -/
inductive SymbolsAt : List Slot → List Operand → List Symbol → Prop
  | nil : SymbolsAt [] [] []
  | symbol {allowed : List ValueType} {slots : List Slot} {o : Operand} {operands : List Operand}
      {a : Symbol} {as : List Symbol} (ho : o.symbol? = some a)
      (hrest : SymbolsAt slots operands as) :
      SymbolsAt (.symbol allowed :: slots) (o :: operands) (a :: as)
  | other {slot : Slot} {slots : List Slot} {o : Operand} {operands : List Operand}
      {as : List Symbol} (hslot : slot.types? = none) (hrest : SymbolsAt slots operands as) :
      SymbolsAt (slot :: slots) (o :: operands) as

namespace Instruction

variable {i : Instruction} {labels : Table Nat} {op : Operation Nat}

theorem symbolsAt_of_operation? {made : Operation String} (h : i.operation? = some made) :
    SymbolsAt i.opcode.signature i.operands made.symbols := by
  obtain ⟨opcode, operands⟩ := i
  cases opcode with
  | createFrame | pushFrame | popFrame | «return» | «break» =>
      obtain ⟨rfl, rfl⟩ := Operation.plain_eq_some_iff.1 h
      exact .nil
  | defVar | pops =>
      obtain ⟨x, rfl, rfl⟩ := Operation.onVariable_eq_some_iff.1 h
      exact .other rfl .nil
  | call | label | jump =>
      obtain ⟨name, rfl, rfl⟩ := Operation.onLabel_eq_some_iff.1 h
      exact .other rfl .nil
  | pushs | write | exit | dprint =>
      obtain ⟨o, a, rfl, ho, rfl⟩ := Operation.onSymbol_eq_some_iff.1 h
      exact .symbol ho .nil
  | move | type | not | int2Char | strlen =>
      obtain ⟨x, o, a, rfl, ho, rfl⟩ := Operation.assign₁_eq_some_iff.1 h
      exact .other rfl (.symbol ho .nil)
  | add | sub | mul | idiv | lt | gt | eq | and | or | stri2Int | concat | getChar | setChar =>
      obtain ⟨x, o, o', a, b, rfl, ho, ho', rfl⟩ := Operation.assign₂_eq_some_iff.1 h
      exact .other rfl (.symbol ho (.symbol ho' .nil))
  | read =>
      obtain ⟨x, t, rfl, rfl⟩ := Operation.reading_eq_some_iff.1 h
      exact .other rfl (.other rfl .nil)
  | jumpIfEq | jumpIfNeq =>
      obtain ⟨name, o, o', a, b, rfl, ho, ho', rfl⟩ := Operation.branch_eq_some_iff.1 h
      exact .other rfl (.symbol ho (.symbol ho' .nil))

/-- A linked operation has the symbols of its instruction. -/
theorem symbolsAt_of_link (h : i.link labels = .ok op) :
    SymbolsAt i.opcode.signature i.operands op.symbols := by
  obtain ⟨made, hmade, hresolve⟩ := link_eq_ok_iff.1 h
  rw [Operation.symbols_of_resolve? hresolve]
  exact symbolsAt_of_operation? hmade

end Instruction

/-! ## What opcodes ask of symbols -/

/-- The types that an opcode allows for its symbols. -/
def Opcode.symbolTypes (opcode : Opcode) : List (List ValueType) :=
  opcode.signature.filterMap Slot.types?

/-- The value of a symbol that is a constant. -/
def Symbol.value? : Symbol → Option Value
  | .constant v => some v
  | .variable _ => none

theorem Symbol.value?_eq_some_iff {a : Symbol} {v : Value} :
    a.value? = some v ↔ a = .constant v := by
  cases a <;> simp [Symbol.value?]

/-- A constant is of one of the types.  Nothing is known of variables. -/
def Symbol.Within (types : List ValueType) (a : Symbol) : Prop :=
  ∀ v, a = .constant v → v.type ∈ types

/-- The constants among symbols are of the types that an opcode allows, and go together. -/
structure Opcode.Typed (opcode : Opcode) (as : List Symbol) : Prop where
  within : List.Forall₂ Symbol.Within opcode.symbolTypes as
  paired : ∀ v w, as = [.constant v, .constant w] → opcode.pairing.Permits v.type w.type

/-- A constant divisor is not zero, and a constant exit code is one. -/
structure Opcode.InRange (opcode : Opcode) (as : List Symbol) : Prop where
  divisor : opcode = .idiv → ∀ a, as ≠ [a, .constant (.int 0)]
  exitCode : opcode = .exit → ∀ n, as = [.constant (.int n)] → 0 ≤ n.toInt ∧ n.toInt ≤ 49

/-! ## The check -/

section Check

variable {opcode : Opcode} {slots : List Slot} {operands : List Operand} {as : List Symbol}

/-- The constants that the check finds are those among the symbols, and it stops at one
that is not of an allowed type. -/
theorem symbolValues_of_symbols (opcode : Opcode) (h : SymbolsAt slots operands as) :
    (List.Forall₂ Symbol.Within (slots.filterMap Slot.types?) as ∧
        Instruction.symbolValues opcode slots operands = .ok (as.map Symbol.value?)) ∨
      (¬ List.Forall₂ Symbol.Within (slots.filterMap Slot.types?) as ∧
        ∃ t, Instruction.symbolValues opcode slots operands =
          .error (.operandType opcode [t])) := by
  induction h with
  | nil => exact .inl ⟨.nil, rfl⟩
  | @other slot slots o operands as hslot hrest ih =>
      have hskip : Instruction.symbolValues opcode (slot :: slots) (o :: operands) =
          Instruction.symbolValues opcode slots operands := by
        cases slot with
        | symbol allowed => cases hslot
        | var | label | type => rfl
      rw [List.filterMap_cons_none hslot, hskip]
      exact ih
  | @symbol allowed slots o operands a as ho hrest ih =>
      rw [List.filterMap_cons_some (show Slot.types? (.symbol allowed) = some allowed from rfl)]
      simp only [List.forall₂_cons]
      -- a constant of a wrong type stops the check, all else is left to the symbols that follow
      by_cases hwithin : a.Within allowed
      · have hcons : Instruction.symbolValues opcode (.symbol allowed :: slots) (o :: operands) =
            (Instruction.symbolValues opcode slots operands).map (a.value? :: ·) := by
          cases o with
          | «variable» x =>
              cases ho
              rfl
          | constant l =>
              obtain ⟨v, hvalue, rfl⟩ := Option.map_eq_some_iff.1 ho
              simp [Instruction.symbolValues, hvalue, hwithin v rfl, Symbol.value?]
          | label name | type t => cases ho
        rw [hcons]
        rcases ih with ⟨hall, hvalues⟩ | ⟨hnot, t, herror⟩
        · exact .inl ⟨⟨hwithin, hall⟩, by rw [hvalues]; rfl⟩
        · exact .inr ⟨fun hall => hnot hall.2, t, by rw [herror]; rfl⟩
      · refine .inr ⟨fun hall => hwithin hall.1, ?_⟩
        obtain ⟨v, hv⟩ := not_forall.1 hwithin
        obtain ⟨rfl, hmem⟩ := Classical.not_imp.1 hv
        cases o with
        | «variable» x | label name | type t => cases ho
        | constant l =>
            obtain ⟨_, hvalue, hconstant⟩ := Option.map_eq_some_iff.1 ho
            cases hconstant
            exact ⟨v.type, by simp [Instruction.symbolValues, hvalue, hmem]⟩

theorem map_value?_eq_pair {v w : Value} :
    as.map Symbol.value? = [some v, some w] ↔ as = [.constant v, .constant w] := by
  simp only [List.map_eq_cons_iff, List.map_eq_nil_iff, Symbol.value?_eq_some_iff]
  constructor
  · rintro ⟨a, _, rfl, rfl, b, _, rfl, rfl, rfl⟩
    rfl
  · rintro rfl
    exact ⟨_, _, rfl, rfl, _, _, rfl, rfl, rfl⟩

theorem valueDefect?_eq_none_iff :
    Instruction.valueDefect? opcode (as.map Symbol.value?) = none ↔ opcode.InRange as := by
  rw [Option.eq_none_iff_forall_ne_some]
  constructor
  · intro h
    refine ⟨?_, ?_⟩
    · rintro rfl a rfl
      exact h _ (Instruction.valueDefect?_eq_some_iff.2 (.inl ⟨rfl, a.value?, rfl, rfl⟩))
    · rintro rfl n rfl
      by_contra hrange
      exact h _ (Instruction.valueDefect?_eq_some_iff.2 (.inr ⟨rfl, n, rfl, hrange, rfl⟩))
  · intro h e he
    rcases Instruction.valueDefect?_eq_some_iff.1 he with ⟨rfl, c, hvalues, -⟩ |
      ⟨rfl, n, hvalues, hrange, -⟩
    · obtain ⟨a, _, rfl, rfl, hrest⟩ := List.map_eq_cons_iff.1 hvalues
      obtain ⟨b, _, rfl, hb, hnil⟩ := List.map_eq_cons_iff.1 hrest
      rw [List.map_eq_nil_iff.1 hnil, Symbol.value?_eq_some_iff.1 hb] at h
      exact h.divisor rfl a rfl
    · obtain ⟨a, _, rfl, ha, hnil⟩ := List.map_eq_cons_iff.1 hvalues
      rw [List.map_eq_nil_iff.1 hnil, Symbol.value?_eq_some_iff.1 ha] at h
      exact hrange (h.exitCode rfl n rfl)

theorem pairingDefect?_eq_none_iff :
    Instruction.pairingDefect? opcode (as.map Symbol.value?) = none ↔
      ∀ v w, as = [.constant v, .constant w] → opcode.pairing.Permits v.type w.type := by
  rw [Option.eq_none_iff_forall_ne_some]
  constructor
  · rintro h v w rfl
    by_contra hpair
    exact h _ (Instruction.pairingDefect?_eq_some_iff.2 ⟨v, w, rfl, hpair, rfl⟩)
  · intro h e he
    obtain ⟨v, w, hvalues, hpair, -⟩ := Instruction.pairingDefect?_eq_some_iff.1 he
    exact hpair (h v w (map_value?_eq_pair.1 hvalues))

end Check

/-- What the check of the constants comes to: a wrong type is found first, then a value out
of range, and nothing else. -/
theorem Instruction.constantDefect?_of_symbols {i : Instruction} {as : List Symbol}
    (h : SymbolsAt i.opcode.signature i.operands as) :
    (¬ i.opcode.Typed as ∧ ∃ e, i.constantDefect? = some e ∧ e.kind = .operandType) ∨
    (i.opcode.Typed as ∧ ¬ i.opcode.InRange as ∧
      ∃ e, i.constantDefect? = some e ∧ e.kind = .operandValue) ∨
    (i.opcode.Typed as ∧ i.opcode.InRange as ∧ i.constantDefect? = none) := by
  rcases symbolValues_of_symbols i.opcode h with ⟨hwithin, hvalues⟩ | ⟨hnot, t, herror⟩
  · cases hpairing : pairingDefect? i.opcode (as.map Symbol.value?) with
    | some e =>
        obtain ⟨v, w, -, -, rfl⟩ := pairingDefect?_eq_some_iff.1 hpairing
        refine .inl ⟨fun htyped => ?_, _,
          (constantDefect?_eq_some_of_ok hvalues).2 (.inl hpairing), rfl⟩
        rw [pairingDefect?_eq_none_iff.2 htyped.paired] at hpairing
        cases hpairing
    | none =>
        have htyped : i.opcode.Typed as := ⟨hwithin, pairingDefect?_eq_none_iff.1 hpairing⟩
        cases hvalue : valueDefect? i.opcode (as.map Symbol.value?) with
        | some e =>
            refine .inr (.inl ⟨htyped, fun hrange => ?_, e,
              (constantDefect?_eq_some_of_ok hvalues).2 (.inr ⟨hpairing, hvalue⟩), ?_⟩)
            · rw [valueDefect?_eq_none_iff.2 hrange] at hvalue
              cases hvalue
            · rcases valueDefect?_eq_some_iff.1 hvalue with
                ⟨-, c, -, rfl⟩ | ⟨-, n, -, -, rfl⟩ <;> rfl
        | none =>
            refine .inr (.inr ⟨htyped, valueDefect?_eq_none_iff.1 hvalue, ?_⟩)
            simp only [constantDefect?, hvalues, hpairing, hvalue]
  · exact .inl ⟨fun htyped => hnot htyped.within, _, constantDefect?_of_error herror, rfl⟩

end IppCode
