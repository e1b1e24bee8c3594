import IppCode.Fault
import IppCode.Table

/-!
# The static check

Before a program runs, each of its instructions is checked on its own: first its
shape, that is the number and the kinds of its operands, then its constants.  The
labels are collected on the way, each may be declared once, and in the end all
labels that are continued at have to be declared.

The first instruction with a defect decides, and a shape comes before constants.
-/

namespace IppCode

/-! ## Shape -/

/-- Whether an operand is what a slot asks for, its value apart. -/
def Slot.admits : Slot → Operand → Bool
  | .var, .variable _ => true
  | .symbol _, .variable _ => true
  | .symbol _, .constant _ => true
  | .label, .label _ => true
  | .type, .type _ => true
  | _, _ => false

namespace Instruction

/-- The first operand from an index on that its slot does not admit. -/
def kindDefect? (opcode : Opcode) (index : Nat) : List Slot → List Operand → Option ExecError
  | slot :: slots, operand :: operands =>
    if slot.admits operand then kindDefect? opcode (index + 1) slots operands
    else some (.malformed (.operandKind opcode index operand))
  | _, _ => none

/-- What is wrong with the number or the kinds of the operands. -/
def shapeDefect? (i : Instruction) : Option ExecError :=
  if i.operands.length = i.opcode.signature.length then
    kindDefect? i.opcode 0 i.opcode.signature i.operands
  else
    some (.malformed (.operandCount i.opcode i.operands.length))

end Instruction

/-! ## Constants -/

/-- Whether values of two types go together. -/
def Pairing.admits (pairing : Pairing) (v w : Value) : Bool :=
  match pairing with
  | .independent => true
  | .sameType => v.type = w.type
  | .sameTypeOrNil => (v.equals? w).isSome

namespace Instruction

/-- The values of the symbols, `none` standing for a variable.  The first constant
that has no value, or a value of a type its slot does not allow, is an error. -/
def symbolValues (opcode : Opcode) :
    List Slot → List Operand → Except ExecError (List (Option Value))
  | .symbol allowed :: slots, .constant l :: operands =>
    match l.value? with
    | none => .error (.malformed (.literal l))
    | some v =>
      if v.type ∈ allowed then (symbolValues opcode slots operands).map (some v :: ·)
      else .error (.operandType opcode [v.type])
  | .symbol _ :: slots, _ :: operands => (symbolValues opcode slots operands).map (none :: ·)
  | _ :: slots, _ :: operands => symbolValues opcode slots operands
  | _, _ => .ok []

/-- Two constants whose types do not go together. -/
def pairingDefect? (opcode : Opcode) : List (Option Value) → Option ExecError
  | [some v, some w] =>
    if opcode.pairing.admits v w then none else some (.operandType opcode [v.type, w.type])
  | _ => none

/-- A constant divisor that is zero, or a constant exit code out of range. -/
def valueDefect? (opcode : Opcode) (values : List (Option Value)) : Option ExecError :=
  match opcode, values with
  | .idiv, [_, some (.int n)] => if n = 0 then some (.operandValue .divisionByZero) else none
  | .exit, [some (.int n)] =>
    if 0 ≤ n.toInt ∧ n.toInt ≤ 49 then none else some (.operandValue (.exitCode n.toInt))
  | _, _ => none

/-- What is wrong with the constants of an instruction whose shape is right. -/
def constantDefect? (i : Instruction) : Option ExecError :=
  match symbolValues i.opcode i.opcode.signature i.operands with
  | .error e => some e
  | .ok values =>
    match pairingDefect? i.opcode values with
    | some e => some e
    | none => valueDefect? i.opcode values

/-- What is wrong with an instruction on its own. -/
def defect? (i : Instruction) : Option ExecError :=
  match i.shapeDefect? with
  | some e => some e
  | none => i.constantDefect?

/-! ## Labels -/

/-- The label that an instruction declares. -/
def declaredLabel? (i : Instruction) : Option String :=
  match i.opcode, i.operands with
  | .label, .label name :: _ => some name
  | _, _ => none

/-- The label that an instruction may continue at. -/
def targetLabel? (i : Instruction) : Option String :=
  match i.operands with
  | .label name :: _ => if i.opcode.targetsLabel then some name else none
  | _ => none

end Instruction

/-- The labels declared from a position on, added to those declared before it. -/
def collectLabels (position : Nat) (labels : Table Nat) :
    List Instruction → Except Fault (Table Nat)
  | [] => .ok labels
  | i :: rest =>
    match i.defect? with
    | some e => .error ⟨e, some (position, i.opcode)⟩
    | none =>
      match i.declaredLabel? with
      | none => collectLabels (position + 1) labels rest
      | some name =>
        match labels.find? name with
        | some first => .error ⟨.duplicateLabel name first, some (position, i.opcode)⟩
        | none => collectLabels (position + 1) (labels.insert name position) rest

/-- The names of a list, each once, in the order in which they first occur. -/
def distinct : List String → List String
  | [] => []
  | name :: rest => name :: (distinct rest).filter (· != name)

/-- The labels that instructions may continue at, each once, in the order in which
they are first named. -/
def targetLabels (is : List Instruction) : List String :=
  distinct (is.filterMap Instruction.targetLabel?)

/-- Checks a program and gives the positions of its labels. -/
def check (is : List Instruction) : Except Fault (Table Nat) :=
  match collectLabels 0 ∅ is with
  | .error fault => .error fault
  | .ok labels =>
    match (targetLabels is).filter fun name => !labels.contains name with
    | [] => .ok labels
    | names => .error ⟨.undefinedLabels names, none⟩

end IppCode
