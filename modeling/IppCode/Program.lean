import IppCode.Check
import IppCode.Operation

/-!
# Programs

A program is a list of instructions that passed the check, each beside the
operation it stands for, with constants converted and labels replaced by
positions.  A table beside the instructions holds the values of their constants.
-/

namespace IppCode

/-- An instruction and its operation. -/
structure Line where
  instruction : Instruction
  operation : Operation Nat
  deriving DecidableEq

/-- A program ready to run. -/
structure Program where
  lines : Array Line
  labels : Table Nat
  /-- One row for each line: the values of the constant operands, `none` for the others. -/
  constants : Array (List (Option Value))
  deriving DecidableEq

/-- The values of the constants among operands, `none` for every other operand.  The
first constant without a value is an error. -/
def Operand.values : List Operand → Except ExecError (List (Option Value))
  | [] => .ok []
  | .constant l :: rest =>
    match l.value? with
    | none => .error (.malformed (.literal l))
    | some v => (values rest).map (some v :: ·)
  | _ :: rest => (values rest).map (none :: ·)

/-- The operation of an instruction among labels at known positions. -/
def Instruction.link (labels : Table Nat) (i : Instruction) : Except ExecError (Operation Nat) :=
  match i.operation? with
  | none => .error (.malformed (.operandCount i.opcode i.operands.length))
  | some operation =>
    match operation.resolve? labels.find? with
    | none => .error (.undefinedLabels i.targetLabel?.toList)
    | some operation => .ok operation

namespace Program

/-- The rows of constants of instructions from a position on. -/
def constantsFrom (position : Nat) :
    List Instruction → Except Fault (List (List (Option Value)))
  | [] => .ok []
  | i :: rest =>
    match Operand.values i.operands with
    | .error e => .error ⟨e, some (position, i.opcode)⟩
    | .ok row => (constantsFrom (position + 1) rest).map (row :: ·)

/-- The lines of instructions from a position on. -/
def linesFrom (labels : Table Nat) (position : Nat) :
    List Instruction → Except Fault (List Line)
  | [] => .ok []
  | i :: rest =>
    match i.link labels with
    | .error e => .error ⟨e, some (position, i.opcode)⟩
    | .ok operation =>
      (linesFrom labels (position + 1) rest).map fun lines => ⟨i, operation⟩ :: lines

/-- The program of instructions that pass the check. -/
def ofInstructions (is : List Instruction) : Except Fault Program :=
  match check is with
  | .error fault => .error fault
  | .ok labels =>
    match constantsFrom 0 is with
    | .error fault => .error fault
    | .ok constants =>
      (linesFrom labels 0 is).map fun lines => ⟨lines.toArray, labels, constants.toArray⟩

/-- The instructions of a program. -/
def instructions (p : Program) : List Instruction :=
  p.lines.toList.map Line.instruction

/-- The value of a constant operand, by the position of its instruction and its index
among the operands, both counted from zero. -/
def constant? (p : Program) (position operand : Nat) : Option Value :=
  p.constants[position]?.bind fun row => row[operand]?.join

end Program

end IppCode
