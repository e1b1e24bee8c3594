import IppCode.Opcode
import IppCode.Value
import IppCode.Variable

/-!
# Instructions

An instruction is an opcode with operands.  Nothing is required of the operands
here: whether they suit the opcode is the matter of the static check.
-/

namespace IppCode

/-- An operand of an instruction. -/
inductive Operand where
  | variable (x : Variable)
  | constant (l : Literal)
  | label (name : String)
  | type (t : ValueType)
  deriving DecidableEq

namespace Operand

/-- The written form of an operand. -/
def render : Operand → String
  | .variable x => x.render
  | .constant l => l.render
  | .label name => name
  | .type t => t.name

/-- The value of a constant that has one. -/
def value? : Operand → Option Value
  | .constant l => l.value?
  | _ => none

end Operand

/-- An opcode with operands. -/
structure Instruction where
  opcode : Opcode
  operands : List Operand
  deriving DecidableEq

/-- The instruction on one line. -/
def Instruction.render (i : Instruction) : String :=
  " ".intercalate (i.opcode.mnemonic :: i.operands.map Operand.render)

end IppCode
