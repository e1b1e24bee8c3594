import IppCode.Text.Ascii
import IppCode.ValueType

/-!
# Opcodes

The instruction set: for each opcode its mnemonic, the operands it takes, and how
the types of its operands go together.
-/

namespace IppCode

/-- What an operand has to be. -/
inductive Slot where
  /-- A variable that is declared, written or read in place. -/
  | var
  /-- A variable, or a constant of one of the given types. -/
  | symbol (allowed : List ValueType)
  | label
  | type
  deriving DecidableEq

/-- How the types of two operands go together. -/
inductive Pairing where
  | independent
  | sameType
  /-- One type, or one of them is nil. -/
  | sameTypeOrNil
  deriving DecidableEq

/-- The operations of the language. -/
inductive Opcode where
  | move
  | createFrame
  | pushFrame
  | popFrame
  | defVar
  | call
  | return
  | pushs
  | pops
  | add
  | sub
  | mul
  | idiv
  | lt
  | gt
  | eq
  | and
  | or
  | not
  | int2Char
  | stri2Int
  | read
  | write
  | concat
  | strlen
  | getChar
  | setChar
  | type
  | label
  | jump
  | jumpIfEq
  | jumpIfNeq
  | exit
  | dprint
  | break
  deriving DecidableEq

namespace Opcode

/-- The name an opcode is written with. -/
def mnemonic : Opcode → String
  | .move => "MOVE"
  | .createFrame => "CREATEFRAME"
  | .pushFrame => "PUSHFRAME"
  | .popFrame => "POPFRAME"
  | .defVar => "DEFVAR"
  | .call => "CALL"
  | .return => "RETURN"
  | .pushs => "PUSHS"
  | .pops => "POPS"
  | .add => "ADD"
  | .sub => "SUB"
  | .mul => "MUL"
  | .idiv => "IDIV"
  | .lt => "LT"
  | .gt => "GT"
  | .eq => "EQ"
  | .and => "AND"
  | .or => "OR"
  | .not => "NOT"
  | .int2Char => "INT2CHAR"
  | .stri2Int => "STRI2INT"
  | .read => "READ"
  | .write => "WRITE"
  | .concat => "CONCAT"
  | .strlen => "STRLEN"
  | .getChar => "GETCHAR"
  | .setChar => "SETCHAR"
  | .type => "TYPE"
  | .label => "LABEL"
  | .jump => "JUMP"
  | .jumpIfEq => "JUMPIFEQ"
  | .jumpIfNeq => "JUMPIFNEQ"
  | .exit => "EXIT"
  | .dprint => "DPRINT"
  | .break => "BREAK"

/-- All opcodes. -/
def all : List Opcode :=
  [.move, .createFrame, .pushFrame, .popFrame, .defVar, .call, .return, .pushs, .pops, .add, .sub,
    .mul, .idiv, .lt, .gt, .eq, .and, .or, .not, .int2Char, .stri2Int, .read, .write, .concat,
    .strlen, .getChar, .setChar, .type, .label, .jump, .jumpIfEq, .jumpIfNeq, .exit, .dprint,
    .break]

/-- The opcode that a mnemonic stands for, regardless of the case of its letters. -/
def ofMnemonic? (s : String) : Option Opcode :=
  all.find? fun opcode => Text.sameLetters opcode.mnemonic s

/-- What is reported of a text that is no mnemonic. -/
def unknownMessage (s : String) : String :=
  "unknown opcode `" ++ s ++ "`"

/-- A symbol of any type. -/
def anySymbol : Slot :=
  .symbol [.int, .string, .bool, .nil]

/-- A symbol of a type whose values are ordered. -/
def orderedSymbol : Slot :=
  .symbol [.int, .string, .bool]

/-- A symbol of one type. -/
def symbolOf (type : ValueType) : Slot :=
  .symbol [type]

/-- What the operands of an opcode have to be, from the first to the last. -/
def signature : Opcode → List Slot
  | .move => [.var, anySymbol]
  | .createFrame | .pushFrame | .popFrame => []
  | .defVar => [.var]
  | .call => [.label]
  | .return => []
  | .pushs => [anySymbol]
  | .pops => [.var]
  | .add | .sub | .mul | .idiv => [.var, symbolOf .int, symbolOf .int]
  | .lt | .gt => [.var, orderedSymbol, orderedSymbol]
  | .eq => [.var, anySymbol, anySymbol]
  | .and | .or => [.var, symbolOf .bool, symbolOf .bool]
  | .not => [.var, symbolOf .bool]
  | .int2Char => [.var, symbolOf .int]
  | .stri2Int => [.var, symbolOf .string, symbolOf .int]
  | .read => [.var, .type]
  | .write => [anySymbol]
  | .concat => [.var, symbolOf .string, symbolOf .string]
  | .strlen => [.var, symbolOf .string]
  | .getChar => [.var, symbolOf .string, symbolOf .int]
  | .setChar => [.var, symbolOf .int, symbolOf .string]
  | .type => [.var, anySymbol]
  | .label | .jump => [.label]
  | .jumpIfEq | .jumpIfNeq => [.label, anySymbol, anySymbol]
  | .exit => [symbolOf .int]
  | .dprint => [anySymbol]
  | .break => []

/-- How the types of an opcode's two symbols go together. -/
def pairing : Opcode → Pairing
  | .lt | .gt => .sameType
  | .eq | .jumpIfEq | .jumpIfNeq => .sameTypeOrNil
  | _ => .independent

/-- Whether the first operand of an opcode names a label to continue at. -/
def targetsLabel : Opcode → Bool
  | .call | .jump | .jumpIfEq | .jumpIfNeq => true
  | _ => false

end Opcode

end IppCode
