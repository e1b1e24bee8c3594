import IppCode.Instruction

/-!
# Errors of programs

Why a program is refused or stopped: the cause, the wording of its report and the
exit code it leads to.  A `Fault` adds where it happened.
-/

namespace IppCode

/-- Why an instruction does not have the form its opcode asks for. -/
inductive Malformation where
  /-- The text of a literal has no value of its type. -/
  | literal (l : Literal)
  | operandCount (opcode : Opcode) (found : Nat)
  /-- There is no operand at an index counted from zero. -/
  | missingOperand (opcode : Opcode) (index : Nat)
  /-- The operand at an index counted from zero does not suit the opcode. -/
  | operandKind (opcode : Opcode) (index : Nat) (found : Operand)
  deriving DecidableEq

/-- Which value is missing. -/
inductive MissingValue where
  | uninitialized (x : Variable)
  | dataStack
  | callStack
  deriving DecidableEq

/-- Which value cannot be worked with. -/
inductive ValueError where
  | divisionByZero
  | overflow (opcode : Opcode)
  | exitCode (code : Int)
  | length
  deriving DecidableEq

/-- Why a character cannot be read or written. -/
inductive StringError where
  | outOfBounds (index : Int) (length : Nat)
  /-- An index within the length of a text at which no character is found. -/
  | noCharacter (index : Int)
  | codepoint (code : Int)
  | emptyReplacement
  deriving DecidableEq

/-- Why a program is refused or stopped. -/
inductive ExecError where
  | malformed (why : Malformation)
  | duplicateLabel (label : String) (first : Nat)
  | undefinedLabels (labels : List String)
  /-- The name shown is a variable's written form, or the bare name where the
  frame is not known. -/
  | redefinition (shown : String)
  | operandType (opcode : Opcode) (found : List ValueType)
  | noSuchVariable (x : Variable)
  | noSuchFrame (frame : FrameKind)
  | missingValue (what : MissingValue)
  | operandValue (why : ValueError)
  | string (why : StringError)
  | io (text : String)
  deriving DecidableEq

/-- The kinds of errors, as they are told apart by their reports. -/
inductive ErrorKind where
  | malformed
  | duplicateLabel
  | undefinedLabel
  | redefinition
  | operandType
  | noSuchVariable
  | noSuchFrame
  | missingValue
  | operandValue
  | string
  | io
  deriving DecidableEq

/-- The exit code that errors of a kind lead to. -/
def ErrorKind.code : ErrorKind → Nat
  | .malformed => 32
  | .duplicateLabel | .undefinedLabel | .redefinition => 52
  | .operandType => 53
  | .noSuchVariable => 54
  | .noSuchFrame => 55
  | .missingValue => 56
  | .operandValue => 57
  | .string => 58
  | .io => 99

/-- What a literal of a type is called in reports. -/
def literalNoun : ValueType → String
  | .int => "integer"
  | type => type.name

/-- The report of a malformed instruction. -/
def Malformation.message : Malformation → String
  | .literal l => "`" ++ l.text ++ "` is not a valid " ++ literalNoun l.type ++ " literal"
  | .operandCount opcode found =>
    opcode.mnemonic ++ " expects " ++ Nat.repr opcode.signature.length ++ " operand(s), found "
      ++ Nat.repr found
  | .missingOperand opcode index =>
    opcode.mnemonic ++ " is missing operand " ++ Nat.repr (index + 1)
  | .operandKind opcode index found =>
    "operand " ++ Nat.repr (index + 1) ++ " of " ++ opcode.mnemonic ++ " cannot be `"
      ++ found.render ++ "`"

/-- The report of a missing value. -/
def MissingValue.message : MissingValue → String
  | .uninitialized x => "variable `" ++ x.render ++ "` is uninitialized"
  | .dataStack => "data stack is empty"
  | .callStack => "call stack is empty"

/-- The report of a value that cannot be worked with. -/
def ValueError.message : ValueError → String
  | .divisionByZero => "division by zero"
  | .overflow opcode => "integer overflow in " ++ opcode.mnemonic
  | .exitCode code => "exit code " ++ Text.Numeral.write code ++ " is outside of 0..=49"
  | .length => "string length does not fit an integer"

/-- The report of a character that cannot be read or written. -/
def StringError.message : StringError → String
  | .outOfBounds index length =>
    "index " ++ Text.Numeral.write index ++ " is out of bounds for a string of length " ++
      Nat.repr length
  | .noCharacter index => "index " ++ Text.Numeral.write index ++ " is out of bounds"
  | .codepoint code => Text.Numeral.write code ++ " is not a valid Unicode codepoint"
  | .emptyReplacement => "replacement string is empty"

namespace ExecError

/-- The kind of an error. -/
def kind : ExecError → ErrorKind
  | .malformed _ => .malformed
  | .duplicateLabel .. => .duplicateLabel
  | .undefinedLabels _ => .undefinedLabel
  | .redefinition _ => .redefinition
  | .operandType .. => .operandType
  | .noSuchVariable _ => .noSuchVariable
  | .noSuchFrame _ => .noSuchFrame
  | .missingValue _ => .missingValue
  | .operandValue _ => .operandValue
  | .string _ => .string
  | .io _ => .io

/-- The exit code that an error leads to. -/
def code (e : ExecError) : Nat :=
  e.kind.code

/-- The report of an error. -/
def message : ExecError → String
  | .malformed why => "invalid program structure: " ++ why.message
  | .duplicateLabel label first =>
    "label `" ++ label ++ "` is already defined at instruction " ++ Nat.repr first
  | .undefinedLabels labels => "undefined label(s): " ++ ", ".intercalate labels
  | .redefinition shown => "variable `" ++ shown ++ "` is already defined"
  | .operandType opcode found =>
    "invalid operand type(s): " ++ opcode.mnemonic ++ " cannot operate on ("
      ++ ", ".intercalate (found.map ValueType.name) ++ ")"
  | .noSuchVariable x => "variable `" ++ x.render ++ "` does not exist"
  | .noSuchFrame frame => frame.description ++ " does not exist"
  | .missingValue what => "missing value: " ++ what.message
  | .operandValue why => "invalid operand value: " ++ why.message
  | .string why => "string operation failed: " ++ why.message
  | .io text => "I/O error: " ++ text

end ExecError

/-- An error and, if it arose at an instruction, the position and the opcode of
that instruction. -/
structure Fault where
  error : ExecError
  location : Option (Nat × Opcode) := none
  deriving DecidableEq

namespace Fault

/-- The exit code that a fault leads to. -/
def code (f : Fault) : Nat :=
  f.error.code

/-- The report of a fault. -/
def message (f : Fault) : String :=
  match f.location with
  | none => f.error.message
  | some (position, opcode) =>
    f.error.message ++ " (instruction " ++ Nat.repr position ++ ": " ++ opcode.mnemonic ++ ")"

end Fault

end IppCode
