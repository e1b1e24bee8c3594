import IppCode.Arithmetic
import IppCode.Characters

/-!
# Operators

What the computing opcodes make of the values of their operands.  The types of all
operands are judged first, then their values.
-/

namespace IppCode

/-- An operator on one value. -/
inductive UnaryOp where
  | not
  | int2Char
  | strlen
  deriving DecidableEq

/-- An operator on two values. -/
inductive BinaryOp where
  | add
  | sub
  | mul
  | idiv
  | lt
  | gt
  | eq
  | and
  | or
  | stri2Int
  | concat
  | getChar
  deriving DecidableEq

/-- The error of an opcode on values of types it does not work with. -/
def mismatch (opcode : Opcode) (values : List Value) : ExecError :=
  .operandType opcode (values.map Value.type)

namespace UnaryOp

/-- The opcode of an operator. -/
def opcode : UnaryOp → Opcode
  | .not => .not
  | .int2Char => .int2Char
  | .strlen => .strlen

/-- The result of an operator. -/
def eval (f : UnaryOp) (v : Value) : Except ExecError Value :=
  match f, v with
  | .not, .bool b => .ok (.bool !b)
  | .int2Char, .int code =>
    match Characters.ofCode code with
    | .ok c => .ok (.str (String.singleton c))
    | .error e => .error (.string e)
  | .strlen, .str s =>
    match Characters.length? s with
    | some length => .ok (.int length)
    | none => .error (.operandValue .length)
  | f, v => .error (mismatch f.opcode [v])

end UnaryOp

namespace BinaryOp

/-- The opcode of an operator. -/
def opcode : BinaryOp → Opcode
  | .add => .add
  | .sub => .sub
  | .mul => .mul
  | .idiv => .idiv
  | .lt => .lt
  | .gt => .gt
  | .eq => .eq
  | .and => .and
  | .or => .or
  | .stri2Int => .stri2Int
  | .concat => .concat
  | .getChar => .getChar

/-- An arithmetic result, or an overflow if there is none. -/
def integer (f : BinaryOp) : Option Int64 → Except ExecError Value
  | some n => .ok (.int n)
  | none => .error (.operandValue (.overflow f.opcode))

/-- The result of an operator. -/
def eval (f : BinaryOp) (v w : Value) : Except ExecError Value :=
  match f, v, w with
  | .add, .int l, .int r => integer .add (Arithmetic.add? l r)
  | .sub, .int l, .int r => integer .sub (Arithmetic.sub? l r)
  | .mul, .int l, .int r => integer .mul (Arithmetic.mul? l r)
  | .idiv, .int l, .int r =>
    if r = 0 then .error (.operandValue .divisionByZero)
    else integer .idiv (Arithmetic.floorDiv? l r)
  | .lt, v, w =>
    match v.compare? w with
    | some order => .ok (.bool order.isLT)
    | none => .error (mismatch .lt [v, w])
  | .gt, v, w =>
    match v.compare? w with
    | some order => .ok (.bool order.isGT)
    | none => .error (mismatch .gt [v, w])
  | .eq, v, w =>
    match v.equals? w with
    | some equal => .ok (.bool equal)
    | none => .error (mismatch .eq [v, w])
  | .and, .bool b, .bool c => .ok (.bool (b && c))
  | .or, .bool b, .bool c => .ok (.bool (b || c))
  | .stri2Int, .str s, .int i =>
    match Characters.codeAt s i with
    | .ok code => .ok (.int code)
    | .error e => .error (.string e)
  | .concat, .str s, .str t => .ok (.str (s ++ t))
  | .getChar, .str s, .int i =>
    match Characters.textAt s i with
    | .ok t => .ok (.str t)
    | .error e => .error (.string e)
  | f, v, w => .error (mismatch f.opcode [v, w])

end BinaryOp

/-- A text with one character replaced. -/
def evalSetChar (target index replacement : Value) : Except ExecError Value :=
  match target, index, replacement with
  | .str s, .int i, .str r =>
    match Characters.set s i r with
    | .ok t => .ok (.str t)
    | .error e => .error (.string e)
  | _, _, _ => .error (mismatch .setChar [target, index, replacement])

end IppCode
