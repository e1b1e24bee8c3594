import IppCode.Memory
import IppCode.Operator

/-!
# Operations

An operation is an instruction whose operands have been sorted by what they are
for: constants are values, and what is written is told apart from what is read.
The instructions that compute a value and store it are one operation, an
assignment of an expression.  Places to continue at are of any type: names as long
as labels are not resolved, positions afterwards.
-/

namespace IppCode

/-- What a value is taken from. -/
inductive Symbol where
  | variable (x : Variable)
  | constant (v : Value)
  deriving DecidableEq

/-- A computation of one value. -/
inductive Expr where
  | copy (a : Symbol)
  /-- The name of a value's type, empty for an uninitialized variable. -/
  | typeName (a : Symbol)
  | unary (f : UnaryOp) (a : Symbol)
  | binary (f : BinaryOp) (a b : Symbol)
  | setChar (x : Variable) (index replacement : Symbol)
  deriving DecidableEq

/-- What a program does in one step. -/
inductive Operation (τ : Type) where
  | assign (x : Variable) (e : Expr)
  | createFrame
  | pushFrame
  | popFrame
  | declare (x : Variable)
  | call (target : τ)
  | return
  | push (a : Symbol)
  | pop (x : Variable)
  | read (x : Variable) (type : ValueType)
  | write (a : Symbol)
  | label (name : String)
  | jump (target : τ)
  /-- Jumps if the two values are equal, or if they are not, as `equal` says. -/
  | jumpIf (equal : Bool) (target : τ) (a b : Symbol)
  | exit (a : Symbol)
  | print (a : Symbol)
  | dump
  deriving DecidableEq

namespace Symbol

/-- What a symbol holds; `none` for an uninitialized variable. -/
def slot (m : Memory) : Symbol → Except ExecError (Option Value)
  | .variable x => m.slot x
  | .constant v => .ok (some v)

/-- The value of a symbol. -/
def eval (m : Memory) : Symbol → Except ExecError Value
  | .variable x => m.read x
  | .constant v => .ok v

end Symbol

namespace Expr

/-- The value of an expression.  Its operands are evaluated from the first to the
last before the operator is applied. -/
def eval (m : Memory) : Expr → Except ExecError Value
  | .copy a => a.eval m
  | .typeName a => do
    let content ← a.slot m
    return .str ((content.map fun v => v.type.name).getD "")
  | .unary f a => do
    f.eval (← a.eval m)
  | .binary f a b => do
    let v ← a.eval m
    let w ← b.eval m
    f.eval v w
  | .setChar x index replacement => do
    let target ← m.read x
    let i ← index.eval m
    let r ← replacement.eval m
    evalSetChar target i r

end Expr

namespace Operation

variable {τ σ : Type}

/-- The opcode of a conditional jump. -/
def jumpIfOpcode (equal : Bool) : Opcode :=
  if equal then .jumpIfEq else .jumpIfNeq

/-- The operation with its place to continue at resolved, if that can be done. -/
def resolve? (place? : τ → Option σ) : Operation τ → Option (Operation σ)
  | .assign x e => some (.assign x e)
  | .createFrame => some .createFrame
  | .pushFrame => some .pushFrame
  | .popFrame => some .popFrame
  | .declare x => some (.declare x)
  | .call target => (place? target).map .call
  | .return => some .return
  | .push a => some (.push a)
  | .pop x => some (.pop x)
  | .read x type => some (.read x type)
  | .write a => some (.write a)
  | .label name => some (.label name)
  | .jump target => (place? target).map .jump
  | .jumpIf equal target a b => (place? target).map fun place => .jumpIf equal place a b
  | .exit a => some (.exit a)
  | .print a => some (.print a)
  | .dump => some .dump

end Operation

/-! ## From instructions to operations -/

namespace Operand

/-- The symbol that a variable or a constant stands for. -/
def symbol? : Operand → Option Symbol
  | .variable x => some (.variable x)
  | .constant l => l.value?.map .constant
  | _ => none

end Operand

namespace Operation

/-- An operation without operands. -/
def plain (op : Operation String) : List Operand → Option (Operation String)
  | [] => some op
  | _ => none

/-- An operation on a variable. -/
def onVariable (op : Variable → Operation String) : List Operand → Option (Operation String)
  | [.variable x] => some (op x)
  | _ => none

/-- An operation on a label. -/
def onLabel (op : String → Operation String) : List Operand → Option (Operation String)
  | [.label name] => some (op name)
  | _ => none

/-- An operation on a symbol. -/
def onSymbol (op : Symbol → Operation String) : List Operand → Option (Operation String)
  | [a] => a.symbol?.map op
  | _ => none

/-- An assignment computed from one symbol. -/
def assign₁ (e : Symbol → Expr) : List Operand → Option (Operation String)
  | [.variable x, a] => a.symbol?.map fun a => .assign x (e a)
  | _ => none

/-- An assignment computed from two symbols and, where it is read, the variable
assigned to. -/
def assign₂ (e : Variable → Symbol → Symbol → Expr) : List Operand → Option (Operation String)
  | [.variable x, a, b] => do
    let a ← a.symbol?
    let b ← b.symbol?
    return .assign x (e x a b)
  | _ => none

/-- The reading of a value of a type. -/
def reading : List Operand → Option (Operation String)
  | [.variable x, .type t] => some (.read x t)
  | _ => none

/-- A conditional jump. -/
def branch (equal : Bool) : List Operand → Option (Operation String)
  | [.label target, a, b] => do
    let a ← a.symbol?
    let b ← b.symbol?
    return .jumpIf equal target a b
  | _ => none

end Operation

namespace Instruction

/-- The operation of an instruction, if its operands are of the kinds that its
opcode asks for and its constants have values. -/
def operation? (i : Instruction) : Option (Operation String) :=
  match i.opcode with
  | .move => Operation.assign₁ .copy i.operands
  | .createFrame => Operation.plain .createFrame i.operands
  | .pushFrame => Operation.plain .pushFrame i.operands
  | .popFrame => Operation.plain .popFrame i.operands
  | .defVar => Operation.onVariable .declare i.operands
  | .call => Operation.onLabel .call i.operands
  | .return => Operation.plain .return i.operands
  | .pushs => Operation.onSymbol .push i.operands
  | .pops => Operation.onVariable .pop i.operands
  | .add => Operation.assign₂ (fun _ => .binary .add) i.operands
  | .sub => Operation.assign₂ (fun _ => .binary .sub) i.operands
  | .mul => Operation.assign₂ (fun _ => .binary .mul) i.operands
  | .idiv => Operation.assign₂ (fun _ => .binary .idiv) i.operands
  | .lt => Operation.assign₂ (fun _ => .binary .lt) i.operands
  | .gt => Operation.assign₂ (fun _ => .binary .gt) i.operands
  | .eq => Operation.assign₂ (fun _ => .binary .eq) i.operands
  | .and => Operation.assign₂ (fun _ => .binary .and) i.operands
  | .or => Operation.assign₂ (fun _ => .binary .or) i.operands
  | .not => Operation.assign₁ (.unary .not) i.operands
  | .int2Char => Operation.assign₁ (.unary .int2Char) i.operands
  | .stri2Int => Operation.assign₂ (fun _ => .binary .stri2Int) i.operands
  | .read => Operation.reading i.operands
  | .write => Operation.onSymbol .write i.operands
  | .concat => Operation.assign₂ (fun _ => .binary .concat) i.operands
  | .strlen => Operation.assign₁ (.unary .strlen) i.operands
  | .getChar => Operation.assign₂ (fun _ => .binary .getChar) i.operands
  | .setChar => Operation.assign₂ .setChar i.operands
  | .type => Operation.assign₁ .typeName i.operands
  | .label => Operation.onLabel .label i.operands
  | .jump => Operation.onLabel .jump i.operands
  | .jumpIfEq => Operation.branch true i.operands
  | .jumpIfNeq => Operation.branch false i.operands
  | .exit => Operation.onSymbol .exit i.operands
  | .dprint => Operation.onSymbol .print i.operands
  | .break => Operation.plain .dump i.operands

end Instruction

end IppCode
