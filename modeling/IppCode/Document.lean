import IppCode.Instruction
import IppCode.Markup.Parser
import IppCode.Text.Utf8

/-!
# Program documents

A program is written as an XML document: an element `program` of instructions, each
with its order, its opcode and its arguments as elements `arg1` to `arg3`.  What
stands between the elements is ignored, and the instructions are put in their order
whichever way they are written.

Elements are read from the first to the last, and the first that is wrong decides.  The
text of a document is left to a parser.
-/

namespace IppCode

open Markup (Element)

/-- How the elements of a document fail to be a program. -/
inductive LayoutError where
  | root (found : String)
  | programAttribute (name : String)
  | language (found : String)
  | noLanguage
  | programElement (name : String)
  | instructionAttributes
  | invalidOrder
  | noOpcode (order : Nat)
  | opcode (found : String)
  | argumentElement (name : String) (order : Nat)
  | duplicateArgument (name : String) (order : Nat)
  | missingArgument (order : Nat)
  | argumentContent (name : String)
  | argumentAttributes (name : String)
  | argumentType (found : String)
  | variable (why : VariableError)
  | emptyLabel
  | type (found : String)
  | duplicateOrder (order : Nat)
  deriving DecidableEq

/-- The report of a document whose elements are no program. -/
def LayoutError.message : LayoutError → String
  | .root found => "root element must be `program`, found `" ++ found ++ "`"
  | .programAttribute name => "unexpected attribute `" ++ name ++ "` of `program`"
  | .language found => "unsupported language `" ++ found ++ "`"
  | .noLanguage => "missing `language` attribute"
  | .programElement name => "unexpected element `" ++ name ++ "` in `program`"
  | .instructionAttributes =>
    "`instruction` must have exactly the attributes `order` and `opcode`"
  | .invalidOrder => "`order` must be a positive integer"
  | .noOpcode order => "instruction " ++ Nat.repr order ++ " has no `opcode`"
  | .opcode found => Opcode.unknownMessage found
  | .argumentElement name order =>
    "unexpected element `" ++ name ++ "` in instruction " ++ Nat.repr order
  | .duplicateArgument name order =>
    "duplicate `" ++ name ++ "` in instruction " ++ Nat.repr order
  | .missingArgument order =>
    "arguments of instruction " ++ Nat.repr order ++ " are not contiguous"
  | .argumentContent name => "`" ++ name ++ "` cannot contain elements"
  | .argumentAttributes name => "`" ++ name ++ "` must have exactly the attribute `type`"
  | .argumentType found => "unknown argument type `" ++ found ++ "`"
  | .variable why => why.message
  | .emptyLabel => "label name cannot be empty"
  | .type found => ValueType.unknownMessage found
  | .duplicateOrder order => "duplicate instruction order " ++ Nat.repr order

/-- Why no instructions can be read from a source. -/
inductive LoadError where
  | encoding (why : Text.Utf8.Defect)
  /-- The parser finds no document, and says why. -/
  | notWellFormed (why : String)
  | layout (why : LayoutError)
  deriving DecidableEq

namespace LoadError

/-- The exit code that an unreadable source leads to. -/
def code : LoadError → Nat
  | .encoding _ | .notWellFormed _ => 31
  | .layout _ => 32

/-- The report of an unreadable source. -/
def message : LoadError → String
  | .encoding why => "XML document is not valid UTF-8: " ++ why.message
  | .notWellFormed why => "XML document is not well-formed: " ++ why
  | .layout why => "XML document has wrong structure: " ++ why.message

end LoadError

namespace Document

/-! ## Arguments -/

/-- The operand that the trimmed text of an argument stands for, given the kind that
its type names. -/
def operandOf (kind text : String) : Except LayoutError Operand :=
  if kind = "var" then
    match Variable.parse text with
    | .ok x => .ok (.variable x)
    | .error e => .error (.variable e)
  else if kind = "label" then
    if text = "" then .error .emptyLabel else .ok (.label text)
  else if kind = "type" then
    match ValueType.ofName? text with
    | some t => .ok (.type t)
    | none => .error (.type text)
  else
    match ValueType.ofName? kind with
    | some t => .ok (.constant ⟨t, text⟩)
    | none => .error (.argumentType kind)

/-- The operand that an argument stands for.  Only a text that it begins with counts. -/
def operand (argument : Element) : Except LayoutError Operand :=
  if argument.elements.isEmpty then
    match argument.attributes, argument.attribute? "type" with
    | [_], some kind =>
      operandOf (Text.lower (Text.trim kind)) (Text.trim argument.leadingText)
    | _, _ => .error (.argumentAttributes argument.name)
  else
    .error (.argumentContent argument.name)

/-- The place of an argument, by the name of its element. -/
def argumentIndex? (name : String) : Option Nat :=
  ["arg1", "arg2", "arg3"].idxOf? name

/-- The operands of arguments, with their places, read behind those already read. -/
def argumentsFrom (order : Nat) (read : List (Nat × Operand)) :
    List Element → Except LayoutError (List (Nat × Operand))
  | [] => .ok read
  | argument :: rest =>
    match argumentIndex? argument.name with
    | none => .error (.argumentElement argument.name order)
    | some index =>
      if (read.lookup index).isSome then .error (.duplicateArgument argument.name order)
      else
        match operand argument with
        | .error e => .error e
        | .ok a => argumentsFrom order (read ++ [(index, a)]) rest

/-- The operands in the order of their places, if none is left out. -/
def operands? (read : List (Nat × Operand)) : Option (List Operand) :=
  match read.lookup 0, read.lookup 1, read.lookup 2 with
  | none, none, none => some []
  | some a, none, none => some [a]
  | some a, some b, none => some [a, b]
  | some a, some b, some c => some [a, b, c]
  | _, _, _ => none

/-! ## Instructions -/

/-- The order that a text writes: a positive number of 64 bits. -/
def order? (s : String) : Option Nat :=
  (Text.Numeral.digits? 10 (Text.trim s).toList).filter fun n => 0 < n ∧ n < UInt64.size

/-- The instruction that an element stands for, and its order. -/
def instruction (e : Element) : Except LayoutError (Nat × Instruction) :=
  if e.name ≠ "instruction" then .error (.programElement e.name)
  else if e.attributes.length ≠ 2 then .error .instructionAttributes
  else
    match e.attribute? "order" >>= order? with
    | none => .error .invalidOrder
    | some order =>
      match e.attribute? "opcode" with
      | none => .error (.noOpcode order)
      | some mnemonic =>
        match Opcode.ofMnemonic? (Text.trim mnemonic) with
        | none => .error (.opcode (Text.trim mnemonic))
        | some opcode =>
          match argumentsFrom order [] e.elements with
          | .error e => .error e
          | .ok read =>
            match operands? read with
            | none => .error (.missingArgument order)
            | some operands => .ok (order, ⟨opcode, operands⟩)

/-- Puts an instruction among others by its order, unless that is taken. -/
def place? (order : Nat) (i : Instruction) :
    List (Nat × Instruction) → Option (List (Nat × Instruction))
  | [] => some [(order, i)]
  | entry :: rest =>
    if order < entry.1 then some ((order, i) :: entry :: rest)
    else if order = entry.1 then none
    else (place? order i rest).map (entry :: ·)

/-- The instructions of elements, put among those already read. -/
def instructionsFrom (read : List (Nat × Instruction)) :
    List Element → Except LayoutError (List (Nat × Instruction))
  | [] => .ok read
  | e :: rest =>
    match instruction e with
    | .error e => .error e
    | .ok (order, i) =>
      match place? order i read with
      | none => .error (.duplicateOrder order)
      | some read => instructionsFrom read rest

/-! ## Programs -/

/-- What is wrong with the outermost element on its own. -/
def rootDefect? (root : Element) : Option LayoutError :=
  if root.name ≠ "program" then some (.root root.name)
  else
    match root.attributes.find? fun a => a.name ∉ ["language", "name", "description"] with
    | some a => some (.programAttribute a.name)
    | none =>
      match root.attribute? "language" with
      | none => some .noLanguage
      | some language =>
        if Text.sameLetters (Text.trim language) "IPPcode23" then none
        else some (.language language)

/-- The instructions that the tree of a document stands for, in their order. -/
def load (root : Element) : Except LayoutError (List Instruction) :=
  match rootDefect? root with
  | some e => .error e
  | none => (instructionsFrom [] root.elements).map fun read => read.map Prod.snd

/-- The instructions that the text of a document stands for. -/
def parse (parser : Markup.Parser) (s : String) : Except LoadError (List Instruction) :=
  match parser.read s with
  | .error why => .error (.notWellFormed why)
  | .ok root =>
    match load root with
    | .error e => .error (.layout e)
    | .ok is => .ok is

/-- The instructions that the bytes of a document stand for. -/
def read (parser : Markup.Parser) (source : List UInt8) : Except LoadError (List Instruction) :=
  match Text.Utf8.decode source with
  | .error why => .error (.encoding why)
  | .ok s => parse parser s

end Document

end IppCode
