import IppCode.Fault
import IppCode.Table

/-!
# Frames

A frame holds the variables declared in it.  A variable without a value is
declared and uninitialized.  Frames list their variables in ascending order of the
names.
-/

namespace IppCode

/-- The declared names and what they hold, if anything. -/
structure Frame where
  slots : Table (Option Value) := ∅
  deriving DecidableEq

namespace Frame

instance : EmptyCollection Frame := ⟨{}⟩

instance : Inhabited Frame := ⟨∅⟩

/-- What a declared name holds; `none` for a name that is not declared. -/
def slot? (f : Frame) (name : String) : Option (Option Value) :=
  f.slots.find? name

/-- Declares a name, which then holds nothing. -/
def declare (name : String) : StateM Frame (Except ExecError Unit) := fun f =>
  match f.slot? name with
  | some _ => (.error (.redefinition name), f)
  | none => (.ok (), ⟨f.slots.insert name none⟩)

/-- Replaces what a declared name holds, and says whether it is declared. -/
def store (name : String) (content : Option Value) : StateM Frame Bool := fun f =>
  match f.slot? name with
  | some _ => (true, ⟨f.slots.insert name content⟩)
  | none => (false, f)

/-- The number of declared names. -/
def size (f : Frame) : Nat :=
  f.slots.size

/-- Whether no name is declared. -/
def isEmpty (f : Frame) : Bool :=
  f.slots.isEmpty

/-- The written form of what a name holds. -/
def renderContent : Option Value → String
  | some v => v.render
  | none => "<uninitialized>"

/-- The names and what they hold, between braces. -/
def render (f : Frame) : String :=
  "\x7b" ++ ", ".intercalate (f.slots.entries.map fun (name, content) =>
    name ++ ": " ++ renderContent content) ++ "\x7d"

end Frame

end IppCode
