import IppCode.Frame
import IppCode.Stack

/-!
# Memory

The memory of a running program: the global frame, a stack of local frames of
which the top one is visible, the temporary frame, the data stack and the call
stack.

Operations change the memory in place, step by step.  One that fails leaves what it
has made of the memory until then.
-/

namespace IppCode

/-- The memory of a running program. -/
structure Memory where
  global : Frame := ∅
  locals : Stack Frame := ∅
  temporary : Option Frame := none
  data : Stack Value := ∅
  calls : Stack Nat := ∅
  deriving DecidableEq

namespace Memory

/-- An operation that changes the memory and may fail. -/
abbrev Action := EStateM ExecError Memory

/-! ## Frames in sight -/

/-- The visible frame of a kind, if there is one. -/
def frame? (m : Memory) : FrameKind → Option Frame
  | .global => some m.global
  | .local => m.locals.top?
  | .temporary => m.temporary

/-- The memory with the visible frame of a kind replaced; without such a frame
nothing changes. -/
def setFrame (m : Memory) (kind : FrameKind) (f : Frame) : Memory :=
  match kind with
  | .global => { m with global := f }
  | .local => { m with locals := (m.locals.setTop? f).getD m.locals }
  | .temporary => { m with temporary := m.temporary.map fun _ => f }

/-- Works on the visible frame of a kind. -/
def onFrame {α : Type} (kind : FrameKind) (act : StateM Frame α) : Action α := fun m =>
  match m.frame? kind with
  | none => .error (.noSuchFrame kind) m
  | some f =>
    let (a, f) := act f
    .ok a (m.setFrame kind f)

/-! ## Variables -/

/-- What a declared variable holds. -/
def slot (m : Memory) (x : Variable) : Except ExecError (Option Value) :=
  match m.frame? x.frame with
  | none => .error (.noSuchFrame x.frame)
  | some f =>
    match f.slot? x.name with
    | none => .error (.noSuchVariable x)
    | some content => .ok content

/-- The value of an initialized variable. -/
def read (m : Memory) (x : Variable) : Except ExecError Value :=
  match m.slot x with
  | .error e => .error e
  | .ok none => .error (.missingValue (.uninitialized x))
  | .ok (some v) => .ok v

/-- Replaces what a declared variable holds. -/
def write (x : Variable) (content : Option Value) : Action Unit := do
  if ← onFrame x.frame (Frame.store x.name content) then
    return ()
  else
    throw (.noSuchVariable x)

/-- Declares a variable, which then holds nothing. -/
def declare (x : Variable) : Action Unit := do
  match ← onFrame x.frame (Frame.declare x.name) with
  | .ok () => return ()
  | .error _ => throw (.redefinition x.render)

/-! ## Frames on the move -/

/-- Puts an empty temporary frame in place of the one there was. -/
def createFrame (m : Memory) : Memory :=
  { m with temporary := some ∅ }

/-- Takes the temporary frame away, if there is one. -/
def takeTemporary : Action (Option Frame) :=
  modifyGet fun m => (m.temporary, { m with temporary := none })

/-- Takes the top local frame away, if there is one. -/
def takeLocal : Action (Option Frame) :=
  modifyGet fun m =>
    let (top, locals) := m.locals.pop
    (top, { m with locals })

/-- Moves the temporary frame onto the local frames. -/
def pushFrame : Action Unit := do
  match ← takeTemporary with
  | none => throw (.noSuchFrame .temporary)
  | some f => modify fun m => { m with locals := m.locals.push f }

/-- Makes the top local frame the temporary frame. -/
def popFrame : Action Unit := do
  match ← takeLocal with
  | none => throw (.noSuchFrame .local)
  | some f => modify fun m => { m with temporary := some f }

/-! ## Stacks -/

/-- Puts a value on the data stack. -/
def pushValue (m : Memory) (v : Value) : Memory :=
  { m with data := m.data.push v }

/-- Takes the top value from the data stack. -/
def popValue : Action Value := do
  let top ← modifyGet fun m =>
    let (top, data) := m.data.pop
    (top, { m with data })
  match top with
  | none => throw (.missingValue .dataStack)
  | some v => return v

/-- Puts a position on the call stack. -/
def pushCall (m : Memory) (position : Nat) : Memory :=
  { m with calls := m.calls.push position }

/-- Takes the top position from the call stack. -/
def popCall : Action Nat := do
  let top ← modifyGet fun m =>
    let (top, calls) := m.calls.pop
    (top, { m with calls })
  match top with
  | none => throw (.missingValue .callStack)
  | some position => return position

/-! ## The written form -/

/-- The written form of the temporary frame. -/
def renderTemporary : Option Frame → String
  | some f => f.render
  | none => "<absent>"

/-- The whole memory, one part per line. -/
def dump (m : Memory) : String :=
  "global frame: " ++ m.global.render ++ "\n"
    ++ "temporary frame: " ++ renderTemporary m.temporary ++ "\n"
    ++ "local frames (bottom to top): " ++ m.locals.render Frame.render ++ "\n"
    ++ "call stack (bottom to top): " ++ m.calls.render Nat.repr ++ "\n"
    ++ "data stack (bottom to top): " ++ m.data.render Value.render ++ "\n"

end Memory

end IppCode
