/-!
# Variables

A variable is a name in one of three frames, written with the frame's sign, `@`
and the name.  `Variable.parse` divides at the first `@`, so a name may hold
further ones.
-/

namespace IppCode

/-- The frames that a variable can live in. -/
inductive FrameKind where
  | global
  | local
  | temporary
  deriving DecidableEq

namespace FrameKind

/-- The sign written before the name of a variable. -/
def sign : FrameKind → String
  | .global => "GF"
  | .local => "LF"
  | .temporary => "TF"

/-- The name of the frame in reports. -/
def description : FrameKind → String
  | .global => "global frame"
  | .local => "local frame"
  | .temporary => "temporary frame"

/-- The frame that a sign stands for; the case of its letters matters. -/
def ofSign? (s : String) : Option FrameKind :=
  [.global, .local, .temporary].find? fun kind => kind.sign == s

end FrameKind

/-- A name in a frame. -/
structure Variable where
  frame : FrameKind
  name : String
  deriving DecidableEq

/-- Why a text is no variable. -/
inductive VariableError where
  /-- There is no `@`. -/
  | noFrame (text : String)
  /-- What stands before the first `@` is no frame's sign. -/
  | unknownFrame (sign text : String)
  /-- Nothing follows the first `@`. -/
  | emptyName (text : String)
  deriving DecidableEq

/-- The report of a text that is no variable. -/
def VariableError.message : VariableError → String
  | .noFrame text => "variable `" ++ text ++ "` is missing its frame prefix"
  | .unknownFrame sign text => "unknown frame `" ++ sign ++ "` in variable `" ++ text ++ "`"
  | .emptyName text => "variable `" ++ text ++ "` has an empty name"

namespace Variable

/-- The written form of a variable. -/
def render (x : Variable) : String :=
  x.frame.sign ++ "@" ++ x.name

/-- Reads a variable.  The frame is judged before the name. -/
def parse (s : String) : Except VariableError Variable :=
  match s.toList.takeWhile (· != '@'), s.toList.dropWhile (· != '@') with
  | _, [] => .error (.noFrame s)
  | sign, _ :: name =>
    match FrameKind.ofSign? (String.ofList sign) with
    | none => .error (.unknownFrame (String.ofList sign) s)
    | some frame =>
      if name.isEmpty then .error (.emptyName s) else .ok ⟨frame, String.ofList name⟩

end Variable

end IppCode
