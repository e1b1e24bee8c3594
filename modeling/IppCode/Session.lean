import IppCode.Document
import IppCode.Machine

/-!
# Sessions

A session reads a program from its source, checks it and runs it.  It ends with the
exit code of the program, or with the code of what went wrong, which is then
reported on the diagnostics.
-/

namespace IppCode

/-- Why no program can be made of a source. -/
inductive ProgramError where
  | load (why : LoadError)
  | check (why : Fault)
  deriving DecidableEq

namespace ProgramError

/-- The exit code that a refused source leads to. -/
def code : ProgramError → Nat
  | .load why => why.code
  | .check why => why.code

/-- The report of a refused source. -/
def message : ProgramError → String
  | .load why => why.message
  | .check why => why.message

end ProgramError

/-- The program that a source holds. -/
def Program.load (parser : Markup.Parser) (source : List UInt8) : Except ProgramError Program :=
  match Document.read parser source with
  | .error e => .error (.load e)
  | .ok is =>
    match Program.ofInstructions is with
    | .error fault => .error (.check fault)
    | .ok p => .ok p

namespace Session

/-- What is left of streams when work on them ends, whether it fails or not. -/
def attempt (act : EStateM String Streams Unit) (s : Streams) : Streams :=
  match act s with
  | .ok _ s => s
  | .error _ s => s

/-- Reports what went wrong: the output is flushed, a line is written to the
diagnostics, and these are flushed.  A step that fails does not keep the next from
being tried. -/
def report (message : String) (s : Streams) : Streams :=
  attempt (Streams.flush .diagnostics)
    (attempt (Streams.writeText .diagnostics ("error: " ++ message ++ "\n"))
      (attempt (Streams.flush .output) s))

/-- The exit code and the streams that a program leaves once it has stopped. -/
def outcome? : Status → Option (Nat × Streams)
  | .running _ => none
  | .exited code m => some (code, m.streams)
  | .faulted fault m => some (fault.code, report fault.message m.streams)

/-- The exit code and the streams that a session leaves, if its program stops within
a number of steps. -/
def execute (parser : Markup.Parser) (steps : Nat) (source : List UInt8) (s : Streams) :
    Option (Nat × Streams) :=
  match Program.load parser source with
  | .error e => some (e.code, report e.message s)
  | .ok p => outcome? (Machine.run p steps { streams := s })

end Session

end IppCode
