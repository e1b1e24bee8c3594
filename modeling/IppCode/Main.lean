import IppCode.CommandLine

/-!
# The program

The command line on the files and streams of the system.  Input is read ahead as a
whole; what a program writes is passed on in portions, so that one that does not stop
can be followed.
-/

namespace IppCode.System

/-- The reason that the system gives for a file that cannot be read.  The number of a
reason may come with its sign turned. -/
def fileError (e : IO.Error) : FileError :=
  match e with
  | .noFileOrDirectory .. => .notFound
  | .inappropriateType _ code _ =>
    if code = 21 ∨ code = 0 - 21 then .isDirectory else .notDirectory
  | e => .other (toString e)

/-- The result of reading from the system. -/
def tryRead (act : IO ByteArray) : IO (Except FileError (List UInt8)) := do
  try
    return .ok (← act).data.toList
  catch e =>
    return .error (fileError e)

/-- Reads a stream of the system to its end. -/
partial def readAll (stream : IO.FS.Stream) (read : ByteArray) : IO ByteArray := do
  let bytes ← stream.read 65536
  if bytes.isEmpty then return read else readAll stream (read ++ bytes)

/-- The files and the standard input of the system.  A directory can be opened, but not
read. -/
def systemHost : CommandLine.Host IO where
  read path := tryRead (IO.FS.readBinFile path)
  openSource path := do
    match ← tryRead (IO.FS.readBinFile path) with
    | .ok ready => return .ok { ready }
    | .error .isDirectory =>
      return .ok { failure := some { text := FileError.isDirectory.message } }
    | .error e => return .error e
  standardInput := do
    return (← readAll (← IO.getStdin) .empty).data.toList

/-- Passes the events of streams on to the system. -/
def passOn (s : Streams) : IO Unit := do
  let output ← IO.getStdout
  let diagnostics ← IO.getStderr
  for event in s.events do
    match event with
    | .written .output bytes => output.write bytes.toByteArray
    | .written .diagnostics bytes => diagnostics.write bytes.toByteArray
    | .flushed .output _ => output.flush
    | .flushed .diagnostics _ => diagnostics.flush

/-- The number of steps between two portions of output. -/
def portion : Nat := 100000

/-- Runs a program until it stops. -/
partial def runOn (p : Program) (m : Machine) : IO UInt32 := do
  let status := Machine.run p portion m
  match status, Session.outcome? status with
  | .running m, _ =>
    passOn m.streams
    runOn p { m with streams := { m.streams with log := [] } }
  | _, some (code, s) =>
    passOn s
    return UInt32.ofNat code
  | _, none => return 0

/-- Prints a text on the output and ends with an exit code. -/
def answerWith (code : Nat) (text : String) : IO UInt32 := do
  IO.print text
  return UInt32.ofNat code

/-- Prints a text on the diagnostics and ends with an exit code. -/
def refuseWith (code : Nat) (text : String) : IO UInt32 := do
  IO.eprint text
  return UInt32.ofNat code

/-- Does what arguments ask for and gives the exit code. -/
def start (arguments : List String) : IO UInt32 := do
  match CommandLine.task? arguments with
  | none => refuseWith CommandLine.usageCode CommandLine.usage
  | some .help => answerWith 0 CommandLine.helpText
  | some .version => answerWith 0 CommandLine.versionText
  | some (.run files) =>
    match ← CommandLine.gather systemHost files with
    | .error (path, why) =>
      refuseWith CommandLine.fileCode (CommandLine.fileMessage path why)
    | .ok (source, input) =>
      match Program.load Markup.parser source with
      | .error e =>
        passOn (Session.report e.message { input })
        return UInt32.ofNat e.code
      | .ok p => runOn p { streams := { input } }

end IppCode.System

def main (arguments : List String) : IO UInt32 :=
  IppCode.System.start arguments
