import IppCode.Text.Ascii
import IppCode.Text.Blank
import IppCode.Text.Utf8
import IppCode.Value

/-!
# Streams

The input that a program reads, and the output and the diagnostics that it writes.
Any of them may fail.  A source may go on behind an error or an end.  A sink answers
each request as it likes: how many bytes it takes and whether a flush succeeds may
depend on what it has served and holds, so every pattern of failures is that of some
sink.

All that happens to the sinks is kept in a log, from which the bytes they hold and
the order of writes and flushes can be read.
-/

namespace IppCode

/-! ## Sources -/

/-- Why a source cannot be read. -/
structure ReadError where
  text : String
  /-- The source itself finds that its bytes are no text. -/
  invalid : Bool := false
  deriving DecidableEq

/-- The bytes at hand, the error met behind them instead of an end, and what can be read
once the error or the end has been met: more bytes and what is met behind those, and so
on.  What is met last is met again each time. -/
structure Source where
  ready : List UInt8 := []
  failure : Option ReadError := none
  later : List (List UInt8 × Option ReadError) := []
  deriving DecidableEq

namespace Source

/-- All bytes that are still to be read. -/
def unread (s : Source) : List UInt8 :=
  s.ready ++ s.later.flatMap Prod.fst

/-- The source behind the error or the end that has been met. -/
def advance (s : Source) : Source :=
  match s.later with
  | [] => { s with ready := [] }
  | (ready, failure) :: later => ⟨ready, failure, later⟩

/-- Takes the bytes through the next line feed.  Without one all bytes at hand are
taken, and they are a line of their own if nothing fails behind them. -/
def readLine : EStateM ReadError Source (List UInt8) := fun s =>
  let line := s.ready.takeWhile (· != 10)
  match s.ready.dropWhile (· != 10), s.failure with
  | lineFeed :: rest, _ => .ok (line ++ [lineFeed]) { s with ready := rest }
  | [], none => .ok line s.advance
  | [], some e => .error e s.advance

end Source

/-! ## Lines of input -/

/-- The line without its line feed and one carriage return right before that. -/
def dropLineEnd (line : List Char) : List Char :=
  match line.reverse with
  | '\n' :: '\r' :: rest => rest.reverse
  | '\n' :: rest => rest.reverse
  | _ => line

namespace Value

/-- The value of a type that a line of text stands for. -/
def ofText (type : ValueType) (line : String) : Value :=
  match type with
  | .string => .str line
  | .int => ((Text.Numeral.read? (Text.trim line)).map .int).getD .nil
  | .bool => .bool (Text.sameLetters (Text.trim line) "true")
  | .nil => .nil

/-- The value of a type read from the bytes of a line.  No bytes at all mean the
end of the input. -/
def ofLine (type : ValueType) (bytes : List UInt8) : Value :=
  match bytes, Text.Utf8.decode? bytes with
  | [], _ => .nil
  | _, none => .nil
  | _, some line => ofText type (String.ofList (dropLineEnd line.toList))

end Value

/-! ## Sinks -/

/-- A destination of bytes: what it has been asked and holds, and how it answers.
Both answers may depend on the number of requests served, and the room for bytes
also on the number of bytes held. -/
structure Sink where
  served : Nat := 0
  held : Nat := 0
  /-- How many more bytes are taken, `none` for any number. -/
  room : (served held : Nat) → Option Nat := fun _ _ => none
  /-- The error of a write that is not taken whole. -/
  refusal : String := ""
  /-- The error of a flush, if it fails. -/
  flushFailure : (served : Nat) → Option String := fun _ => none

namespace Sink

/-- How many of `n` bytes the sink takes. -/
def taking (s : Sink) (n : Nat) : Nat :=
  match s.room s.served s.held with
  | none => n
  | some r => min n r

/-- The sink after taking `n` bytes. -/
def take (s : Sink) (n : Nat) : Sink :=
  { s with served := s.served + 1, held := s.held + n }

/-- A sink that holds at most `n` bytes. -/
def bounded (n : Nat) (refusal : String) : Sink :=
  { room := fun _ held => some (n - held), refusal }

end Sink

/-! ## The streams of a program -/

/-- The two streams that are written to. -/
inductive Channel where
  | output
  | diagnostics
  deriving DecidableEq

/-- What happens to a channel. -/
inductive Event where
  /-- Bytes are taken; there is at least one. -/
  | written (channel : Channel) (bytes : List UInt8)
  /-- A flush is asked for, which may fail. -/
  | flushed (channel : Channel) (failure : Option String)
  deriving DecidableEq

/-- The bytes that an event brings to a channel. -/
def Event.bytesTo (channel : Channel) : Event → List UInt8
  | .written c bytes => if c = channel then bytes else []
  | .flushed .. => []

/-- The streams of a program and the log of its channels, latest first. -/
structure Streams where
  input : Source := {}
  output : Sink := {}
  diagnostics : Sink := {}
  log : List Event := []

namespace Streams

/-- The sink of a channel. -/
def sink (s : Streams) : Channel → Sink
  | .output => s.output
  | .diagnostics => s.diagnostics

/-- The streams with the sink of a channel replaced. -/
def setSink (s : Streams) (channel : Channel) (sink : Sink) : Streams :=
  match channel with
  | .output => { s with output := sink }
  | .diagnostics => { s with diagnostics := sink }

/-- The streams after a sink has taken bytes. -/
def accept (s : Streams) (channel : Channel) (bytes : List UInt8) : Streams :=
  let s' := s.setSink channel ((s.sink channel).take bytes.length)
  if bytes.isEmpty then s' else { s' with log := .written channel bytes :: s'.log }

/-- Writes bytes.  Those that the sink takes stay written if it refuses the rest;
writing nothing never fails. -/
def write (channel : Channel) (bytes : List UInt8) : EStateM String Streams Unit := fun s =>
  let taken := bytes.take ((s.sink channel).taking bytes.length)
  if taken.length < bytes.length then .error (s.sink channel).refusal (s.accept channel taken)
  else .ok () (s.accept channel taken)

/-- Flushes a channel. -/
def flush (channel : Channel) : EStateM String Streams Unit := fun s =>
  let failure := (s.sink channel).flushFailure (s.sink channel).served
  let s' := s.setSink channel ((s.sink channel).take 0)
  let s' := { s' with log := .flushed channel failure :: s'.log }
  match failure with
  | none => .ok () s'
  | some text => .error text s'

/-- Writes a text. -/
def writeText (channel : Channel) (text : String) : EStateM String Streams Unit :=
  write channel (Text.Utf8.encode text)

/-- Writes a text to the diagnostics after everything written to the output so far
has been flushed. -/
def diagnose (text : String) : EStateM String Streams Unit := do
  flush .output
  writeText .diagnostics text
  flush .diagnostics

/-- Reads a value of a type from the next line of input.  A line that is no text is
read as nil, be it found here or by the source. -/
def readValue (type : ValueType) : EStateM String Streams Value := fun s =>
  match Source.readLine s.input with
  | .ok line input => .ok (Value.ofLine type line) { s with input }
  | .error e input =>
    if e.invalid then .ok .nil { s with input } else .error e.text { s with input }

/-- The events of the channels, earliest first. -/
def events (s : Streams) : List Event :=
  s.log.reverse

/-- An event before others.  A write is joined to one to the same channel that
directly follows it. -/
def joinWrite (event : Event) (later : List Event) : List Event :=
  match event, later with
  | .written c first, .written d second :: rest =>
    if c = d then .written c (first ++ second) :: rest else event :: later
  | _, _ => event :: later

/-- The events of the channels, earliest first, with directly consecutive writes to one
channel joined into one. -/
def transcript (s : Streams) : List Event :=
  s.events.foldr joinWrite []

/-- The bytes that a channel has taken. -/
def written (s : Streams) (channel : Channel) : List UInt8 :=
  s.events.flatMap (Event.bytesTo channel)

end Streams

end IppCode
