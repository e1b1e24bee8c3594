import IppCode.Directory
import IppCode.Session

/-!
# The command line

Two options name the file of the program and the file of its input; at least one of
them is given, and standard input takes the place of the other.  Arguments are taken
from the left to the right, and the first that asks for help or the version, or makes
no sense, decides.
-/

namespace IppCode.CommandLine

/-! ## Arguments -/

/-- The options that take a file. -/
inductive FileOption where
  | source
  | input
  deriving DecidableEq

/-- The files that have been named. -/
structure Files where
  source : Option String := none
  input : Option String := none
  deriving DecidableEq

/-- What the arguments ask for. -/
inductive Task where
  | help
  | version
  | run (files : Files)
  deriving DecidableEq

/-- The files with one more named.  A name is not empty, and none is named twice for
the same option. -/
def Files.set? (files : Files) (option : FileOption) (path : String) : Option Files :=
  if path = "" then none
  else
    match option, files with
    | .source, ⟨none, input⟩ => some ⟨some path, input⟩
    | .input, ⟨source, none⟩ => some ⟨source, some path⟩
    | _, _ => none

/-- What one argument is. -/
inductive Argument where
  | help
  | version
  /-- An option with the file that is attached to it. -/
  | attached (option : FileOption) (path : String)
  /-- An option whose file is the next argument. -/
  | awaiting (option : FileOption)
  /-- The mark behind which no options follow. -/
  | mark
  | unknown
  deriving DecidableEq

/-- An option written with its letter, given what follows the letter. -/
def letterOption (option : FileOption) : List Char → Argument
  | [] => .awaiting option
  | '=' :: path => .attached option (String.ofList path)
  | path => .attached option (String.ofList path)

/-- An option written with its name, given what follows the name. -/
def namedOption (option : FileOption) : List Char → Argument
  | [] => .awaiting option
  | '=' :: path => .attached option (String.ofList path)
  | _ => .unknown

/-- What an argument is. -/
def Argument.ofString (s : String) : Argument :=
  match s.toList with
  | ['-', '-'] => .mark
  | '-' :: '-' :: word =>
    let name := String.ofList (word.takeWhile (· != '='))
    let rest := word.dropWhile (· != '=')
    if name = "source" then namedOption .source rest
    else if name = "input" then namedOption .input rest
    else if name = "help" ∧ rest = [] then .help
    else if name = "version" ∧ rest = [] then .version
    else .unknown
  | '-' :: 'h' :: _ => .help
  | '-' :: 'V' :: _ => .version
  | '-' :: 's' :: rest => letterOption .source rest
  | '-' :: 'i' :: rest => letterOption .input rest
  | _ => .unknown

/-- Whether an argument can be the file of the option before it: it does not look
like an option. -/
def isPath (s : String) : Bool :=
  s == "-" || s.toList.head? != some '-'

/-- What arguments ask for behind those that named files already. -/
def taskFrom? (files : Files) : List String → Option Task
  | [] => if files = {} then none else some (.run files)
  | s :: rest =>
    match Argument.ofString s with
    | .help => some .help
    | .version => some .version
    | .unknown => none
    | .mark => if rest.isEmpty then taskFrom? files rest else none
    | .attached option path =>
      match files.set? option path with
      | none => none
      | some files => taskFrom? files rest
    | .awaiting option =>
      match rest with
      | [] => none
      | path :: rest =>
        if isPath path then
          match files.set? option path with
          | none => none
          | some files => taskFrom? files rest
        else
          none

/-- What arguments ask for; `none` if they make no sense. -/
def task? (arguments : List String) : Option Task :=
  taskFrom? {} arguments

/-! ## Answers -/

/-- The synopsis of the arguments. -/
def usage : String :=
  "Usage: ippcrab <--source <FILE>|--input <FILE>>\n"

/-- The text printed when help is asked for. -/
def helpText : String :=
  "Interpreter of IPPcode23 programs in XML representation\n\n" ++ usage ++ "\n"
    ++ "Options:\n"
    ++ "  -s, --source <FILE>  XML source of the program; read from standard input when omitted\n"
    ++ "  -i, --input <FILE>   Input for READ instructions; read from standard input when omitted\n"
    ++ "  -h, --help           Print help\n"
    ++ "  -V, --version        Print version\n"

/-- The text printed when the version is asked for. -/
def versionText : String :=
  "ippcrab 0.0.1\n"

/-- The exit code for arguments that make no sense. -/
def usageCode : Nat := 10

/-- The exit code for a file that cannot be read. -/
def fileCode : Nat := 11

/-- The report of a file that cannot be read. -/
def fileMessage (path : String) (why : FileError) : String :=
  "error: cannot read `" ++ path ++ "`: " ++ why.message ++ "\n"

/-- Where files and standard input come from. -/
structure Host (m : Type → Type) where
  read : String → m (Except FileError (List UInt8))
  openSource : String → m (Except FileError Source)
  standardInput : m (List UInt8)

/-- The host that finds files in a directory. -/
def Host.ofDirectory (d : Directory) (standardInput : List UInt8) : Host Id where
  read path := d.read path
  openSource path := d.openSource path
  standardInput := standardInput

/-- Reads the source of the program, then opens its input.  A file that cannot be
read is given with the reason. -/
def gather {m : Type → Type} [Monad m] (host : Host m) (files : Files) :
    m (Except (String × FileError) (List UInt8 × Source)) := do
  let source ← match files.source with
    | none => .ok <$> host.standardInput
    | some path => Except.mapError (path, ·) <$> host.read path
  match source with
  | .error e => return .error e
  | .ok source =>
    let input ← match files.input with
      | none => (fun ready => .ok { ready }) <$> host.standardInput
      | some path => Except.mapError (path, ·) <$> host.openSource path
    return input.map fun input => (source, input)

/-- What a command line leads to. -/
structure Response where
  code : Nat
  output : List UInt8 := []
  diagnostics : List UInt8 := []
  deriving DecidableEq

/-- What running a program with its source and input at hand leads to, if it stops
within a number of steps. -/
def respondRun (steps : Nat) (source : List UInt8) (input : Source) : Option Response :=
  (Session.execute Markup.parser steps source { input }).map fun (code, s) =>
    ⟨code, s.written .output, s.written .diagnostics⟩

/-- What arguments lead to, with files from a directory; `none` if the program does not
stop within a number of steps. -/
def respond (steps : Nat) (d : Directory) (standardInput : List UInt8)
    (arguments : List String) : Option Response :=
  match task? arguments with
  | none => some { code := usageCode, diagnostics := Text.Utf8.encode usage }
  | some .help => some { code := 0, output := Text.Utf8.encode helpText }
  | some .version => some { code := 0, output := Text.Utf8.encode versionText }
  | some (.run files) =>
    match Id.run (gather (.ofDirectory d standardInput) files) with
    | .error (path, why) =>
      some { code := fileCode, diagnostics := Text.Utf8.encode (fileMessage path why) }
    | .ok (source, input) => respondRun steps source input

end IppCode.CommandLine
