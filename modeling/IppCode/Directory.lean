import IppCode.Streams

/-!
# Directories

The files that a program can be given by name, as a tree below the directory it
works in.  Paths begin in that directory or outside of it.
-/

namespace IppCode

/-- Why a file cannot be read. -/
inductive FileError where
  | notFound
  | notDirectory
  | isDirectory
  /-- Any other reason, in the words of the system. -/
  | other (text : String)
  deriving DecidableEq

/-- The report of a file that cannot be read. -/
def FileError.message : FileError → String
  | .notFound => "No such file or directory (os error 2)"
  | .notDirectory => "Not a directory (os error 20)"
  | .isDirectory => "Is a directory (os error 21)"
  | .other text => text

/-- What a path can lead to. -/
inductive File where
  | regular (content : List UInt8)
  | directory
  deriving DecidableEq

/-- Files by the steps of their paths.  What lies above a listed path is a directory. -/
structure Directory where
  entries : List (List String × File) := []
  deriving DecidableEq

/-- The steps of a path. -/
def pathSteps (path : String) : List String :=
  path.splitOn "/"

namespace Directory

/-- The directory with files under given paths. -/
def ofFiles (files : List (String × File)) : Directory :=
  ⟨files.map fun (path, file) => (pathSteps path, file)⟩

/-- What lies at a place; there are directories outside, but nothing is known to be
in them. -/
def at? (d : Directory) : Option (List String) → Option File
  | none => some .directory
  | some place =>
    match d.entries.lookup place with
    | some file => some file
    | none =>
      if place.isEmpty || d.entries.any fun entry => place.isPrefixOf entry.1 then
        some .directory
      else
        none

/-- The place above another one. -/
def above : Option (List String) → Option (List String)
  | none | some [] => none
  | some place => some place.dropLast

/-- Follows steps from a place.  Only directories can be stepped in. -/
def follow (d : Directory) (place : Option (List String)) :
    List String → Except FileError File
  | [] =>
    match d.at? place with
    | none => .error .notFound
    | some file => .ok file
  | step :: rest =>
    match d.at? place with
    | none => .error .notFound
    | some (.regular _) => .error .notDirectory
    | some .directory =>
      if step = "" ∨ step = "." then follow d place rest
      else if step = ".." then follow d (above place) rest
      else
        match place with
        | none => .error .notFound
        | some place => follow d (some (place ++ [step])) rest

/-- What a path leads to.  A path with a leading slash begins outside. -/
def find (d : Directory) (path : String) : Except FileError File :=
  match pathSteps path with
  | "" :: steps => d.follow none steps
  | steps => d.follow (some []) steps

/-- The content of a file. -/
def read (d : Directory) (path : String) : Except FileError (List UInt8) :=
  match d.find path with
  | .error e => .error e
  | .ok (.regular content) => .ok content
  | .ok .directory => .error .isDirectory

/-- The source of a file's content.  That of a directory fails when it is read. -/
def openSource (d : Directory) (path : String) : Except FileError Source :=
  match d.find path with
  | .error e => .error e
  | .ok (.regular content) => .ok { ready := content }
  | .ok .directory => .ok { failure := some { text := FileError.isDirectory.message } }

end Directory

end IppCode
