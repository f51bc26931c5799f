import StylePrune.Files.Basic
import StylePrune.Text.Quoted

/-!
# Calls on a file tree

The calls by which files are read, written, removed, created and renamed.  Each finds its place by
walking the names of a path from the current directory or from the root; every place it walks
through has to be a directory.  A call either answers, with the changed tree where it changes one,
or fails for a cause and then changes nothing.
-/

namespace StylePrune

/-- Why a call fails. -/
inductive CallFailure where
  | notFound
  | busy
  | alreadyExists
  | notDirectory
  | isDirectory
  | invalidArgument
  | nameTooLong
  | notEmpty
  deriving DecidableEq, Repr

namespace CallFailure

/-- The number of a cause. -/
def code : CallFailure → Nat
  | notFound => 2
  | busy => 16
  | alreadyExists => 17
  | notDirectory => 20
  | isDirectory => 21
  | invalidArgument => 22
  | nameTooLong => 36
  | notEmpty => 39

/-- The wording of a cause. -/
def text : CallFailure → String
  | notFound => "No such file or directory"
  | busy => "Device or resource busy"
  | alreadyExists => "File exists"
  | notDirectory => "Not a directory"
  | isDirectory => "Is a directory"
  | invalidArgument => "Invalid argument"
  | nameTooLong => "File name too long"
  | notEmpty => "Directory not empty"

end CallFailure

namespace Files

/-- The greatest number of octets in a name. -/
def maxNameSize : Nat := 255

/-- The greatest number of octets in a path. -/
def maxPathSize : Nat := 4095

/-- The place that names lead to from a place.  Nothing needs to be there, but everything on the
way has to be a directory. -/
def walk (fs : Files) : Place → List String → Except CallFailure Place
  | place, [] => .ok place
  | place, name :: rest =>
    match fs.get? place with
    | some .directory =>
      if maxNameSize < name.utf8ByteSize then .error .nameTooLong
      else walk fs (Path.step place name) rest
    | some (.file _) => .error .notDirectory
    | none => .error .notFound

/-- The place that a path leads to. -/
def locate (fs : Files) (p : Path) : Except CallFailure Place :=
  if maxPathSize < p.toString.utf8ByteSize then .error .nameTooLong
  else fs.walk (if p.anchor = .relative then fs.here else []) p.names

/-- What a path leads to. -/
def entry (fs : Files) (p : Path) : Except CallFailure Entry := do
  match fs.get? (← fs.locate p) with
  | some e => return e
  | none => throw .notFound

/-- The contents of a file. -/
def read (fs : Files) (p : Path) : Except CallFailure (List UInt8) := do
  match ← fs.entry p with
  | .file bytes => return bytes
  | .directory => throw .isDirectory

/-- The tree with a file that has the given contents, created if it is new. -/
def write (fs : Files) (p : Path) (bytes : List UInt8) : Except CallFailure Files := do
  let place ← fs.locate p
  match fs.get? place with
  | some .directory => throw .isDirectory
  | _ => return fs.put place (.file bytes)

/-- The tree without a file. -/
def remove (fs : Files) (p : Path) : Except CallFailure Files := do
  let place ← fs.locate p
  match fs.get? place with
  | some (.file _) => return fs.erase place
  | some .directory => throw .isDirectory
  | none => throw .notFound

/-- The tree with a new directory. -/
def makeDir (fs : Files) (p : Path) : Except CallFailure Files := do
  let place ← fs.locate p
  match fs.get? place with
  | some _ => throw .alreadyExists
  | none => return fs.put place .directory

/-- Whether a path ends with the name of something in a directory. -/
def endsWithName (p : Path) : Bool := p.names != [] && p.names.getLast? != some ".."

/-- The tree in which a file or a directory has got the name of the second path, instead of the
file or the empty directory that may be there. -/
def rename (fs : Files) (p q : Path) : Except CallFailure Files := do
  let source ← fs.locate p
  let target ← fs.locate q
  if !endsWithName p || !endsWithName q then throw .busy
  match fs.get? source, fs.get? target with
  | none, _ => throw .notFound
  | some (.file _), some .directory => throw .isDirectory
  | some .directory, some (.file _) => throw .notDirectory
  | some .directory, some .directory =>
    if source = target then return fs
    else if source.isPrefixOf target then throw .invalidArgument
    else if fs.isEmptyAt target then return fs.move source target
    else throw .notEmpty
  | some e, _ =>
    if source = target then return fs
    else if e = .directory ∧ source.isPrefixOf target then throw .invalidArgument
    else return fs.move source target

/-- Whether two paths lead to the same thing. -/
def sameEntry (fs : Files) (p q : Path) : Bool :=
  match fs.locate p, fs.locate q with
  | .ok a, .ok b => a == b && (fs.get? a).isSome
  | _, _ => false

end Files

/-- A call that failed, with the path it was made with, and the second one if it has two; or a copy
of a file to itself. -/
inductive SystemError where
  | call (cause : CallFailure) (path : String) (target : Option String)
  | sameFile (source target : String)
  deriving DecidableEq, Repr

/-- The wording of a failed call. -/
def SystemError.message : SystemError → String
  | call cause path target =>
    "[Errno " ++ toString cause.code ++ "] " ++ cause.text ++ ": " ++ Text.quoteString path
      ++ (match target with
        | some t => " -> " ++ Text.quoteString t
        | none => "")
  | sameFile source target =>
    "PosixPath(" ++ Text.quoteString source ++ ") and PosixPath(" ++ Text.quoteString target
      ++ ") are the same file"

end StylePrune
