import StylePrune.Job
import StylePrune.Text.LowerCase
import StylePrune.Text.Lines

/-!
# Finding and reading files

`Files.discover` lists the files below a directory whose suffix is one of the wanted ones, in the
order of their places, name by name.  Directories of build results, of dependencies and of version
control are passed over, wherever they stand below the root; but they are gone into, so that
`Job.filesBelow` fails where the path of something in them is too long.

`Job.readSource` reads a file as a text.  A file that cannot be read, or has nothing in it, is
passed over with a warning.
-/

namespace StylePrune

namespace Files

/-- The suffixes of stylesheets. -/
def stylesheetSuffixes : List String := [".scss", ".css"]

/-- The suffixes of component sources. -/
def componentSuffixes : List String := [".tsx", ".jsx", ".ts", ".js", ".vue", ".html", ".svelte"]

/-- The directories that are passed over. -/
def passedOver : List String :=
  ["node_modules", ".git", "dist", "build", "coverage", ".next", ".nuxt", ".output", ".cache",
    "vendor", ".venv", "venv", "__pycache__", ".stylesweep"]

/-- Whether the last of some names has one of the suffixes. -/
def hasSuffix (suffixes : List String) (names : Place) : Bool :=
  suffixes.contains (Text.lowerString (Path.suffixOf (names.getLast?.getD "")))

/-- Whether a file with the given names below the root is wanted. -/
def isWanted (suffixes : List String) (names : Place) : Bool :=
  hasSuffix suffixes names && !names.dropLast.any passedOver.contains

/-- Whether a place is not behind another one. -/
def placeNotAfter (p q : Place) : Bool := !decide (q < p)

/-- The names of the wanted files below a root, in order. -/
def discover (fs : Files) (root : Place) (suffixes : List String) : List Place :=
  let suffixes := suffixes.map Text.lowerString
  let found := (fs.below root).filterMap fun (names, e) =>
    match e with
    | .file _ => if isWanted suffixes names then some names else none
    | .directory => none
  found.mergeSort placeNotAfter

/-- The names of what is looked at below a root: every directory, which is gone into, and everything
that has one of the suffixes. -/
def lookedAt (fs : Files) (root : Place) (suffixes : List String) : List Place :=
  let suffixes := suffixes.map Text.lowerString
  ((fs.below root).filter fun (names, e) => e == .directory || hasSuffix suffixes names).map (·.1)

end Files

namespace Job

/-- Looks up what each of some paths leads to. -/
def lookUp : List Path → Job Unit
  | [] => return
  | p :: rest => do
    let _ ← find? p
    lookUp rest

/-- The wanted files below a directory, in order.  Whatever is looked at on the way has to have a path
that can be used. -/
def filesBelow (root : Path) (suffixes : List String) : Job (List Path) := do
  let root ← resolve root
  if !(← isDirectory root) then return []
  let files := (← get).files
  let pathOf (names : Place) : Path := Path.fromRoot (root.names ++ names)
  lookUp ((files.lookedAt root.names suffixes).map pathOf)
  return (files.discover root.names suffixes).map pathOf

/-- The text of a source file with its line ends made one.  A file that cannot be read or is blank
is passed over with a warning. -/
def readSource (p : Path) : Job (Option Text) := do
  let unreadable (message : String) : Job (Option Text) := do
    warn "read" ("Skipped unreadable file (" ++ message ++ ")") (some p)
    return none
  try
    let t := Text.unifyLineEnds (← readText p)
    if Text.blank t then
      warn "empty" "Skipped empty file" (some p)
      return none
    return some t
  catch
    | .system error => unreadable error.message
    | .undecodable fault => unreadable fault.message
    | fault => throw fault

end Job

end StylePrune
