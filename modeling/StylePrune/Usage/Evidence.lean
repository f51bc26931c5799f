import StylePrune.Files.Discovery
import StylePrune.Oversight
import StylePrune.Text.Order
import StylePrune.Usage.Marker

/-!
# Scanning components for class names

Every component source is searched for every candidate name.  A hit is recorded once for each name
and file.  Between two files a request to stop is obeyed.
-/

namespace StylePrune.Usage

/-- Evidence that a class name stands in a component source. -/
structure Record where
  name : Text
  file : String
  deriving DecidableEq, Repr

/-- What a scan has found, and the number of files it could read. -/
structure Findings where
  records : List Record := []
  scanned : Nat := 0
  deriving DecidableEq, Repr

/-- Adds records that are not there yet. -/
def addRecords (records new : List Record) : List Record :=
  new.foldl (fun rs r => if r ∈ rs then rs else rs ++ [r]) records

/-- The records of a text in a file. -/
def recordsIn (names : List Text) (file : String) (t : Text) : List Record :=
  let ends := markerEnds t
  (names.filter fun name => isUsedAfter ends name t).map fun name => { name, file }

/-- Scans files one after the other, `done` of them being scanned already; `onFile` is told of each
file when it is done, and of how many are. -/
def scanFiles (stops : σ → Bool) (onFile : Nat → Path → Overseer σ Unit) (names : List Text) :
    Nat → List Path → Findings → Overseen σ Findings
  | _, [], found => return found
  | done, file :: rest, found => do
    Overseen.checkpoint stops .usageScan
    let found ← match ← Overseen.job (Job.readSource file) with
      | none => pure found
      | some t =>
        pure { records := addRecords found.records (recordsIn names file.toString t)
               scanned := found.scanned + 1 }
    Overseen.overseer (onFile (done + 1) file)
    scanFiles stops onFile names (done + 1) rest found

/-- The names to look for, each once and in order. -/
def searched (names : List Text) : List Text := Text.sorted names.eraseDups

/-- Scans all component sources below a directory. -/
def findUsage (names : List Text) (root : Path) : Job Findings := do
  let files ← Job.filesBelow root Files.componentSuffixes
  Overseen.alone (scanFiles (fun _ => false) (fun _ _ => pure ()) (searched names) 0 files {})

end StylePrune.Usage
