import StylePrune.Backup.Store
import StylePrune.Oversight
import StylePrune.Prune.Removal

/-!
# Carrying out a plan

`Plan.pruneFile` removes class names from one stylesheet, and `Plan.run` works through a plan
stylesheet by stylesheet.  A dry run does everything but write.  A live run copies the stylesheet
aside first, if it is to, and writes the new text under another name, which then takes the place
of the old one; if that fails the copy is put back.  What goes wrong with one stylesheet is
reported on its outcome and leaves the others alone.
-/

namespace StylePrune.Prune

/-- Why a stylesheet was not changed. -/
inductive PruneError where
  | unreadable (message : String)
  | notBackedUp (fault : BackupFault)
  | notWritten (error : SystemError) (rollback : Option BackupFault)
  deriving DecidableEq, Repr

/-- The wording of an error. -/
def PruneError.message : PruneError → String
  | unreadable message => "Could not read file: " ++ message
  | notBackedUp fault => "Backup failed, file left untouched: " ++ fault.message
  | notWritten error rollback =>
    "Write failed: " ++ error.message
      ++ (match rollback with
        | some fault => "; rollback failed: " ++ fault.message
        | none => "")

/-- What has become of one stylesheet of a plan. -/
structure Outcome where
  file : Path
  dryRun : Bool
  removed : List Text := []
  blocks : Nat := 0
  changed : Bool := false
  written : Bool := false
  skipped : Bool := false
  backup : Option Backup := none
  anomalies : List Anomaly := []
  error : Option PruneError := none
  deriving DecidableEq, Repr

/-- How a plan is carried out: without writing, and with copies taken first. -/
structure Options where
  dryRun : Bool := true
  createBackup : Bool := true
  deriving DecidableEq, Repr

/-- What is to be removed, stylesheet by stylesheet. -/
abbrev Plan := List (String × List ClassDefinition)

/-- Gives a file a new text, under another name first. -/
def writeInPlace (file : Path) (t : Text) : Job Unit := do
  let temporary ← Job.withName file ("." ++ file.name?.getD "" ++ ".stylesweep.tmp")
  try
    Job.writeText temporary t
    Job.rename temporary file
  catch
    | .system error =>
      Job.removeIfPresent temporary
      throw (.system error)
    | fault => throw fault

namespace Plan

/-- The outcome with an error, which is also logged. -/
def fail (outcome : Outcome) (category : String) (error : PruneError) : Job Outcome := do
  Job.warn category error.message (some outcome.file)
  return { outcome with error := some error }

/-- The text of a stylesheet, or what is wrong with it. -/
def readStylesheet (file : Path) : Job (Except String Text) := do
  try return .ok (← Job.readText file)
  catch
    | .system error => return .error error.message
    | .undecodable fault => return .error fault.message
    | fault => throw fault

/-- The copy of a stylesheet, or why there is none. -/
def tryBackup (backups : BackupStore) (file : Path) : Job (Except BackupFault Backup) := do
  try return .ok (← backups.take file)
  catch
    | .backup fault => return .error fault
    | fault => throw fault

/-- Puts a copy back after a failed write, and says why that failed, if it did. -/
def tryRollback (backups : BackupStore) (copy : Option Backup) : Job (Option BackupFault) := do
  let some copy := copy | return none
  try
    backups.rollback copy
    return none
  catch
    | .backup fault => return some fault
    | fault => throw fault

/-- Writes a stylesheet, and puts its copy back if that fails. -/
def replace (backups : BackupStore) (outcome : Outcome) (t : Text) : Job Outcome := do
  let failure ← try
      writeInPlace outcome.file t
      pure none
    catch
      | .system error => pure (some error)
      | fault => throw fault
  match failure with
  | none => return { outcome with written := true }
  | some error =>
    fail outcome "write" (.notWritten error (← tryRollback backups outcome.backup))

/-- Removes class names from one stylesheet. -/
def pruneFile (backups : BackupStore) (options : Options) (file : Path) (names : List Text) :
    Job Outcome := do
  let outcome : Outcome := { file, dryRun := options.dryRun }
  match ← readStylesheet file with
  | .error message => fail outcome "read" (.unreadable message)
  | .ok source =>
    let removal := remove source names
    let changed := removal.text != source
    let outcome :=
      { outcome with
        removed := removal.removed, blocks := removal.blocks, anomalies := removal.anomalies
        changed }
    for anomaly in removal.anomalies do
      Job.warn "parse" anomaly.message (some file)
    if !changed || options.dryRun then return outcome
    if options.createBackup then
      match ← tryBackup backups file with
      | .error fault => fail outcome "backup" (.notBackedUp fault)
      | .ok copy => replace backups { outcome with backup := some copy } removal.text
    else replace backups outcome removal.text

/-- What somebody who oversees a plan does: asks for a stop, is asked about each stylesheet before
it is changed, and is told of each that is done. -/
structure Supervisor (σ : Type) where
  stops : σ → Bool
  confirm : Option (Path → List ClassDefinition → Overseer σ Bool) := none
  applied : Overseer σ Unit := pure ()

/-- Whether a stylesheet may be worked on.  Only in a live run is anybody asked. -/
def permits (supervisor : Supervisor σ) (options : Options) (file : Path)
    (definitions : List ClassDefinition) : Overseen σ Bool :=
  match supervisor.confirm with
  | some confirm =>
    if options.dryRun then return true else Overseen.overseer (confirm file definitions)
  | none => return true

/-- Works through a plan, stylesheet by stylesheet. -/
def run (backups : BackupStore) (options : Options) (supervisor : Supervisor σ) :
    Plan → Overseen σ (List Outcome)
  | [] => return []
  | (name, definitions) :: rest => do
    Overseen.checkpoint supervisor.stops .deletion
    if definitions = [] then run backups options supervisor rest
    else
      let file := Path.ofString name
      let outcome ←
        if ← permits supervisor options file definitions then do
          let outcome ← Overseen.job
            (pruneFile backups options file (definitions.map ClassDefinition.name))
          Overseen.overseer supervisor.applied
          pure outcome
        else pure { file, dryRun := options.dryRun, skipped := true }
      return outcome :: (← run backups options supervisor rest)

end Plan

/-! ### What a run has done -/

/-- The outcomes of stylesheets that changed, or would have. -/
def changedOf (outcomes : List Outcome) : List Outcome := outcomes.filter Outcome.changed

/-- The outcomes of stylesheets that were written. -/
def writtenOf (outcomes : List Outcome) : List Outcome := outcomes.filter Outcome.written

/-- The number of blocks removed without an error. -/
def blocksOf (outcomes : List Outcome) : Nat :=
  (outcomes.filter fun o => o.error.isNone).foldr (fun o n => o.blocks + n) 0

/-- The stylesheets with an error. -/
def errorsOf (outcomes : List Outcome) : List (Path × PruneError) :=
  outcomes.filterMap fun o => o.error.map fun e => (o.file, e)

end StylePrune.Prune
