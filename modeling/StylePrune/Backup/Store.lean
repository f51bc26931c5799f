import StylePrune.Backup.Manifest

/-!
# Backups

Before a stylesheet is changed it is copied aside, octet by octet, under a name that nothing has
yet.  A store of backups takes such copies, records them in its manifest if it has one, and puts
them back: one copy at once (`rollback`), one by its identifier (`restore`), or all that are
recorded and not restored, the newest first (`restoreAll`), so that a stylesheet that was copied
several times ends as it was at first.
-/

namespace StylePrune

/-- A copy of a stylesheet as it was before it was changed. -/
structure Backup where
  file : Path
  copy : Path
  stamp : String
  id : String
  deriving DecidableEq, Repr

/-- Where backups are recorded, if anywhere. -/
structure BackupStore where
  manifest : Option Manifest := none
  deriving DecidableEq, Repr

namespace BackupStore

/-- Runs a job and gives each failed call another fault. -/
def explaining (explain : SystemError → BackupFault) (job : Job α) : Job α := do
  try job
  catch
    | .system error => throw (.backup (explain error))
    | fault => throw fault

/-- A path for a copy that nothing has yet.  While the path at hand is in use, a token is drawn for
another one; at most `n` paths are tried. -/
def freshPath (file : Path) (stamp : String) : Nat → Path → Job Path
  | 0, _ => throw (.backup (.noFreshName file))
  | n + 1, candidate => do
    if !(← Job.doesExist candidate) then return candidate
    let token ← Job.token
    let name := file.name?.getD "" ++ "." ++ stamp ++ "_" ++ token ++ ".bak"
    freshPath file stamp n (← Job.withName file name)

/-- Copies a file aside and records the copy.  One path more is tried than there are entries, so
tokens that are all different give a free one. -/
def take (m : BackupStore) (file : Path) : Job Backup := do
  let stamp := (← get).now.stamp
  let first ← Job.withName file (file.name?.getD "" ++ "." ++ stamp ++ ".bak")
  let copy ← freshPath file stamp ((← get).files.entries.length + 1) first
  let (before, after) ← explaining (.copyFailed file) do
    Job.copy file copy
    return (← Job.hash file, ← Job.hash copy)
  if before != after then throw (.backup (.copyDiffers file))
  let id := stamp ++ "_" ++ (← Job.token)
  if let some manifest := m.manifest then
    explaining (.notRecorded file) do
      let file ← Job.resolve file
      let copy ← Job.resolve copy
      manifest.add id file.toString copy.toString stamp after Manifest.defaultReason
  return { file, copy, stamp, id }

/-- Puts a copy in the place of the file it was taken of, under another name first. -/
def copyBack (copy file : Path) : Job Unit := do
  if !(← Job.doesExist copy) then throw (.backup (.copyMissing copy))
  let temporary ← Job.withName file ("." ++ file.name?.getD "" ++ ".restore.tmp")
  try
    Job.makeDirs file.parent
    Job.copy copy temporary
    Job.rename temporary file
  catch
    | .system error =>
      Job.removeIfPresent temporary
      throw (.backup (.restoreFailed file error))
    | fault => throw fault

/-- Puts a copy back. -/
def rollback (m : BackupStore) (b : Backup) : Job Unit := do
  copyBack b.copy b.file
  if let some manifest := m.manifest then
    if b.id != "" then manifest.markRestored (.str b.id)

/-- The manifest, which restoring needs. -/
def needManifest (m : BackupStore) : Job Manifest :=
  match m.manifest with
  | some manifest => return manifest
  | none => throw .noManifest

/-- The path that a member of a record holds. -/
def pathIn (record : Json) (name : String) : Except Fault Path := do
  match ← Manifest.need record name with
  | .str s => return Path.ofString s
  | _ => throw .notAPath

/-- Puts the copy of one record back, if it is as it was when it was taken.  A record that is
restored already is left alone. -/
def restore (m : BackupStore) (id : Json) : Job Unit := do
  let manifest ← m.needManifest
  let some record ← manifest.find? id | throw (.unknownBackup id.describe)
  if ← Job.ofExcept (Manifest.isRestored record) then return
  let copy ← Job.ofExcept (pathIn record "backup_path")
  if !(← Job.doesExist copy) then throw (.backup (.copyMissing copy))
  let hash ← Job.hash copy
  if !(Json.str hash).agrees (← Job.ofExcept (Manifest.need record "file_hash")) then
    throw (.backup (.copyAltered copy))
  copyBack copy (← Job.ofExcept (pathIn record "original_path"))
  manifest.markRestored id

/-- What a batch has restored, and what went wrong. -/
structure Restoration where
  restored : List Json := []
  errors : List String := []
  deriving Repr

/-- Whether a fault with one record leaves the others to be restored: a failed call, a fault with a
backup, an unknown identifier or a file that is no text. -/
def isPassedOver : Fault → Bool
  | .system _ | .backup _ | .unknownBackup _ | .noManifest | .undecodable _ | .embeddedNull
  | .nameless _ => true
  | _ => false

/-- Restores records one after the other. -/
def restoreEach (m : BackupStore) : List Json → Restoration → Job Restoration
  | [], r => return r
  | record :: rest, r => do
    let id ← Job.ofExcept (Manifest.need record "id")
    let r ← try
        m.restore id
        pure { r with restored := r.restored ++ [record] }
      catch fault =>
        if isPassedOver fault then
          pure { r with errors := r.errors ++ [id.describe ++ ": " ++ fault.message] }
        else throw fault
    restoreEach m rest r

/-- Restores all records that are not restored yet, newest first. -/
def restoreAll (m : BackupStore) : Job Restoration := do
  let manifest ← m.needManifest
  m.restoreEach (← manifest.unrestored) {}

end BackupStore

end StylePrune
