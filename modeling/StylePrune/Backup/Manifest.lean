import StylePrune.Json.Order
import StylePrune.Json.Printer
import StylePrune.Json.Reader
import StylePrune.Job

/-!
# The manifest of backups

A manifest is a file that lists the backups taken, oldest first.  Every operation reads the file,
and those that change it write it anew, under another name first.  A manifest that is missing or
is none counts as an empty one.  Records may have been edited by hand, so a record is any JSON
value, and what an operation needs of it is looked for when it is needed.
-/

namespace StylePrune

/-- The directory in which the manifest of backups is kept. -/
structure Manifest where
  directory : Path
  deriving DecidableEq, Repr

namespace Manifest

/-- The contents of a manifest: the members of its object, of which one lists the backups. -/
structure Contents where
  members : Json.Members
  deriving Repr

/-- The version that is written. -/
def version : String := "1.0"

/-- The manifest before the first backup. -/
def Contents.empty : Contents := ⟨[("version", .str version), ("backups", .arr [])]⟩

/-- The records of the backups. -/
def Contents.backups (c : Contents) : List Json :=
  match Json.member? c.members "backups" with
  | some (.arr records) => records
  | _ => []

/-- The contents with other records. -/
def Contents.setBackups (c : Contents) (records : List Json) : Contents :=
  ⟨Json.setMember c.members "backups" (.arr records)⟩

/-- The contents that a JSON value stands for, if it is an object that lists backups. -/
def Contents.ofJson? : Json → Option Contents
  | .obj members =>
    match Json.member? members "backups" with
    | some (.arr _) => some ⟨members⟩
    | _ => none
  | _ => none

/-- The contents that a text stands for; a text that is no manifest stands for an empty one. -/
def Contents.ofText (t : Text) : Contents := ((Json.read? t).bind ofJson?).getD .empty

/-- The contents as a text. -/
def Contents.toText (c : Contents) : Text := Json.renderAt .minimal 0 (.obj c.members)

/-- A new record. -/
def newRecord (id file copy stamp created reason hash : String) : Json :=
  .obj [("id", .str id), ("original_path", .str file), ("backup_path", .str copy),
    ("timestamp", .str stamp), ("created_at", .str created), ("reason", .str reason),
    ("file_hash", .str hash), ("restored", .bool false)]

/-- Why a backup is taken, where nothing else is said. -/
def defaultReason : String := "class_removal"

/-! ### Looking into records -/

/-- A member that a record has to have. -/
def need (record : Json) (name : String) : Except Fault Json :=
  match record with
  | .obj members =>
    match Json.member? members name with
    | some value => .ok value
    | none => .error .missingMember
  | _ => .error .notARecord

/-- A member that a record may have, or else the given value. -/
def optional (record : Json) (name : String) (default : Json) : Except Fault Json :=
  match record with
  | .obj members => .ok ((Json.member? members name).getD default)
  | _ => .error .noMembers

/-- Whether a record is marked as restored. -/
def isRestored (record : Json) : Except Fault Bool := do
  return (← optional record "restored" (.bool false)).holds

/-- The first record with an identifier. -/
def findRecord (id : Json) : List Json → Except Fault (Option Json)
  | [] => return none
  | record :: rest => do
    if (← need record "id").agrees id then return some record
    findRecord id rest

/-- The record marked as restored. -/
def markRecord : Json → Json
  | .obj members => .obj (Json.setMember members "restored" (.bool true))
  | record => record

/-- The records with the first one with an identifier marked as restored. -/
def markRecords (id : Json) : List Json → Except Fault (List Json)
  | [] => return []
  | record :: rest => do
    if (← need record "id").agrees id then return markRecord record :: rest
    return record :: (← markRecords id rest)

/-- The records that are not marked as restored. -/
def unrestoredOf : List Json → Except Fault (List Json)
  | [] => return []
  | record :: rest => do
    let restored ← isRestored record
    let others ← unrestoredOf rest
    return if restored then others else record :: others

/-- The time of creation of a record, by which records are put in order. -/
def createdOf (record : Json) : Json :=
  match optional record "created_at" (.str "") with
  | .ok created => created
  | .error _ => .str ""

/-- Whether the times of creation of all records can be compared with each other. -/
def comparable (records : List Json) : Bool :=
  match records with
  | [] => true
  | record :: rest =>
    rest.all (fun r => ((createdOf record).less? (createdOf r)).isSome) && comparable rest

/-- Records with the newest first; of two with one time of creation the first comes first. -/
def newestFirst (records : List Json) : List Json :=
  records.mergeSort fun a b => !((createdOf a).less? (createdOf b)).getD false

/-! ### The file -/

/-- The path of the manifest. -/
def path (m : Manifest) : Path := m.directory.child "manifest.json"

/-- The path under which a new manifest is written before it takes the place of the old one. -/
def temporaryPath (m : Manifest) : Path := m.directory.child "manifest.tmp"

/-- The contents of the manifest; one that cannot be read is empty. -/
def read (m : Manifest) : Job Contents := do
  try return Contents.ofText (← Job.readText m.path)
  catch
    | .system _ => return .empty
    | fault => throw fault

/-- Writes the manifest. -/
def write (m : Manifest) (c : Contents) : Job Unit := do
  Job.makeDirs m.directory
  Job.writeText m.temporaryPath c.toText
  Job.rename m.temporaryPath m.path

/-- Adds a record of a backup that is taken now. -/
def add (m : Manifest) (id file copy stamp hash reason : String) : Job Unit := do
  let contents ← m.read
  let record := newRecord id file copy stamp (← get).now.iso reason hash
  m.write (contents.setBackups (contents.backups ++ [record]))

/-- The first record with an identifier. -/
def find? (m : Manifest) (id : Json) : Job (Option Json) := do
  Job.ofExcept (findRecord id (← m.read).backups)

/-- Marks the first record with an identifier as restored. -/
def markRestored (m : Manifest) (id : Json) : Job Unit := do
  let contents ← m.read
  m.write (contents.setBackups (← Job.ofExcept (markRecords id contents.backups)))

/-- All records, in the order in which they were added. -/
def all (m : Manifest) : Job (List Json) := do return (← m.read).backups

/-- The records that are not marked as restored, newest first. -/
def unrestored (m : Manifest) : Job (List Json) := do
  let pending ← Job.ofExcept (unrestoredOf (← m.all))
  if !comparable pending then throw .incomparable
  return newestFirst pending

end Manifest

end StylePrune
