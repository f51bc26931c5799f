import StylePrune.Files.Calls
import StylePrune.Text.Utf8

/-!
# Faults

Everything that can end an operation before it has an answer, by its cause.  `Fault.message` has
the wording.
-/

namespace StylePrune

/-- Why a backup could not be taken or put back. -/
inductive BackupFault where
  | noFreshName (file : Path)
  | copyFailed (file : Path) (error : SystemError)
  | copyDiffers (file : Path)
  | notRecorded (file : Path) (error : SystemError)
  | copyMissing (copy : Path)
  | copyAltered (copy : Path)
  | restoreFailed (file : Path) (error : SystemError)
  deriving DecidableEq, Repr

/-- The wording of a fault with a backup. -/
def BackupFault.message : BackupFault → String
  | noFreshName file => "Could not find a free name for a backup of " ++ file.toString
  | copyFailed file error => "Could not back up " ++ file.toString ++ ": " ++ error.message
  | copyDiffers file => "Backup of " ++ file.toString ++ " does not match the original"
  | notRecorded file error =>
    "Could not record backup of " ++ file.toString ++ ": " ++ error.message
  | copyMissing copy => "Backup file not found: " ++ copy.toString
  | copyAltered copy => "Backup file was modified since it was taken: " ++ copy.toString
  | restoreFailed file error =>
    "Could not restore " ++ file.toString ++ ": " ++ error.message

/-- The two root directories of an analysis. -/
inductive RootKind where
  | styles
  | components
  deriving DecidableEq, Repr

/-- The word for a root directory. -/
def RootKind.word : RootKind → String
  | styles => "Styles"
  | components => "Components"

/-- What a request to stop was noticed in. -/
inductive Activity where
  | analysis
  | usageScan
  | deletion
  deriving DecidableEq, Repr

/-- The words for an activity. -/
def Activity.words : Activity → String
  | analysis => "Analysis"
  | usageScan => "Usage scan"
  | deletion => "Deletion"

/-- Why an operation ends without an answer. -/
inductive Fault where
  /-- A root directory is missing. -/
  | missingRoot (kind : RootKind) (path : Path)
  /-- No stylesheet was found. -/
  | noStylesheets (root : Path)
  /-- A backup could not be taken or put back. -/
  | backup (fault : BackupFault)
  /-- A request to stop was noticed between two files. -/
  | cancelled (activity : Activity)
  /-- A second request to stop came at once. -/
  | interrupted
  /-- The input ended where an answer was asked for. -/
  | inputEnded
  /-- A call on the file tree failed. -/
  | system (error : SystemError)
  /-- A path holds the character that ends names. -/
  | embeddedNull
  /-- The name of a variable holds the character that ends such names. -/
  | illegalVariable
  /-- A path has no last name that could be changed. -/
  | nameless (path : Path)
  /-- A file that should be a text is none. -/
  | undecodable (fault : Text.Utf8.Fault)
  /-- A text names no tier of confidence. -/
  | unknownConfidence (text : Text)
  /-- A setting has none of its values. -/
  | unknownSetting (setting : String) (choices : List String) (value : String)
  /-- Restoring needs a manifest. -/
  | noManifest
  /-- The manifest has no backup with an identifier. -/
  | unknownBackup (id : String)
  /-- A record lacks a member. -/
  | missingMember
  /-- A member was looked up by name in a value that is no record. -/
  | notARecord
  /-- An optional member was looked up in a value that is no record. -/
  | noMembers
  /-- A path in a record is no string. -/
  | notAPath
  /-- Two records cannot be put in order. -/
  | incomparable
  /-- A closing tag closes nothing. -/
  | unbalancedMarkup
  /-- The arguments of an action in markup are no literal. -/
  | malformedAction
  /-- A number in the name of a style has no digits. -/
  | emptyNumber
  /-- A value cannot be shown in a table. -/
  | unshowable
  deriving DecidableEq, Repr

/-- The wording of a fault; faults that no message is made of have none. -/
def Fault.message : Fault → String
  | missingRoot kind path => kind.word ++ " directory does not exist: " ++ path.toString
  | noStylesheets root => "No stylesheet files found under " ++ root.toString
  | backup fault => fault.message
  | cancelled activity => activity.words ++ " cancelled"
  | system error => error.message
  | embeddedNull => "embedded null byte"
  | illegalVariable => "illegal environment variable name"
  | nameless path =>
    "PosixPath(" ++ Text.quoteString path.toString ++ ") has an empty name"
  | undecodable fault => fault.message
  | unknownConfidence text => "Unknown confidence level: " ++ String.ofList (Text.quote text)
  | unknownSetting setting choices value =>
    setting ++ " must be one of " ++ String.intercalate ", " choices ++ ", got '" ++ value ++ "'."
  | emptyNumber => "invalid literal for int() with base 10: ''"
  | noManifest => "Restore requires a backup manifest"
  | unknownBackup id => "Backup ID not found: " ++ id
  | interrupted | inputEnded | missingMember | notARecord | noMembers | notAPath | incomparable
  | unbalancedMarkup | malformedAction | unshowable => ""

end StylePrune
