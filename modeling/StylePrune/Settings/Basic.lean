import StylePrune.Confidence
import StylePrune.Exclusion
import StylePrune.Files.Discovery
import StylePrune.Settings.References
import StylePrune.Text.LowerCase

/-!
# Settings

The settings of a run come from its environment and from a settings file, which the environment
overrides.  What neither sets has a default.  The bindings of a settings file become variables of
the run, so each of them has to be fit for one, whether or not it is a setting.
-/

namespace StylePrune

/-- How findings are shown. -/
inductive Format where
  | summary
  | detailed
  | json
  deriving DecidableEq, Repr

namespace Format

/-- The formats in the order in which they are listed. -/
def all : List Format := [summary, detailed, json]

/-- The word for a format. -/
def word : Format → String
  | summary => "summary"
  | detailed => "detailed"
  | json => "json"

/-- The format with a word. -/
def ofWord? (w : String) : Option Format := all.find? (·.word == w)

end Format

/-- The settings of a run. -/
structure Settings where
  stylesDir : String := "src/styles"
  componentsDir : String := "src"
  patterns : List Text := Exclusion.defaultPatterns
  confidence : Confidence := .medium
  format : Format := .summary
  backups : Bool := true
  deriving DecidableEq, Repr

namespace Settings

/-- The value of a variable: of the environment, or else of the settings file. -/
def lookUp? (env : Environment) (bindings : List Bindings.Binding) (name : String) :
    Option String :=
  let value :=
    match env.value? name.toList with
    | some value => some value
    | none => Bindings.value? bindings name.toList
  value.map String.ofList

/-- Why a name and a value cannot become a variable, if they cannot. -/
def misfit? (name value : Text) : Option Fault :=
  if name.contains (Char.ofNat 0) || value.contains (Char.ofNat 0) then some .embeddedNull
  else if name.contains '=' then some .illegalVariable
  else none

/-- Why the first binding that cannot become a variable cannot.  Each name counts where it is bound
first, with the value that it is given last; those of the environment do not count. -/
def firstMisfit? (env : Environment) (bindings : List Bindings.Binding) : Option Fault :=
  (bindings.map (·.1)).eraseDups.findSome? fun name =>
    if (env.value? name).isSome then none
    else (Bindings.value? bindings name).bind (misfit? name)

/-- What the names of all settings start with. -/
def programMark : String := "STYLESWEEP_"

/-- The variables that are settings. -/
def variableNames : List String :=
  ["STYLES_DIR", "COMPONENTS_DIR", "EXCLUDE", "CONFIDENCE", "FORMAT", "BACKUP"].map
    (programMark ++ ·)

/-- A value without blanks around it, in lower case. -/
def normal (s : String) : String := String.ofList (Text.lowerCase (Text.trim s.toList))

/-- The words that switch something on. -/
def onWords : List String := ["1", "true", "yes", "on"]

/-- The patterns in a list between commas. -/
def patternsOf (s : String) : List Text :=
  ((Text.splitOn ',' s.toList).map Text.trim).filter (· != [])

/-- A setting with one of several words as its value. -/
def choice (name : String) (choices : List String) (ofWord? : String → Option α) (default : α)
    (value : Option String) : Except Fault α :=
  match value.map normal with
  | none => .ok default
  | some word =>
    match ofWord? word with
    | some x => .ok x
    | none => .error (.unknownSetting name choices word)

/-- The settings that an environment and bindings without references make. -/
def ofBindings (env : Environment) (bindings : List Bindings.Binding) : Except Fault Settings := do
  let get (name : String) : Option String := lookUp? env bindings (programMark ++ name)
  let default : Settings := {}
  let confidence ← choice (programMark ++ "CONFIDENCE") (Confidence.all.map Confidence.word)
    (fun w => Confidence.all.find? (·.word == w)) default.confidence (get "CONFIDENCE")
  let format ← choice (programMark ++ "FORMAT") (Format.all.map Format.word) Format.ofWord?
    default.format (get "FORMAT")
  return {
    stylesDir := (get "STYLES_DIR").getD default.stylesDir
    componentsDir := (get "COMPONENTS_DIR").getD default.componentsDir
    patterns := ((get "EXCLUDE").map patternsOf).getD default.patterns
    confidence, format
    backups := ((get "BACKUP").map fun v => onWords.contains (normal v)).getD default.backups }

/-- The settings that an environment and the statements of a settings file make. -/
def of (env : Environment) (statements : List Bindings.Statement) : Except Fault Settings :=
  let bindings := References.resolve env (statements.filterMap (·.binding?))
  match firstMisfit? env bindings with
  | some fault => .error fault
  | none => ofBindings env bindings

/-- The statements of a settings file; none if there is no such file. -/
def readFile (file : Path) : Job (List Bindings.Statement) := do
  if Job.hasNull file then throw .embeddedNull
  match (← get).files.entry file with
  | .ok (.file _) => return Bindings.read (← Job.readText file)
  | _ => return []

/-- Reads a settings file, which may be missing, and makes the settings. -/
def load (env : Environment) (file : Path) : Job Settings := do
  Job.ofExcept (of env (← readFile file))

end Settings

end StylePrune
