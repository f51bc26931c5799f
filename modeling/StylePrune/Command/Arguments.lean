import StylePrune.Settings.Basic
import StylePrune.Text.Shape

/-!
# Arguments

The command line names a command, its options and its operands.  A long option takes its value from
behind an equals sign or from the next argument, a short one from the rest of its own argument or
from the next one; short options without values may stand together behind one hyphen.  Two hyphens
alone end the options.  Of an option given twice the last one counts, unless it collects its values.
-/

namespace StylePrune.Command

/-- How an option is used up. -/
inductive OptionKind where
  /-- The option is a switch. -/
  | switch
  /-- The option has a value. -/
  | valued
  deriving DecidableEq, Repr

/-- An option as it is written, and the name under which its use is recorded. -/
structure OptionSpec where
  long : Option String := none
  short : Option Char := none
  kind : OptionKind := .switch
  key : String
  deriving DecidableEq, Repr

/-- A use of an option, with its value if it has one. -/
structure OptionUse where
  key : String
  value : Option String := none
  deriving DecidableEq, Repr

/-- Options and operands, each in the order of the command line. -/
structure Parsed where
  uses : List OptionUse := []
  operands : List String := []
  deriving DecidableEq, Repr

namespace Parsed

/-- Whether an option was used. -/
def has (p : Parsed) (key : String) : Bool := p.uses.any (·.key == key)

/-- The last value of an option. -/
def value? (p : Parsed) (key : String) : Option String :=
  (p.uses.reverse.find? (·.key == key)).bind OptionUse.value

/-- All values of an option. -/
def values (p : Parsed) (key : String) : List String :=
  (p.uses.filter (·.key == key)).filterMap OptionUse.value

/-- Which of two opposite switches was used last, the first one being on. -/
def switch? (p : Parsed) (on off : String) : Option Bool :=
  (p.uses.reverse.find? fun u => u.key == on || u.key == off).map (·.key == on)

/-- An operand that is there and not empty. -/
def operand? (p : Parsed) (n : Nat) : Option String :=
  p.operands[n]?.bind fun s => if s = "" then none else some s

end Parsed

/-- The short options in an argument, behind the hyphen; a value that is not in the argument is the
next one.  The answer holds the uses and the arguments left. -/
def readShort (specs : List OptionSpec) (rest : List String) :
    Text → Option (List OptionUse × List String)
  | [] => some ([], rest)
  | c :: t => do
    let spec ← specs.find? (·.short == some c)
    match spec.kind with
    | .switch =>
      let (uses, rest) ← readShort specs rest t
      return ({ key := spec.key } :: uses, rest)
    | .valued =>
      if t ≠ [] then return ([{ key := spec.key, value := some (String.ofList t) }], rest)
      match rest with
      | value :: rest => return ([{ key := spec.key, value := some value }], rest)
      | [] => none

/-- A long option, given by its name and the value behind its equals sign. -/
def readLong (spec : OptionSpec) (attached : Option String) (rest : List String) :
    Option (List OptionUse × List String) :=
  match spec.kind, attached, rest with
  | .switch, none, rest => some ([{ key := spec.key }], rest)
  | .switch, some _, _ => none
  | .valued, some value, rest => some ([{ key := spec.key, value := some value }], rest)
  | .valued, none, value :: rest => some ([{ key := spec.key, value := some value }], rest)
  | .valued, none, [] => none

/-- The options of an argument that starts with a hyphen. -/
def readOption (specs : List OptionSpec) (arg : String) (rest : List String) :
    Option (List OptionUse × List String) :=
  let cs := arg.toList
  let name := String.ofList (cs.takeWhile (· != '='))
  let attached := match cs.dropWhile (· != '=') with
    | _ :: value => some (String.ofList value)
    | [] => none
  match specs.find? (·.long == some name) with
  | some spec => readLong spec attached rest
  | none => if ['-', '-'].isPrefixOf cs then none else readShort specs rest (cs.drop 1)

/-- Whether an argument is made of options. -/
def isOption (arg : String) : Bool :=
  match arg.toList with
  | '-' :: _ :: _ => true
  | _ => false

/-- At most `n` arguments taken apart; operands end the options if `interspersed` does not hold. -/
def readArguments (specs : List OptionSpec) (interspersed : Bool) :
    Nat → List String → Option Parsed
  | 0, args => some { operands := args }
  | _, [] => some {}
  | n + 1, arg :: rest =>
    if arg = "--" then some { operands := rest }
    else if isOption arg then do
      let (uses, rest) ← readOption specs arg rest
      let others ← readArguments specs interspersed n rest
      return { others with uses := uses ++ others.uses }
    else if interspersed then do
      let others ← readArguments specs interspersed n rest
      return { others with operands := arg :: others.operands }
    else some { operands := arg :: rest }

/-- The arguments of a command taken apart. -/
def parse (specs : List OptionSpec) (interspersed : Bool) (args : List String) : Option Parsed :=
  readArguments specs interspersed (args.length + 1) args

/-- One of several words, in any case. -/
def chooseWord (words : List String) (value : String) : Option String :=
  words.find? fun w => w.toList == value.toList.map Text.foldCase

/-! ### The commands -/

/-- The option that shows the help. -/
def helpOption : OptionSpec := { long := some "--help", key := "help" }

/-- The options in front of a command. -/
def globalOptions : List OptionSpec := [{ long := some "--version", key := "version" }, helpOption]

/-- The options of an analysis. -/
def analysisOptions : List OptionSpec :=
  [{ long := some "--exclude", short := some 'e', kind := .valued, key := "exclude" },
    { long := some "--confidence", short := some 'c', kind := .valued, key := "confidence" },
    { long := some "--format", short := some 'f', kind := .valued, key := "format" },
    helpOption]

/-- The options of the command that reports. -/
def auditOptions : List OptionSpec :=
  { long := some "--output", short := some 'o', kind := .valued, key := "output" }
    :: analysisOptions

/-- The options of the command that removes. -/
def cleanOptions : List OptionSpec :=
  [{ long := some "--dry-run", key := "dry" }, { long := some "--no-dry-run", key := "live" },
    { long := some "--backup", key := "backup" },
    { long := some "--no-backup", key := "no-backup" },
    { long := some "--interactive", short := some 'i', key := "interactive" },
    { long := some "--yes", short := some 'y', key := "yes" }] ++ analysisOptions

/-- The options of the command that restores. -/
def restoreOptions : List OptionSpec :=
  [{ long := some "--id", kind := .valued, key := "id" }, helpOption]

/-- What an analysis is asked for on the command line. -/
structure AnalysisArguments where
  stylesDir : Option String := none
  componentsDir : Option String := none
  exclude : List String := []
  confidence : Option Confidence := none
  format : Option Format := none
  deriving DecidableEq, Repr

/-- What the program is asked for. -/
inductive Invocation where
  | help
  | version
  | audit (analysis : AnalysisArguments) (output : Option String)
  | clean (analysis : AnalysisArguments) (dryRun : Bool) (backup : Option Bool)
      (interactive yes : Bool)
  | restore (stylesDir id : Option String)
  deriving DecidableEq, Repr

/-- An option whose value has to be one of several. -/
def chosen (p : Parsed) (key : String) (words : List String) (ofWord? : String → Option α) :
    Option (Option α) :=
  match p.value? key with
  | none => some none
  | some value => (chooseWord words value).map ofWord?

/-- What an analysis is asked for. -/
def analysisArguments (p : Parsed) : Option AnalysisArguments := do
  if 2 < p.operands.length then none
  let confidence ← chosen p "confidence" (Confidence.all.map Confidence.word)
    fun w => Confidence.all.find? (·.word == w)
  let format ← chosen p "format" (Format.all.map Format.word) Format.ofWord?
  return {
    stylesDir := p.operand? 0, componentsDir := p.operand? 1, exclude := p.values "exclude"
    confidence, format }

/-- A value that is not empty. -/
def filled (value : Option String) : Option String := value.filter (· != "")

/-- What a command with its arguments asks for, if they can be understood. -/
def commandOf (name : String) (args : List String) : Option Invocation :=
  let withHelp (specs : List OptionSpec) (f : Parsed → Option Invocation) : Option Invocation := do
    let p ← parse specs true args
    if p.has "help" then return .help
    f p
  match name with
  | "audit" => withHelp auditOptions fun p => do
    return .audit (← analysisArguments p) (filled (p.value? "output"))
  | "clean" => withHelp cleanOptions fun p => do
    return .clean (← analysisArguments p) ((p.switch? "dry" "live").getD true)
      (p.switch? "backup" "no-backup") (p.has "interactive") (p.has "yes")
  | "restore" => withHelp restoreOptions fun p => do
    if 1 < p.operands.length then none
    return .restore (p.operand? 0) (filled (p.value? "id"))
  | _ => none

/-- What a command line asks for, if it can be understood. -/
def Invocation.ofArguments? (args : List String) : Option Invocation := do
  let p ← parse globalOptions false args
  match p.uses, p.operands with
  | u :: _, _ => return if u.key = "help" then .help else .version
  | [], name :: rest => commandOf name rest
  | [], [] => none

end StylePrune.Command
