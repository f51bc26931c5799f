import StylePrune.Analysis.Reconciliation
import StylePrune.Analysis.Tally

/-!
# Analysis

`Analysis.run` gathers the class names of all stylesheets below one root, looks for the candidates
in all component sources below another, and reconciles the two.  Whoever oversees it is told of
every file that is done and may ask it to stop between two files.
-/

namespace StylePrune

/-- A step of an analysis. -/
inductive AnalysisPhase where
  | stylesheets
  | components
  deriving DecidableEq, Repr

/-- The number of files that a phase has done, out of all its files. -/
structure Progress where
  phase : AnalysisPhase
  done : Nat
  total : Nat
  deriving DecidableEq, Repr

/-- What to analyse, which names to leave out, and which tiers to report. -/
structure AnalysisRequest where
  styles : Path
  components : Path
  patterns : List Text
  threshold : Confidence
  deriving DecidableEq, Repr

/-- What an analysis has found. -/
structure Analysis where
  styles : Path
  components : Path
  threshold : Confidence
  tally : Tally
  records : List Usage.Record
  reconciliation : Reconciliation
  stylesheetCount : Nat
  componentCount : Nat
  deriving DecidableEq, Repr

namespace Analysis

/-- The unused definitions at or above the threshold, by file and name. -/
def findings (a : Analysis) : List ClassDefinition := a.reconciliation.meeting a.threshold

/-- Definitions under the file they belong to, files in the order of their first definitions. -/
def groupByFile (definitions : List ClassDefinition) : List (String × List ClassDefinition) :=
  let files := (definitions.map ClassDefinition.file).eraseDups
  files.map fun file => (file, definitions.filter (·.file == file))

/-- What is to be removed, stylesheet by stylesheet. -/
def plan (a : Analysis) : List (String × List ClassDefinition) := groupByFile a.findings

/-- The number of unused definitions of each tier at or above the threshold. -/
def breakdown (a : Analysis) : List (Confidence × Nat) :=
  (Confidence.all.filter (·.meets a.threshold)).map fun tier =>
    (tier, (a.reconciliation.ofTier tier).length)

/-- Reads the stylesheets one after the other; `done` of `total` are read already. -/
def readStylesheets (stops : σ → Bool) (report : Progress → Overseer σ Unit)
    (request : AnalysisRequest) (styles : Path) (total : Nat) :
    Nat → List Path → Tally → Overseen σ Tally
  | _, [], tally => return tally
  | done, file :: rest, tally => do
    Overseen.checkpoint stops .analysis
    let tally ← match ← Overseen.job (Job.readSource file) with
      | none => pure tally
      | some t =>
        let place := (file.relativeTo? styles).getD file
        let definitions := Stylesheet.definitionsOf t file.toString place
        pure (tally.addFile (Exclusion.effective request.patterns) request.threshold file.toString
          definitions)
    Overseen.overseer (report ⟨.stylesheets, done + 1, total⟩)
    readStylesheets stops report request styles total (done + 1) rest tally

/-- The path of a root directory, which has to be there. -/
def rootDirectory (kind : RootKind) (p : Path) : Job Path := do
  if !(← Job.isDirectory p) then throw (.missingRoot kind p)
  return p

/-- Runs an analysis under an oversight that is told of every file, and may stop it. -/
def run (stops : σ → Bool) (report : Progress → Overseer σ Unit) (request : AnalysisRequest) :
    Overseen σ Analysis := do
  let styles ← Overseen.job (Job.resolve request.styles)
  let components ← Overseen.job (Job.resolve request.components)
  let styles ← Overseen.job (rootDirectory .styles styles)
  let components ← Overseen.job (rootDirectory .components components)
  let stylesheets ← Overseen.job (Job.filesBelow styles Files.stylesheetSuffixes)
  if stylesheets = [] then throw (.noStylesheets styles)
  let tally ← readStylesheets stops report request styles stylesheets.length 0 stylesheets {}
  let sources ← Overseen.job (Job.filesBelow components Files.componentSuffixes)
  let total := sources.length
  let found ← Usage.scanFiles stops (fun done _ => report ⟨.components, done, total⟩)
    (Usage.searched tally.candidates) 0 sources {}
  return {
    styles, components, threshold := request.threshold, tally, records := found.records
    reconciliation := Reconciliation.of tally.candidates found.records tally.definitions
    stylesheetCount := stylesheets.length, componentCount := total }

end Analysis

end StylePrune
