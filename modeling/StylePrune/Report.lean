import StylePrune.Analysis.Run
import StylePrune.Json.Printer
import StylePrune.Prune.Plan

/-!
# Reports

The findings of an analysis and the outcomes of a plan as JSON, and the findings grouped by
stylesheet as they are shown.
-/

namespace StylePrune.Report

/-- A text as a JSON string. -/
def text (t : Text) : Json := .str (String.ofList t)

/-- Texts as a list of JSON strings. -/
def texts (ts : List Text) : Json := .arr (ts.map text)

/-- A number as JSON. -/
def number (n : Nat) : Json := .int n

/-- A value that may be missing. -/
def nullable (x : Option α) (f : α → Json) : Json := (x.map f).getD .null

/-- The report on an analysis. -/
def ofAnalysis (a : Analysis) : Json.Members :=
  [("summary", .obj [
      ("totalClasses", number a.tally.names.length),
      ("excludedClasses", number a.tally.excluded.length),
      ("usedClasses", number a.reconciliation.used.length),
      ("unusedClasses", number a.reconciliation.unused.length),
      ("confidenceLevel", .str a.threshold.word)]),
    ("unusedClasses", texts (Text.sorted a.reconciliation.unused)),
    ("usedClasses", texts (Text.sorted a.reconciliation.used))]

/-- The report on the outcomes of a plan, with paths as seen from a root. -/
def ofOutcomes (dryRun : Bool) (outcomes : List Prune.Outcome) (root : Path) : Json :=
  .obj [
    ("dryRun", .bool dryRun),
    ("blocksRemoved", number (Prune.blocksOf outcomes)),
    ("files", .arr (outcomes.map fun o =>
      .obj [
        ("file", .str (Path.display root o.file.toString)),
        ("removed", texts o.removed),
        ("blocks", number o.blocks),
        ("written", .bool o.written),
        ("skipped", .bool o.skipped),
        ("backup", nullable o.backup fun b => .str b.copy.toString),
        ("error", nullable o.error fun e => .str e.message)]))]

/-- Whether a definition is not behind another one in the order of names. -/
def nameNotAfter (d e : ClassDefinition) : Bool := Text.notAfter d.name e.name

/-- Definitions under the path of their stylesheet as seen from a root, both in order. -/
def grouped (definitions : List ClassDefinition) (root : Path) :
    List (String × List ClassDefinition) :=
  let pathOf (d : ClassDefinition) : String := Path.display root d.file
  let paths := ((definitions.map pathOf).eraseDups).mergeSort fun a b => !decide (b < a)
  paths.map fun path => (path, (definitions.filter (pathOf · == path)).mergeSort nameNotAfter)

/-- Writes a report to a file, and creates the directories it lies in. -/
def write (report : Json) (path : Path) : Job Path := do
  Job.makeDirs path.parent
  Job.writeText path (Json.renderAt .minimal 0 report ++ ['\n'])
  return path

end StylePrune.Report
