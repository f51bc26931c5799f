import StylePrune.Command.Arguments
import StylePrune.Console.Terminal
import StylePrune.Report

/-!
# Running a command

`Command.run` carries out a command line on a file tree, in an environment and at a terminal, and
answers with an exit code.  Reports go to the output; with JSON as the format everything else goes
to the error stream, so that the output holds the report alone.
-/

namespace StylePrune.Command

open Console

/-- The version of the program. -/
def version : String := "1.2.0"

/-- The directory below the styles in which backups are recorded. -/
def manifestDirectory : String := ".stylesweep"

/-- What a run needs besides a world and a terminal. -/
structure Setting where
  args : List String
  environment : Settings.Environment := []
  deriving DecidableEq, Repr

/-- A command at work: it ends with an exit code, or goes on with a value. -/
abbrev Running (α : Type) := ExceptT Nat (Overseen Terminal) α

namespace Running

/-- A job on the world. -/
def job (t : Job α) : Running α := ExceptT.lift (Overseen.job t)

/-- A step at the terminal. -/
def terminal (t : Overseer Terminal α) : Running α := ExceptT.lift (Overseen.overseer t)

/-- Prints markup and a line feed. -/
def say (stream : Stream) (markup : String) : Running Unit := terminal (Terminal.say stream markup)

/-- Ends the command. -/
def exit (code : Nat) : Running α := throw code

/-- Reports an error and ends the command. -/
def failWith (message : String) : Running α := do
  say .output ("[bold red]Error:[/bold red] " ++ Terminal.shown message)
  exit 1

/-- Prints a report as it is. -/
def echo (report : Json) : Running Unit :=
  terminal (Terminal.put .output (Json.renderAt .ascii 0 report ++ ['\n']))

end Running

open Running

/-- Whether a fault is an unfit value, which a command reports. -/
def isUnfit : Fault → Bool
  | .unknownSetting .. | .undecodable _ | .unknownConfidence _ | .unknownBackup _ | .noManifest
  | .embeddedNull | .illegalVariable | .nameless _ => true
  | _ => false

/-- What is said of a statement of the settings file that cannot be read. -/
def unreadableStatement (line : Nat) : String :=
  "python-dotenv could not parse statement starting at line " ++ toString line ++ "\n"

/-- What a job answers with, or an error if it meets an unfit value. -/
def orFail (t : Job α) : Running α := do
  let answer ← job do
    try return Except.ok (← t)
    catch fault => if isUnfit fault then return .error fault.message else throw fault
  match answer with
  | .ok a => return a
  | .error message => failWith message

/-- The settings, or an error. -/
def loadSettings (s : Setting) : Running Settings := do
  let statements ← orFail (Settings.readFile (Path.ofString ".env"))
  for line in statements.filterMap (·.unreadable?) do
    terminal (Terminal.put .error (unreadableStatement line).toList)
  orFail (Job.ofExcept (Settings.of s.environment statements))

/-- What an analysis works on. -/
structure Scope where
  settings : Settings
  styles : Path
  components : Path
  patterns : List Text
  threshold : Confidence
  format : Format
  deriving DecidableEq, Repr

/-- The arguments of an analysis over the settings. -/
def resolve (s : Setting) (a : AnalysisArguments) : Running Scope := do
  let settings ← loadSettings s
  let styles ← job (Job.resolve (Path.ofString (a.stylesDir.getD settings.stylesDir)))
  let components ← job (Job.resolve (Path.ofString (a.componentsDir.getD settings.componentsDir)))
  return {
    settings, styles, components
    patterns := settings.patterns ++ Exclusion.effective (a.exclude.map String.toList)
    threshold := a.confidence.getD settings.confidence
    format := a.format.getD settings.format }

/-- Whether the output is to hold JSON alone. -/
def Scope.isJson (p : Scope) : Bool := p.format == .json

/-- What is analysed. -/
def sayHeader (p : Scope) : Running Unit := do
  say .output ("[bold blue]Analyzing stylesheets:[/bold blue] " ++ Terminal.shown p.styles.toString)
  say .output
    ("[bold blue]Against components:[/bold blue] " ++ Terminal.shown p.components.toString ++ "\n")

/-- How an analysis ends that has no result: a request to stop, or a fault that is reported. -/
def endOf (fault : Fault) : Running α := do
  match fault with
  | .cancelled _ =>
    say .output "[yellow]Cancelled - no files were changed[/yellow]"
    exit 130
  | .missingRoot .. | .noStylesheets _ => failWith fault.message
  | _ => ExceptT.lift (throw fault)

/-- The analysis.  A progress display leaves an empty line when it ends. -/
def analyse (p : Scope) : Running Analysis := do
  let ended : Overseen Terminal Unit :=
    if p.isJson then pure () else Overseen.overseer (Terminal.put .output ['\n'])
  let result ← ExceptT.lift do
    try
      let a ← Analysis.run Terminal.stopAsked (fun _ => Terminal.fileAnalysed)
        { styles := p.styles, components := p.components, patterns := p.patterns
          threshold := p.threshold }
      ended
      return Except.ok a
    catch fault =>
      ended
      return .error fault
  match result with
  | .ok a => return a
  | .error fault => endOf fault

/-- The warnings of a run, all of which are in the log. -/
def sayWarnings (p : Scope) : Running Unit := do
  let log := (← get).1.log
  terminal (Terminal.sayWarnings (if p.isJson then .error else .output) "Warnings" log)

/-- The style of a tier. -/
def styleOf : Confidence → String
  | .high => "green"
  | .medium => "yellow"
  | .low => "red"

/-- The word for a tier in its style. -/
def styledTier (tier : Confidence) : String :=
  "[" ++ styleOf tier ++ "]" ++ tier.word ++ "[/" ++ styleOf tier ++ "]"

/-- The markup of a name. -/
def shownText (t : Text) : String := String.ofList (Markup.escape t)

/-- The counts of an analysis, and its findings by name. -/
def saySummary (a : Analysis) : Running Unit := do
  let count (label : String) (n : Nat) : List String := [label, toString n]
  terminal (Terminal.table .output "Class Summary" ["Metric", "Count"]
    [count "Stylesheets Scanned" a.stylesheetCount,
      count "Component Files Scanned" a.componentCount,
      count "Total Classes" a.tally.names.length,
      count "Excluded Classes" a.tally.excluded.length,
      count "Used Classes" a.reconciliation.used.length,
      count "Unused Classes" a.reconciliation.unused.length])
  if a.breakdown.all (·.2 == 0) then
    say .output "\n[green]✓ No unused classes found[/green]"
  else
    terminal (Terminal.table .output
      ("Unused by Confidence (threshold: " ++ a.threshold.word ++ ")") ["Confidence", "Definitions"]
      (a.breakdown.map fun (tier, n) => [styledTier tier, toString n]))
    say .output "\n[bold yellow]Unused classes:[/bold yellow]"
    for name in Text.sorted a.reconciliation.unused do
      say .output ("  • " ++ shownText name)
    say .output
      "\n[dim]Run with --format detailed to see where each class is defined.[/dim]"

/-- The findings of an analysis, stylesheet by stylesheet. -/
def sayDetailed (a : Analysis) : Running Unit := do
  let grouped := Report.grouped a.findings a.styles
  if grouped = [] then
    say .output "[green]✓ No unused classes found[/green]"
  else
    for (file, definitions) in grouped do
      terminal (Terminal.table .output file ["Class", "Context", "Confidence"]
        (definitions.map fun d => [shownText d.name, d.context.word, styledTier d.confidence]))
    say .output ("\n[bold yellow]Total:[/bold yellow] " ++ toString a.reconciliation.unused.length
      ++ " unused classes in " ++ toString grouped.length ++ " stylesheets")

/-- What has become of a stylesheet, in markup. -/
def statusOf (o : Prune.Outcome) : String :=
  if o.error.isSome then "[red]error[/red]"
  else if o.skipped then "[dim]skipped[/dim]"
  else if o.written then "written"
  else if o.changed then "would change"
  else "[dim]no match[/dim]"

/-- What has become of the stylesheets of a plan. -/
def sayOutcomes (dryRun : Bool) (outcomes : List Prune.Outcome) (styles : Path) :
    Running Unit := do
  let display (file : Path) : String := Terminal.shown (Path.display styles file.toString)
  let names (o : Prune.Outcome) : String :=
    match o.removed with
    | [] => "-"
    | removed => Terminal.shown (String.intercalate ", " (removed.map String.ofList))
  let title := if dryRun then "Dry Run: Blocks to Remove" else "Removed Blocks"
  terminal (Terminal.table .output title
    ["Stylesheet", "Classes", "Blocks", "Status"]
    (outcomes.map fun o => [display o.file, names o, toString o.blocks, statusOf o]))
  say .output ("\n[bold yellow]Blocks:[/bold yellow] " ++ toString (Prune.blocksOf outcomes)
    ++ " in " ++ toString (Prune.changedOf outcomes).length ++ " stylesheets")
  let errors := Prune.errorsOf outcomes
  if errors ≠ [] then
    say .output ("\n[bold red]Errors (" ++ toString errors.length ++ "):[/bold red]")
    for (file, error) in errors do
      say .output ("  [red]✗[/red] " ++ display file ++ ": " ++ Terminal.shown error.message)

/-- Reports the class names that no component uses. -/
def audit (s : Setting) (a : AnalysisArguments) (output : Option String) : Running Unit := do
  let p ← resolve s a
  if !p.isJson then sayHeader p
  let analysis ← analyse p
  let report := Json.obj (Report.ofAnalysis analysis)
  match p.format with
  | .json => echo report
  | .detailed => sayDetailed analysis
  | .summary => saySummary analysis
  if let some file := output then
    let written ← job (Report.write report (Path.ofString file))
    if !p.isJson then
      say .output
        ("\n[green]✓ Report written to " ++ Terminal.shown written.toString ++ "[/green]")
  sayWarnings p

/-- Asks before the first stylesheet is changed, and ends the command on a no. -/
def askToProceed (ui : Stream) (stylesheets : Nat) (createBackup : Bool) : Running Unit := do
  say ui ("\n[bold yellow]Warning:[/bold yellow] This will rewrite " ++ toString stylesheets
    ++ " stylesheets in place.")
  if !createBackup then say ui "[bold yellow]Backups are disabled.[/bold yellow]"
  if !(← terminal (Terminal.ask ui "Proceed with cleanup?")) then
    say ui "[red]Aborted[/red]"
    exit 0

/-- Asks about one stylesheet. -/
def confirmFile (ui : Stream) (styles file : Path) (definitions : List ClassDefinition) :
    Overseer Terminal Bool := do
  let names := (Text.sorted (definitions.map ClassDefinition.name)).map String.ofList
  Terminal.say ui ("\n[bold cyan]" ++ Terminal.shown (Path.display styles file.toString)
    ++ "[/bold cyan]: " ++ Terminal.shown (String.intercalate ", " names))
  Terminal.ask ui "Remove these classes?"

/-- Removes the blocks of the class names that no component uses. -/
def clean (s : Setting) (a : AnalysisArguments) (dryRun : Bool) (backup : Option Bool)
    (interactive yes : Bool) : Running Unit := do
  let p ← resolve s a
  let createBackup := backup.getD p.settings.backups
  if !p.isJson then sayHeader p
  let analysis ← analyse p
  let plan := analysis.plan
  if plan = [] then
    if p.isJson then echo (.obj (Report.ofAnalysis analysis))
    else say .output "[green]✓ No unused classes to remove[/green]"
    sayWarnings p
    exit 0
  if p.format = .detailed then sayDetailed analysis
  let ui : Stream := if p.isJson then .error else .output
  if !dryRun && !interactive && !yes then askToProceed ui plan.length createBackup
  let recordedIn := p.styles.child manifestDirectory
  let supervisor : Prune.Plan.Supervisor Terminal :=
    { stops := Terminal.stopAsked
      confirm := if interactive then some (confirmFile ui p.styles) else none
      applied := Terminal.filePlanned }
  let result ← ExceptT.lift do
    try
      return Except.ok (← Prune.Plan.run ⟨some ⟨recordedIn⟩⟩ { dryRun, createBackup }
        supervisor plan)
    catch fault => return .error fault
  let outcomes ← match result with
    | .ok outcomes => pure outcomes
    | .error (.cancelled _) => do
      say .output
        "[yellow]Cancelled - stylesheets already rewritten keep their changes[/yellow]"
      exit 130
    | .error fault => ExceptT.lift (throw fault)
  if p.isJson then
    echo (.obj (Report.ofAnalysis analysis
      ++ [("deletion", Report.ofOutcomes dryRun outcomes p.styles)]))
  else
    sayOutcomes dryRun outcomes p.styles
    if dryRun then say .output "\n[bold blue]DRY RUN - No changes were made[/bold blue]"
    else if Prune.writtenOf outcomes ≠ [] && createBackup then
      say .output ("\n[green]✓ Backups recorded in " ++ Terminal.shown recordedIn.toString
        ++ "; run 'stylesweep restore' to undo[/green]")
  sayWarnings p

/-- A row of the table of what was restored. -/
def restoredRow (styles : Path) (record : Json) : Except Fault (List String) := do
  let file ← match ← Manifest.need record "original_path" with
    | .str s => pure s
    | _ => throw .notAPath
  match ← Manifest.need record "id" with
  | .str id => return [Terminal.shown (Path.display styles file), id]
  | .null => return [Terminal.shown (Path.display styles file), ""]
  | _ => throw .unshowable

/-- Restores one backup. -/
def restoreOne (m : BackupStore) (id : String) : Running Unit := do
  let failure ← job do
    try
      m.restore (.str id)
      return none
    catch fault =>
      match fault with
      | .backup _ => return some fault.message
      | _ => if isUnfit fault then return some fault.message else throw fault
  match failure with
  | some message => failWith message
  | none => say .output ("[green]✓ Restored backup " ++ Terminal.shown id ++ "[/green]")

/-- Restores all backups. -/
def restoreAll (m : BackupStore) (styles : Path) : Running Unit := do
  let r ← job m.restoreAll
  if r.restored.isEmpty && r.errors = [] then
    say .output "[yellow]No unrestored backups found[/yellow]"
    exit 0
  if !r.restored.isEmpty then
    let rows ← job (Job.ofExcept (r.restored.mapM (restoredRow styles)))
    terminal (Terminal.table .output "Restored Stylesheets" ["Stylesheet", "Backup ID"] rows)
  if r.errors ≠ [] then
    say .output ("\n[bold red]Errors (" ++ toString r.errors.length ++ "):[/bold red]")
    for message in r.errors do
      say .output ("  [red]✗[/red] " ++ Terminal.shown message)
    exit 1

/-- Restores stylesheets from the backups recorded below the styles. -/
def restore (s : Setting) (stylesDir id : Option String) : Running Unit := do
  let settings ← loadSettings s
  let styles ← job (Job.resolve (Path.ofString (stylesDir.getD settings.stylesDir)))
  if !(← job (Job.isDirectory styles)) then
    failWith (Fault.message (.missingRoot .styles styles))
  let m : BackupStore := ⟨some ⟨styles.child manifestDirectory⟩⟩
  match id with
  | some id => restoreOne m id
  | none => restoreAll m styles

/-- How the program is used. -/
def usage : String :=
  "Usage: stylesweep [--version] [--help] COMMAND [ARGS]...\n\n"
    ++ "Find and remove unused CSS classes.\n\n"
    ++ "  audit [STYLES_DIR] [COMPONENTS_DIR] [-e GLOB]... [-c TIER] [-f FORMAT] [-o FILE]\n"
    ++ "  clean [STYLES_DIR] [COMPONENTS_DIR] [-e GLOB]... [-c TIER] [-f FORMAT]\n"
    ++ "        [--dry-run|--no-dry-run] [--backup|--no-backup] [-i] [-y]\n"
    ++ "  restore [STYLES_DIR] [--id ID]\n"

/-- Carries out what is asked for. -/
def perform (s : Setting) : Running Unit :=
  match Invocation.ofArguments? s.args with
  | none => exit 2
  | some .help => terminal (Terminal.put .output usage.toList)
  | some .version => say .output ("stylesweep " ++ version)
  | some (.audit a output) => audit s a output
  | some (.clean a dryRun backup interactive yes) => clean s a dryRun backup interactive yes
  | some (.restore stylesDir id) => restore s stylesDir id

/-- How a run has ended: with an exit code, and with the fault that nothing in it dealt with. -/
structure Ending where
  code : Nat
  fault : Option Fault := none
  deriving DecidableEq, Repr

/-- Runs a command in a world at a terminal. -/
def run (s : Setting) (world : World) (terminal : Terminal) : Ending × World × Terminal :=
  match (perform s).run (world, terminal) with
  | .ok (.ok ()) (world, terminal) => (⟨0, none⟩, world, terminal)
  | .ok (.error code) (world, terminal) => (⟨code, none⟩, world, terminal)
  | .error .interrupted (world, terminal) => (⟨130, none⟩, world, terminal)
  | .error .inputEnded (world, terminal) =>
    (⟨1, none⟩, world, { terminal with error := terminal.error ++ "Aborted.\n".toList })
  | .error fault (world, terminal) => (⟨1, some fault⟩, world, terminal)

end StylePrune.Command
