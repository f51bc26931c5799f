import StylePrune.Command.Run
import StylePrune.Text.Hex

/-!
# The program

`main` reads the part of the disk that a command works on, lets `Command.run` carry the command out
on it, shows what was written to the terminal, and brings the changed files back to the disk.  A
command that asks a question is carried out anew with each line that is typed, from the same files
and with the lines typed so far, and only what it writes beyond the last question is shown.
-/

namespace StylePrune.Program

/-- The place as a path from the root. -/
def pathOf (place : Place) : String := (Path.fromRoot place).toString

/-- The levels of directories that are read below a root. -/
def maxDepth : Nat := 64

/-- The names in a directory, if the path leads to one. -/
def namesIn? (path : String) : IO (Option (List String)) := do
  try
    let entries ← (← IO.FS.realPath path).readDir
    return some (entries.toList.map fun e => e.fileName)
  catch _ => return none

/-- The tree with what the disk has at a place and below it.  Of the directories in which nothing
is looked for only the names are read. -/
def readBelow : Nat → Place → Files → IO Files
  | 0, _, fs => return fs
  | depth + 1, place, fs => do
    match ← namesIn? (pathOf place) with
    | some names =>
      let fs := fs.put place .directory
      let name := place.getLast?.getD ""
      if Files.passedOver.contains name && name != Command.manifestDirectory then return fs
      names.foldlM (fun fs name => readBelow depth (place ++ [name]) fs) fs
    | none =>
      try return fs.put place (.file (← IO.FS.readBinFile (pathOf place)).toList)
      catch _ => return fs

/-- The tree with what the disk has at a place and below it, and with the directories on the way. -/
def readRoot (fs : Files) (place : Place) : IO Files := do
  let mut fs := fs
  for n in List.range place.length do
    if (← namesIn? (pathOf (place.take n))).isSome then fs := fs.put (place.take n) .directory
  readBelow maxDepth place fs

/-- The paths that a command works on. -/
def rootsOf (settings : Settings) : Command.Invocation → List String
  | .help | .version => []
  | .audit a output =>
    [a.stylesDir.getD settings.stylesDir, a.componentsDir.getD settings.componentsDir]
      ++ output.toList
  | .clean a _ _ _ _ =>
    [a.stylesDir.getD settings.stylesDir, a.componentsDir.getD settings.componentsDir]
  | .restore stylesDir _ => [stylesDir.getD settings.stylesDir]

/-- The part of the disk that a command works on, as seen from the current directory. -/
def readDisk (s : Command.Setting) : IO Files := do
  let here := Path.resolveFrom [] (Path.ofString (← IO.currentDir).toString)
  let settingsFile := Path.ofString ".env"
  let fs ← readRoot { here } (Path.resolveFrom here settingsFile)
  let world : World := { files := fs, now := Instant.afterEpoch 0 0, tokens := fun _ => "" }
  match Settings.load s.environment settingsFile world, Command.Invocation.ofArguments? s.args with
  | .ok settings _, some invocation =>
    let roots := (rootsOf settings invocation).map fun root =>
      Path.resolveFrom here (Path.ofString root)
    roots.foldlM readRoot fs
  | _, _ => return fs

/-- Brings what has changed between two trees to the disk. -/
def writeDisk (before after : Files) : IO Unit := do
  for (place, entry) in after.entries do
    if before.get? place != some entry then
      match entry with
      | .directory => IO.FS.createDirAll (pathOf place)
      | .file bytes => IO.FS.writeBinFile (pathOf place) ⟨bytes.toArray⟩
  for (place, _) in before.entries do
    if (after.get? place).isNone then IO.FS.removeFile (pathOf place)

/-- The present time: that of a file which has just been created. -/
def currentInstant : IO Instant := do
  let (_, path) ← IO.FS.createTempFile
  let time := (← path.metadata).modified
  IO.FS.removeFile path
  return Instant.afterEpoch time.sec.toNat (time.nsec.toNat / 1000)

/-- Tokens of six hexadecimal digits, from a random one on.  They repeat only after all others. -/
def randomTokens : IO (Nat → String) := do
  let start := (← IO.getRandomBytes 3).toList.foldl (fun n byte => n * 256 + byte.toNat) 0
  return fun n => String.ofList (Text.hex 6 (start + n * 10368889))

/-- Shows what a terminal has got since an earlier state, but for the line typed in between, which
is there already. -/
def showSince (before after : Console.Terminal) (typed : Option Text) : IO Unit := do
  let fresh (shown now : Text) : String :=
    let t := now.drop shown.length
    String.ofList ((typed.bind fun line => Text.after? (line ++ ['\n']) t).getD t)
  (← IO.getStdout).putStr (fresh before.output after.output)
  (← IO.getStdout).flush
  (← IO.getStderr).putStr (fresh before.error after.error)
  (← IO.getStderr).flush

/-- Carries out a command and reads a line whenever it asks for one.  The arguments are what has
been shown, the lines typed so far, and the last of them. -/
partial def converse (s : Command.Setting) (world : World) (shown : Console.Terminal)
    (lines : List Text) (last : Option Text) : IO (Command.Ending × World) := do
  let start : Console.Terminal := { input := lines }
  if let .error .inputEnded (_, asking) := (Command.perform s).run (world, start) then
    showSince shown asking last
    let typed ← (← IO.getStdin).getLine
    if let line :: _ := Console.Terminal.linesOfInput typed.toList then
      return ← converse s world asking (lines ++ [line]) (some line)
    let (ending, world, terminal) := Command.run s world start
    showSince asking terminal none
    return (ending, world)
  let (ending, world, terminal) := Command.run s world start
  showSince shown terminal last
  return (ending, world)

/-- The variables of the environment that are settings. -/
def readEnvironment : IO Settings.Environment :=
  Settings.variableNames.filterMapM fun name => do return (← IO.getEnv name).map (name, ·)

end StylePrune.Program

open StylePrune in
/-- Carries out the command line and answers with its exit code. -/
def main (args : List String) : IO UInt32 := do
  let setting : Command.Setting := { args, environment := ← Program.readEnvironment }
  let files ← Program.readDisk setting
  let world : World :=
    { files, now := ← Program.currentInstant, tokens := ← Program.randomTokens }
  let (ending, after) ← Program.converse setting world {} [] none
  Program.writeDisk files after.files
  if ending.code = 2 then IO.eprint Command.usage
  if let some fault := ending.fault then IO.eprintln fault.message
  return UInt32.ofNat ending.code
