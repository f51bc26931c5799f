import StylePrune.Console.Icons
import StylePrune.Console.Layout
import StylePrune.Console.Markup
import StylePrune.Oversight
import StylePrune.Text.Lines

/-!
# The terminal

A terminal has two streams to write on, lines of input, and somebody in front of it who may
interrupt a run.  It oversees the jobs of a command: the first interrupt asks for a stop after the
current file, a second one ends the command at once.
-/

namespace StylePrune.Console

/-- The streams of a terminal. -/
inductive Stream where
  | output
  | error
  deriving DecidableEq, Repr

/-- The steps of a run at which interrupts come, each as often as it is listed. -/
structure Interrupts where
  /-- Counted by the files that an analysis is done with. -/
  duringAnalysis : List Nat := []
  /-- Counted by the stylesheets that a plan is done with. -/
  duringPlan : List Nat := []
  deriving DecidableEq, Repr

/-- What a terminal shows, what is typed, and what has been interrupted. -/
structure Terminal where
  encoding : String := defaultEncoding
  /-- The cells of a line; without a number lines have room for everything. -/
  width : Option Nat := none
  output : Text := []
  error : Text := []
  input : List Text := []
  interrupts : Interrupts := {}
  analysed : Nat := 0
  planned : Nat := 0
  stopAsked : Bool := false
  deriving DecidableEq, Repr

namespace Terminal

/-- The lines that are typed, for input as a text. -/
def linesOfInput (t : Text) : List Text :=
  let ls := Text.lines (Text.unifyLineEnds t)
  if ls.getLast? = some [] then ls.dropLast else ls

/-- Writes a text as it is. -/
def put (stream : Stream) (t : Text) : Overseer Terminal Unit :=
  modify fun term =>
    match stream with
    | .output => { term with output := term.output ++ t }
    | .error => { term with error := term.error ++ t }

/-- The plain text of markup.  Lines with a width are laid out, for which the styles of the tags
are read. -/
def laidOut (term : Terminal) (markup : Text) : Except Fault Text := do
  let markup := sanitize term.encoding markup
  let t ← Markup.render markup
  match term.width with
  | some width =>
    (← Markup.openTags markup).forM fun tag => discard (Style.ofText? tag.style)
    return Layout.wrap width t
  | none => return t

/-- Writes markup and a line feed. -/
def print (stream : Stream) (markup : Text) : Overseer Terminal Unit := do
  match (← get).laidOut markup with
  | .ok t => put stream (t ++ ['\n'])
  | .error fault => throw fault

/-- Writes markup, given as a string, and a line feed. -/
def say (stream : Stream) (markup : String) : Overseer Terminal Unit := print stream markup.toList

/-- The markup of a string that is to be shown as it is. -/
def shown (s : String) : String := String.ofList (Markup.escape s.toList)

/-- A list of warnings under a title. -/
def sayWarnings (stream : Stream) (title : String) (warnings : List Warning) :
    Overseer Terminal Unit := do
  if warnings = [] then return
  say stream ("\n[bold yellow]" ++ title ++ " (" ++ toString warnings.length ++ "):[/bold yellow]")
  for w in warnings do
    say stream ("  [yellow]⚠[/yellow] " ++ shown w.render)

/-- A row of a table: its cells, each behind a bar, without the blanks at its end. -/
def row (cells : List Text) : Text := Text.trimEnd (cells.flatMap fun c => '|' :: ' ' :: c ++ [' '])

/-- A table of markup. -/
def table (stream : Stream) (title : String) (header : List String) (rows : List (List String)) :
    Overseer Terminal Unit := do
  let encoding := (← get).encoding
  let rendered (s : String) : Overseer Terminal Text :=
    match Markup.render (sanitize encoding s.toList) with
    | .ok t => return t
    | .error fault => throw fault
  let title ← rendered title
  let rows ← (header :: rows).mapM fun cells => cells.mapM rendered
  put stream ("TABLE ".toList ++ title ++ ['\n'])
  for cells in rows do put stream (row cells ++ ['\n'])

/-! ### Questions -/

/-- The answer that a typed line gives to a question with the default no. -/
def answer? (line : Text) : Option Bool :=
  let word := String.ofList (Text.trim (Text.lowerCase line))
  if ["y", "yes"].contains word then some true
  else if ["", "n", "no"].contains word then some false
  else none

/-- Asks a question until a line answers it; the input is given by its lines. -/
def askLines (stream : Stream) (question : Text) : List Text → Overseer Terminal Bool
  | [] => do
    put stream question
    throw .inputEnded
  | line :: rest => do
    put stream (question ++ line ++ ['\n'])
    modify fun term => { term with input := rest }
    match answer? line with
    | some answer => return answer
    | none =>
      put stream "Error: invalid input\n".toList
      askLines stream question rest

/-- Asks a question that is answered by yes or no. -/
def ask (stream : Stream) (question : String) : Overseer Terminal Bool := do
  askLines stream (question ++ " [y/N]: ").toList (← get).input

/-! ### Interrupts -/

/-- An interrupt: the first asks for a stop, the next one ends everything. -/
def interrupt : Overseer Terminal Unit := do
  if (← get).stopAsked then throw .interrupted
  modify fun term => { term with stopAsked := true }
  say .output ("\n[yellow]Stopping after the current file... "
    ++ "press Ctrl+C again to force quit.[/yellow]")

/-- As many interrupts as given. -/
def interruptTimes : Nat → Overseer Terminal Unit
  | 0 => return
  | n + 1 => do
    interrupt
    interruptTimes n

/-- A file of an analysis is done. -/
def fileAnalysed : Overseer Terminal Unit := do
  modify fun term => { term with analysed := term.analysed + 1 }
  let term ← get
  interruptTimes (term.interrupts.duringAnalysis.count term.analysed)

/-- A stylesheet of a plan is done. -/
def filePlanned : Overseer Terminal Unit := do
  modify fun term => { term with planned := term.planned + 1 }
  let term ← get
  interruptTimes (term.interrupts.duringPlan.count term.planned)

end Terminal

end StylePrune.Console
