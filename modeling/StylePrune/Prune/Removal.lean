import StylePrune.Prune.BlankRun
import StylePrune.Prune.Statement

/-!
# Removing rules

`Prune.remove` takes the blocks of given class names out of a stylesheet.  It reads the statements
one after the other.  A selector all of whose members define one of the names starts a removal if
its block opens at once, or on one of the next lines; the removal ends where the braces of the
block are balanced.  Everything else is kept as it was written, on its line.

`Prune.judge` gives the verdict on every statement, and the new text is made of those that are
kept: a line that a removal leaves blank goes, and long runs of blank lines are shortened.
-/

namespace StylePrune.Prune

open Text Stylesheet

/-- The number of lines that the brace of a selector may stand below it. -/
def lookahead : Nat := 3

/-- The names that a member defines and that are to be removed. -/
def hits (names : List Text) (m : Member) : List Text :=
  (m.names.map (·.1)).filter names.contains

/-- The names to be removed that a selector line defines, if each of its members defines one. -/
def targets (names : List Text) (reading : Option Reading) : List Text :=
  match reading.bind Reading.members with
  | none => []
  | some members =>
    if members.any fun m => hits names m == [] then []
    else (members.flatMap (hits names)).eraseDups

/-- Whether the next statement that is not blank, up to the given line, starts with an opening
brace. -/
def opensAhead (last : Nat) : List Statement → Bool
  | [] => false
  | s :: rest =>
    if last < s.line then false
    else
      match trim s.clean with
      | [] => opensAhead last rest
      | c :: _ => c == '\x7b'

/-- What is going on at a statement: it is copied, or it belongs to a block that is being removed,
which started on a line (counted from one) and has still to open or has opened to a depth. -/
inductive Phase where
  | copying
  | awaiting (start : Nat)
  | inside (start depth : Nat)
  deriving DecidableEq, Repr

/-- The state of a removal between two statements. -/
structure State where
  scanner : Scanner := {}
  phase : Phase := .copying
  /-- The last statement kept that is not blank. -/
  lastKept : Text := []
  removed : List Text := []
  blocks : Nat := 0
  deriving DecidableEq, Repr

/-- What becomes of a statement. -/
inductive Verdict where
  | kept
  | cut
  deriving DecidableEq, Repr

/-- The number of opening braces of a text. -/
def opens (t : Text) : Nat := t.count '\x7b'

/-- The number of closing braces of a text. -/
def closes (t : Text) : Nat := t.count '\x7d'

/-- The phase behind a text that brings the depth of a block to zero or leaves it open. -/
def Phase.ofDepth (start depth : Nat) : Phase := if depth = 0 then .copying else .inside start depth

namespace State

/-- The state behind the first statement of a removal. -/
def start (s : State) (found : List Text) (phase : Phase) : State :=
  { s with
    scanner := { s.scanner with pending := none }
    phase
    removed := s.removed ++ found.filter fun name => !s.removed.contains name
    blocks := s.blocks + 1 }

/-- The state behind a statement that is kept. -/
def keep (s : State) (clean : Text) (reading : Option Reading) : State :=
  { s with
    scanner := s.scanner.advance reading
    lastKept := if clean = [] then s.lastKept else clean }

/-- The phase that a statement begins if it begins a removal.  A list of members that goes on from
the last kept line stays with it. -/
def begins? (s : State) (names : List Text) (st : Statement) (following : List Statement)
    (reading : Option Reading) : Option (List Text × Phase) :=
  let clean := trim st.clean
  match targets names reading with
  | [] => none
  | found =>
    if s.lastKept.getLast? = some ',' then none
    else if opens clean ≠ 0 then
      if closes clean ≤ opens clean then
        some (found, Phase.ofDepth (st.line + 1) (opens clean - closes clean))
      else none
    else if opensAhead (st.line + lookahead) following then some (found, .awaiting (st.line + 1))
    else none

/-- The verdict on a statement, and the state behind it. -/
def step (names : List Text) (s : State) (st : Statement) (following : List Statement) :
    Verdict × State :=
  let clean := trim st.clean
  match s.phase with
  | .awaiting start =>
    if opens clean = 0 then (.cut, s)
    else (.cut, { s with phase := Phase.ofDepth start (opens clean - closes clean) })
  | .inside start depth =>
    (.cut, { s with phase := Phase.ofDepth start (depth + opens clean - closes clean) })
  | .copying =>
    let reading := s.scanner.read st.clean (following.map Statement.clean)
    match s.begins? names st following reading with
    | some (found, phase) => (.cut, s.start found phase)
    | none => (.kept, s.keep clean reading)

end State

/-- The verdicts on statements from a state on, and the state behind them. -/
def judge (names : List Text) (s : State) : List Statement → List (Statement × Verdict) × State
  | [] => ([], s)
  | st :: rest =>
    let (verdict, next) := s.step names st rest
    let (others, last) := judge names next rest
    ((st, verdict) :: others, last)

/-- What is kept of the statements of one line. -/
def keptOf (line : List (Statement × Verdict)) : Text :=
  (line.filter (·.2 == .kept)).flatMap fun (s, _) => s.raw

/-- Whether a line goes: something was cut from it and nothing but blanks is left. -/
def goes (line : List (Statement × Verdict)) : Bool :=
  line.any (·.2 == .cut) && blank (keptOf line)

/-- The statements of each line, for statements in the order of their lines. -/
def byLine (judged : List (Statement × Verdict)) : List (List (Statement × Verdict)) :=
  judged.splitBy fun a b => a.1.line == b.1.line

/-- The text that is left. -/
def rebuild (judged : List (Statement × Verdict)) : Text :=
  ofLines (collapseBlanks maxBlankRun (((byLine judged).filter fun line => !goes line).map keptOf))

/-- What a removal has done to a text. -/
structure Removal where
  text : Text
  removed : List Text := []
  blocks : Nat := 0
  anomalies : List Anomaly := []
  deriving DecidableEq, Repr

/-- The block that a state is still inside of, if there is one. -/
def State.unclosed (s : State) : List Anomaly :=
  match s.phase with
  | .copying => []
  | .awaiting start => [.neverClosed start]
  | .inside start _ => [.neverClosed start]

/-- Takes the blocks of the given class names out of a stylesheet. -/
def remove (t : Text) (names : List Text) : Removal :=
  if names = [] then { text := t }
  else
    match Statement.split t with
    | .error anomaly => { text := t, anomalies := [anomaly] }
    | .ok statements =>
      let (judged, last) := judge names {} statements
      if last.blocks = 0 then { text := t, anomalies := last.unclosed }
      else
        { text := rebuild judged, removed := last.removed, blocks := last.blocks
          anomalies := last.unclosed }

/-- Every statement gets a verdict, in its place. -/
theorem map_fst_judge (names : List Text) (s : State) (statements : List Statement) :
  (judge names s statements).1.map (·.1) = statements
  := by
  induction statements generalizing s with
  | nil => rfl
  | cons st rest ih => simp [judge, ih]

end StylePrune.Prune
