import StylePrune.Confidence
import StylePrune.Stylesheet.Clean
import StylePrune.Stylesheet.Scanner

/-!
# Definitions of class names

`definitionsOf` lists the class names that a stylesheet defines.  The cleaned text is cut into
statements, at every line feed and after every brace and semicolon, so that a rule on one line
nests as it does on several.  A name counts once, as it was first written.
-/

namespace StylePrune

/-- A class name that a stylesheet defines. -/
structure ClassDefinition where
  name : Text
  confidence : Confidence
  context : Context
  file : String
  deriving DecidableEq, Repr

namespace Stylesheet

open Text

/-- The characters that end a statement: braces and the semicolon. -/
def endsStatement (c : Char) : Bool := c == '\x7b' || c == '\x7d' || c == ';'

/-- The pieces of a line that end where `guide` has the end of a statement; the last piece, which
may be empty, has no such end. -/
def cutAlong : Text → Text → List Text
  | g :: guide, c :: t =>
    if endsStatement g then [c] :: cutAlong guide t
    else
      match cutAlong guide t with
      | [] => [[c]]
      | p :: ps => (c :: p) :: ps
  | _, t => [t]

/-- The pieces of a line, cut after every end of a statement. -/
def cut (line : Text) : List Text := cutAlong line line

/-- The statements of a cleaned stylesheet. -/
def statementsOf (clean : Text) : List Text := (lines clean).flatMap cut

/-- The first entry for each name, in order. -/
def firstByName (seen : List Text) : List (Text × Context) → List (Text × Context)
  | [] => []
  | (name, context) :: rest =>
    if seen.contains name then firstByName seen rest
    else (name, context) :: firstByName (name :: seen) rest

/-- All that the statements of a stylesheet define, repetitions included. -/
def definedIn (t : Text) : List (Text × Context) :=
  ((({} : Scanner).readAll (statementsOf (strip t))).reduceOption).flatMap Reading.definitions

/-- The class names that a stylesheet defines, scored by the path `place`. -/
def definitionsOf (t : Text) (file : String) (place : Path) : List ClassDefinition :=
  (firstByName [] (definedIn t)).map fun (name, context) =>
    { name, confidence := Confidence.ofName name place, context, file }

/-- The pieces of a line spell it. -/
theorem flatten_cutAlong (guide t : Text) :
  (cutAlong guide t).flatten = t
  := by
  induction t generalizing guide with
  | nil => cases guide <;> simp [cutAlong]
  | cons c t ih =>
    cases guide with
    | nil => simp [cutAlong]
    | cons g guide =>
      unfold cutAlong
      split
      · simp [ih]
      · have := ih guide
        split
        · next h => rw [h] at this; simp_all
        · next h => rw [h] at this; simp_all

end Stylesheet

end StylePrune
