import StylePrune.Exclusion
import StylePrune.Stylesheet.Definitions

/-!
# Tallies

A `Tally` gathers what the stylesheets define, file by file: the definitions that are kept, all
names, the names that a pattern excludes, and the candidates, of which some definition meets a
threshold.
-/

namespace StylePrune

/-- Definitions by stylesheet, and the names among them. -/
structure Tally where
  byFile : List (String × List ClassDefinition) := []
  names : List Text := []
  excluded : List Text := []
  candidates : List Text := []
  deriving DecidableEq, Repr

namespace Tally

/-- Gives a file its definitions, in its place if it has some already. -/
def setFile (byFile : List (String × List ClassDefinition)) (file : String)
    (definitions : List ClassDefinition) : List (String × List ClassDefinition) :=
  match byFile with
  | [] => [(file, definitions)]
  | (f, ds) :: rest =>
    if f == file then (file, definitions) :: rest else (f, ds) :: setFile rest file definitions

/-- Enters the names of the definitions of one file. -/
def addNames (patterns : List Text) (threshold : Confidence) (tally : Tally)
    (definitions : List ClassDefinition) : Tally :=
  definitions.foldl (fun tally d =>
    let tally := { tally with names := tally.names.insert d.name }
    if Exclusion.excludes patterns d.name then
      { tally with excluded := tally.excluded.insert d.name }
    else if d.confidence.meets threshold then
      { tally with candidates := tally.candidates.insert d.name }
    else tally) tally

/-- Enters the definitions of one file; those of excluded names are not kept. -/
def addFile (patterns : List Text) (threshold : Confidence) (tally : Tally) (file : String)
    (definitions : List ClassDefinition) : Tally :=
  let tally := addNames patterns threshold tally definitions
  match definitions.filter fun d => !Exclusion.excludes patterns d.name with
  | [] => tally
  | kept => { tally with byFile := setFile tally.byFile file kept }

/-- All definitions that were kept, file by file. -/
def definitions (tally : Tally) : List ClassDefinition := tally.byFile.flatMap (·.2)

end Tally

end StylePrune
