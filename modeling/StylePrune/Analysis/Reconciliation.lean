import StylePrune.Stylesheet.Definitions
import StylePrune.Text.Order
import StylePrune.Usage.Evidence

/-!
# Reconciling definitions with their use

`Reconciliation.of` divides the candidates into those that some component uses and those that none
does, and takes the definitions of the unused ones, which can be had by tier and by threshold.
-/

namespace StylePrune

/-- Whether a definition is not behind another one in the order of files and then of names. -/
def ClassDefinition.notAfter (d e : ClassDefinition) : Bool :=
  decide (d.file < e.file) || (d.file == e.file && Text.notAfter d.name e.name)

/-- The candidates divided by their use, and the unused definitions. -/
structure Reconciliation where
  used : List Text
  unused : List Text
  unusedDefinitions : List ClassDefinition
  deriving DecidableEq, Repr

namespace Reconciliation

/-- Divides candidates by the records of their use, and takes the unused ones of the definitions. -/
def of (candidates : List Text) (records : List Usage.Record) (definitions : List ClassDefinition) :
    Reconciliation :=
  let seen := records.map Usage.Record.name
  let unused := candidates.filter fun name => !seen.contains name
  { used := candidates.filter seen.contains
    unused
    unusedDefinitions := definitions.filter fun d => unused.contains d.name }

/-- The unused definitions of a tier, by file and name. -/
def ofTier (r : Reconciliation) (tier : Confidence) : List ClassDefinition :=
  (r.unusedDefinitions.filter (·.confidence == tier)).mergeSort ClassDefinition.notAfter

/-- The unused definitions that meet a threshold, by file and name. -/
def meeting (r : Reconciliation) (threshold : Confidence) : List ClassDefinition :=
  ((Confidence.all.filter (·.meets threshold)).flatMap r.ofTier).mergeSort ClassDefinition.notAfter

/-- A candidate is used or unused. -/
theorem mem_used_or_unused {candidates : List Text} {records : List Usage.Record}
    {definitions : List ClassDefinition} {name : Text} (h : name ∈ candidates) :
  name ∈ (of candidates records definitions).used
    ∨ name ∈ (of candidates records definitions).unused
  := by
  simp only [of, List.mem_filter, h, true_and]
  cases (records.map Usage.Record.name).contains name <;> simp

end Reconciliation

end StylePrune
