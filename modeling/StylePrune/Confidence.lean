import StylePrune.Text.Blank
import StylePrune.Text.Lines
import StylePrune.Text.Digit
import StylePrune.ClassName
import StylePrune.Path.Basic

/-!
# Confidence in a finding

A tier says how far a class name may be trusted to be written by hand and kept as it is.  Tiers
are ranked, and a tier meets every threshold that it is not below.  `ofName` scores a name by its
shape and by the directories of the stylesheet that defines it; the first rule that applies
decides.
-/

namespace StylePrune

/-- A tier of trust in a class name. -/
inductive Confidence where
  | high
  | medium
  | low
  deriving DecidableEq, Repr

namespace Confidence

/-- The tiers from the most to the least trusted. -/
def all : List Confidence := [high, medium, low]

/-- The height of a tier. -/
def rank : Confidence → Nat
  | high => 3
  | medium => 2
  | low => 1

/-- Whether a tier is at or above a threshold. -/
def meets (tier threshold : Confidence) : Bool := threshold.rank ≤ tier.rank

/-- The word for a tier. -/
def word : Confidence → String
  | high => "high"
  | medium => "medium"
  | low => "low"

/-- The tier that a text names, in any case and with blanks around it.  Only ASCII letters have a
lower-case form that is a letter of one of the words. -/
def ofText? (t : Text) : Option Confidence :=
  let t := (Text.trim t).map Char.toLower
  all.find? fun tier => tier.word.toList == t

/-! ### The shape of a name -/

/-- A lower-case ASCII word, not empty. -/
def isLowerWord (t : Text) : Bool := !t.isEmpty && t.all Char.isLower

/-- Lower-case words joined by single hyphens. -/
def isKebab (name : Text) : Bool :=
  (Text.splitOn '-' (ClassName.dropFinalLineFeed name)).all isLowerWord

/-- Whether two hyphens stand in a text before any line feed. -/
def meetsModifier : Text → Bool
  | [] => false
  | c :: t => (c == '-' && t.head? == some '-') || (c != '\n' && meetsModifier t)

/-- Whether two underscores stand in a text and, after at least one more character of the same
line, two hyphens. -/
def hasElementAndModifier : Text → Bool
  | [] => false
  | c :: t =>
    (match c, t with
      | '_', '_' :: d :: rest => d != '\n' && meetsModifier rest
      | _, _ => false) || hasElementAndModifier t

/-- Whether three decimal digits of any script stand in a row. -/
def hasDigitRun : Text → Bool
  | [] => false
  | a :: t =>
    (match t with
      | b :: c :: _ => Text.isDecimal a && Text.isDecimal b && Text.isDecimal c
      | _ => false) || hasDigitRun t

/-! ### The place of a stylesheet -/

/-- Directories whose stylesheets are written by hand for one component. -/
def componentDirs : List String := ["components", "features"]

/-- Directories whose stylesheets are filled in by templates. -/
def generatedDirs : List String := ["mixins", "utilities", "utils", "helpers"]

/-- Whether one of the directories on the way to a file has one of the names, in any case. -/
def liesIn (file : Path) (names : List String) : Bool :=
  file.dirNames.any fun dir => names.contains (dir.map Char.toLower)

/-- The tier of a class name that is defined in the given stylesheet. -/
def ofName (name : Text) (file : Path) : Confidence :=
  if isKebab name then high
  else if hasElementAndModifier name then high
  else if liesIn file componentDirs then high
  else if name.length < 3 then low
  else if hasDigitRun name then low
  else if liesIn file generatedDirs && (name.getLast? == some '-' || name.getLast? == some '_') then
    low
  else medium

/-- A tier meets exactly the thresholds that it is not below. -/
theorem meets_iff {tier threshold : Confidence} :
  tier.meets threshold = true ↔ threshold.rank ≤ tier.rank
  := by
  simp [meets]

/-- Meeting a threshold is meeting every weaker one. -/
theorem meets_trans {a b c : Confidence} (hab : a.meets b = true) (hbc : b.meets c = true) :
  a.meets c = true
  := by
  rw [meets_iff] at *
  omega

end Confidence

end StylePrune
