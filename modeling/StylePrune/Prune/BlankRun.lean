import StylePrune.Text.Blank

/-!
# Runs of blank lines

`collapseBlanks` shortens every run of blank lines to a limit.  It keeps the first lines of a run
and all lines that are not blank.
-/

namespace StylePrune.Prune

/-- The lines behind a run of `run` blank ones, with no run of more than `limit`. -/
def collapseAfter (limit : Nat) : Nat → List Text → List Text
  | _, [] => []
  | run, line :: rest =>
    if Text.blank line then
      if run < limit then line :: collapseAfter limit (run + 1) rest
      else collapseAfter limit (run + 1) rest
    else line :: collapseAfter limit 0 rest

/-- The lines with no run of more than `limit` blank ones. -/
def collapseBlanks (limit : Nat) (lines : List Text) : List Text := collapseAfter limit 0 lines

/-- The greatest run of blank lines that is left after a removal. -/
def maxBlankRun : Nat := 2

/-- Collapsing keeps the order of the lines and adds none. -/
theorem collapseAfter_sublist (limit run : Nat) (lines : List Text) :
  (collapseAfter limit run lines).Sublist lines
  := by
  induction lines generalizing run with
  | nil => simp [collapseAfter]
  | cons line rest ih =>
    unfold collapseAfter
    split
    · split
      · exact (ih _).cons_cons line
      · exact (ih _).cons line
    · exact (ih _).cons_cons line

end StylePrune.Prune
