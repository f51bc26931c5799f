import StylePrune.Path.Basic

/-!
# Warnings

A warning is a problem with one file that a run goes on from.  It has a category, a message and,
where it is about a file, a path.
-/

namespace StylePrune

/-- A problem that a run goes on from. -/
structure Warning where
  category : String
  message : String
  path : Option Path := none
  deriving DecidableEq, Repr

/-- A warning on one line. -/
def Warning.render (w : Warning) : String :=
  match w.path with
  | some p => "[" ++ w.category ++ "] " ++ p.toString ++ ": " ++ w.message
  | none => "[" ++ w.category ++ "] " ++ w.message

end StylePrune
