import StylePrune.Job

/-!
# Oversight

A long job is overseen by something with a state of its own: a progress display, or somebody who
may ask it to stop.  An oversight can end the job with a fault, but it does not touch the world.
-/

namespace StylePrune

/-- A job under an oversight with a state. -/
abbrev Overseen (σ : Type) := EStateM Fault (World × σ)

/-- What an oversight does. -/
abbrev Overseer (σ : Type) := EStateM Fault σ

namespace Overseen

/-- A job that the oversight does not notice. -/
def job (t : Job α) : Overseen σ α := fun (world, state) =>
  match t world with
  | .ok a world => .ok a (world, state)
  | .error fault world => .error fault (world, state)

/-- A step of the oversight. -/
def overseer (t : Overseer σ α) : Overseen σ α := fun (world, state) =>
  match t state with
  | .ok a state => .ok a (world, state)
  | .error fault state => .error fault (world, state)

/-- The state of the oversight. -/
def state : Overseen σ σ := do return (← get).2

/-- An overseen job with nobody to oversee it. -/
def alone (t : Overseen Unit α) : Job α := fun world =>
  match t (world, ()) with
  | .ok a (world, _) => .ok a world
  | .error fault (world, _) => .error fault world

/-- Ends an activity if a stop is asked for. -/
def checkpoint (stops : σ → Bool) (activity : Activity) : Overseen σ Unit := do
  if stops (← state) then throw (.cancelled activity)

end Overseen

end StylePrune
