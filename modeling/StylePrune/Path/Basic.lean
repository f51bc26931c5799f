import StylePrune.Text.Lines

/-!
# Paths

A path is an anchor and a list of names.  Reading a path drops empty names and single dots, keeps
double dots, and tells one leading slash from exactly two; three or more count as one.  Writing it
joins the names with slashes, and a relative path without names is a single dot.

All operations here are on the path alone; what a path leads to is a matter of a file tree.
-/

namespace StylePrune

/-- Where a path starts: at the place it is used from, or at the root. -/
inductive Anchor where
  | relative
  | root
  | doubleRoot
  deriving DecidableEq, Repr

/-- The slashes that an anchor is written with. -/
def Anchor.slashes : Anchor → String
  | .relative => ""
  | .root => "/"
  | .doubleRoot => "//"

/-- An anchor and the names to follow from it. -/
structure Path where
  anchor : Anchor
  names : List String
  deriving DecidableEq, Repr

namespace Path

/-- The anchor that the start of a text stands for. -/
def anchorOf : Text → Anchor
  | '/' :: '/' :: '/' :: _ => .root
  | '/' :: '/' :: _ => .doubleRoot
  | '/' :: _ => .root
  | _ => .relative

/-- The names between the slashes of a text, without empty ones and single dots. -/
def namesOf (t : Text) : List String :=
  ((Text.splitOn '/' t).filter fun name => name != [] && name != ['.']).map String.ofList

/-- The path that a string stands for. -/
def ofString (s : String) : Path := ⟨anchorOf s.toList, namesOf s.toList⟩

/-- The path as a string. -/
protected def toString (p : Path) : String :=
  if p.anchor = .relative ∧ p.names = [] then "."
  else p.anchor.slashes ++ String.intercalate "/" p.names

instance : ToString Path := ⟨Path.toString⟩

/-- The path from the root through the given names. -/
def fromRoot (names : List String) : Path := ⟨.root, names⟩

/-- The last name of a path, if there is one. -/
def name? (p : Path) : Option String := p.names.getLast?

/-- The names before the last one. -/
def dirNames (p : Path) : List String := p.names.dropLast

/-- The path without its last name; a path without names is its own parent. -/
def parent (p : Path) : Path := { p with names := p.names.dropLast }

/-- One more name below a path. -/
def child (p : Path) (name : String) : Path := { p with names := p.names ++ [name] }

/-- The second path as seen from the first: an anchored path stays what it is. -/
def append (p q : Path) : Path :=
  if q.anchor = .relative then { p with names := p.names ++ q.names } else q

/-- The path with its last name replaced, if it has one. -/
def withName? (p : Path) (name : String) : Option Path :=
  if p.names = [] then none else some (p.parent.child name)

/-- The part of a name from its last full stop on, unless that is its first or last character. -/
def suffixOf (name : String) : String :=
  let cs := name.toList
  let tail := (cs.reverse.takeWhile (· != '.')).reverse
  if tail.length + 1 < cs.length ∧ tail ≠ [] then String.ofList ('.' :: tail) else ""

/-- The suffix of the last name of a path. -/
def suffix (p : Path) : String := (p.name?.map suffixOf).getD ""

/-- What remains of a path below another one, if it lies below it. -/
def relativeTo? (p base : Path) : Option Path :=
  if p.anchor = base.anchor ∧ base.names.isPrefixOf p.names then
    some ⟨.relative, p.names.drop base.names.length⟩
  else none

/-- One step along a name from a place: a double dot goes up, and stays at the root. -/
def step (place : List String) (name : String) : List String :=
  if name = ".." then place.dropLast else place ++ [name]

/-- The names from the root that a path used at a place leads through, double dots worked off. -/
def resolveFrom (place : List String) (p : Path) : List String :=
  p.names.foldl step (if p.anchor = .relative then place else [])

/-- The names of a path with its anchor in front: the key by which paths are sorted. -/
def sortKey (p : Path) : List String :=
  if p.anchor = .relative then p.names else p.anchor.slashes :: p.names

/-- The path as seen from a root directory, or the string unchanged if it does not lie there. -/
def display (root : Path) (s : String) : String :=
  match (ofString s).relativeTo? root with
  | some p => p.toString
  | none => s

/-- A path below a directory remains when the directory is taken off. -/
theorem relativeTo?_append (base : Path) (names : List String) :
  (Path.mk base.anchor (base.names ++ names)).relativeTo? base = some ⟨.relative, names⟩
  := by
  simp [relativeTo?]

end Path

end StylePrune
