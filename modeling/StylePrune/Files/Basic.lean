import StylePrune.Path.Basic

/-!
# File trees

A file tree maps places, lists of names from the root, to files and directories; the root itself
is always a directory.  `Files.get?` is the view through which everything else is stated:
`get?_put` and `get?_erase` say what the two operations change, and that they change nothing else.
-/

namespace StylePrune

/-- A place in a file tree: the names that lead to it from the root. -/
abbrev Place := List String

/-- What is at a place. -/
inductive Entry where
  | file (bytes : List UInt8)
  | directory
  deriving DecidableEq, Repr

/-- The places in use with what is there, each once, and the place that relative paths start
from. -/
structure Files where
  entries : List (Place × Entry) := []
  here : Place := []
  nodup : (entries.map (·.1)).Nodup := by exact List.nodup_nil
  deriving Repr

namespace Files

/-- What is at a place. -/
def get? (fs : Files) (p : Place) : Option Entry :=
  if p = [] then some .directory else (fs.entries.find? (·.1 = p)).map (·.2)

private theorem nodup_filter {entries : List (Place × Entry)} (h : (entries.map (·.1)).Nodup)
    (keep : Place × Entry → Bool) :
  ((entries.filter keep).map (·.1)).Nodup
  := h.sublist (List.filter_sublist.map _)

/-- The tree without what is at a place. -/
def erase (fs : Files) (p : Place) : Files :=
  { fs with entries := fs.entries.filter (·.1 ≠ p), nodup := nodup_filter fs.nodup _ }

/-- The tree with an entry at a place, instead of what was there. -/
def put (fs : Files) (p : Place) (e : Entry) : Files :=
  { fs with
    entries := (fs.entries.filter (·.1 ≠ p)) ++ [(p, e)]
    nodup := by
      rw [List.map_append, List.nodup_append]
      refine ⟨nodup_filter fs.nodup _, by simp, ?_⟩
      rintro a ha b hb rfl
      simp only [List.map_cons, List.map_nil, List.mem_singleton] at hb
      simp [hb] at ha }

/-- The entries below a place, each with the names that lead to it from there. -/
def below (fs : Files) (p : Place) : List (Place × Entry) :=
  fs.entries.filterMap fun (q, e) =>
    if p.isPrefixOf q ∧ q.length ≠ p.length then some (q.drop p.length, e) else none

/-- Whether nothing is below a place. -/
def isEmptyAt (fs : Files) (p : Place) : Bool := (fs.below p).isEmpty

/-- The tree without what is at a place and below it. -/
def eraseTree (fs : Files) (p : Place) : Files :=
  { fs with entries := fs.entries.filter (!p.isPrefixOf ·.1), nodup := nodup_filter fs.nodup _ }

/-- The tree with an entry and everything below it at another place. -/
def graft (fs : Files) (p : Place) (e : Entry) (children : List (Place × Entry)) : Files :=
  children.foldl (fun fs (q, e) => fs.put (p ++ q) e) (fs.put p e)

/-- The tree in which what is at a place, with all that is below it, has moved to another place. -/
def move (fs : Files) (p q : Place) : Files :=
  match fs.get? p with
  | none => fs
  | some e => ((fs.eraseTree p).eraseTree q).graft q e (fs.below p)

/-! ### The view -/

@[simp]
theorem get?_nil (fs : Files) :
  fs.get? [] = some .directory
  := by
  simp [get?]

theorem find?_filter_ne (entries : List (Place × Entry)) {p q : Place} (h : q ≠ p) :
  (entries.filter (·.1 ≠ p)).find? (·.1 = q) = entries.find? (·.1 = q)
  := by
  induction entries with
  | nil => rfl
  | cons x rest ih =>
    by_cases hx : x.1 = p
    · have hq : x.1 ≠ q := fun hq => h (hq.symm.trans hx)
      simpa [List.filter_cons, hx, List.find?_cons, Ne.symm h] using ih
    · by_cases hq : x.1 = q
      · simp [hq, h]
      · simpa [List.filter_cons, hx, List.find?_cons, hq] using ih

/-- What was put at a place is there, and nothing else has changed. -/
theorem get?_put (fs : Files) {p : Place} (hp : p ≠ []) (e : Entry) (q : Place) :
  (fs.put p e).get? q = if q = p then some e else fs.get? q
  := by
  by_cases hq : q = []
  · subst hq
    simp [Ne.symm hp]
  · by_cases h : q = p
    · subst h
      have : (fs.entries.filter (·.1 ≠ q)).find? (·.1 = q) = none := by
        simp [List.find?_eq_none]
      simp only [get?, put, hq, ↓reduceIte, List.find?_append, this]
      simp
    · have := find?_filter_ne fs.entries h
      simp only [get?, put, hq, h, ↓reduceIte, List.find?_append, this]
      simp [Ne.symm h]

/-- Nothing is left at a place that was erased, and nothing else has changed. -/
theorem get?_erase (fs : Files) {p : Place} (hp : p ≠ []) (q : Place) :
  (fs.erase p).get? q = if q = p then none else fs.get? q
  := by
  by_cases hq : q = []
  · subst hq
    simp [Ne.symm hp]
  · by_cases h : q = p
    · subst h
      simp [get?, erase, hq]
    · have := find?_filter_ne fs.entries h
      simp only [get?, erase, hq, h, ↓reduceIte, this]

end Files

end StylePrune
