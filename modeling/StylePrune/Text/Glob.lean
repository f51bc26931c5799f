import StylePrune.Text.Blank

/-!
# Wildcard patterns

In a pattern a star stands for any text, a question mark for any one character, and brackets for
one character out of a set, or, behind an exclamation mark, for one outside it.  A bracket that
is never closed stands for itself, and a closing bracket at the very start of a set belongs to
the set.

Within a set two characters with a hyphen between them span a range.  A range that runs downwards
is taken out of the set together with its ends, and what stood around it moves together; where
that brings an exclamation mark to the front, it negates.
-/

namespace StylePrune.Text.Glob

/-- A part of a pattern. -/
inductive Part where
  | anyText
  | anyChar
  | char (c : Char)
  | oneOf (ranges : List (Char × Char))
  | noneOf (ranges : List (Char × Char))
  deriving DecidableEq, Repr

/-! ### Sets -/

/-- The chunks of a set: neighbouring chunks have the hyphen of a range between them.  The hyphen
is not looked for in the first `skip` characters. -/
def chunksAfter : Nat → Text → List Text
  | _, [] => [[]]
  | 0, '-' :: t =>
    match t with
    | [] => [['-']]
    | _ :: _ => [] :: chunksAfter 2 t
  | skip, c :: t =>
    match chunksAfter (skip - 1) t with
    | [] => [[c]]
    | p :: ps => (c :: p) :: ps

/-- The chunks without the ranges that run downwards. -/
def dropEmptyRanges : List Text → List Text
  | [] => []
  | chunk :: rest =>
    match dropEmptyRanges rest with
    | [] => [chunk]
    | next :: more =>
      match chunk.getLast?, next with
      | some low, high :: tail =>
        if high < low then (chunk.dropLast ++ tail) :: more else chunk :: next :: more
      | _, _ => chunk :: next :: more

/-- The ranges that chunks span, each character that ends none as a range of its own.  A hyphen
with nothing in front of it stands for itself. -/
def rangesOf : List Text → List (Char × Char)
  | [] => []
  | chunk :: rest =>
    let own := chunk.map fun c => (c, c)
    match chunk.getLast?, rest with
    | some low, (high :: _) :: _ => own ++ (low, high) :: rangesOf rest
    | none, _ :: _ => ('-', '-') :: rangesOf rest
    | _, _ => own ++ rangesOf rest

/-- The part of a pattern that brackets with the given contents stand for. -/
def setPart (contents : Text) : Part :=
  let chunks := dropEmptyRanges (chunksAfter (if contents.head? = some '!' then 2 else 1) contents)
  match chunks with
  | ('!' :: chunk) :: rest => .noneOf (rangesOf (chunk :: rest))
  | _ => .oneOf (rangesOf chunks)

/-- The contents of a bracket and the text behind it, if the bracket is closed. -/
def closedSet? (t : Text) : Option (Text × Text) :=
  let lead := if t.head? = some '!' then 1 else 0
  let lead := if t[lead]? = some ']' then lead + 1 else lead
  let tail := t.drop lead
  match tail.dropWhile (· != ']') with
  | [] => none
  | _ :: rest => some (t.take lead ++ tail.takeWhile (· != ']'), rest)

/-! ### Patterns -/

/-- The parts of a pattern of which the first `skip` characters are used up. -/
def partsAfter : Nat → Text → List Part
  | _, [] => []
  | skip + 1, _ :: t => partsAfter skip t
  | 0, c :: t =>
    if c = '*' then .anyText :: partsAfter 0 t
    else if c = '?' then .anyChar :: partsAfter 0 t
    else if c = '[' then
      match closedSet? t with
      | some (contents, rest) => setPart contents :: partsAfter (t.length - rest.length) t
      | none => .char '[' :: partsAfter 0 t
    else .char c :: partsAfter 0 t

/-- The parts of a pattern. -/
def parts (pattern : Text) : List Part := partsAfter 0 pattern

/-- Whether a character lies in one of the ranges. -/
def inRanges (ranges : List (Char × Char)) (c : Char) : Bool :=
  ranges.any fun (low, high) => low ≤ c && c ≤ high

/-- Whether a part that stands for one character stands for this one. -/
def Part.accepts : Part → Char → Bool
  | anyText, _ => false
  | anyChar, _ => true
  | char d, c => c == d
  | oneOf ranges, c => inRanges ranges c
  | noneOf ranges, c => !inRanges ranges c

/-- Whether `rest` accepts some end of the text. -/
def acceptsSomeEnd (rest : Text → Bool) : Text → Bool
  | [] => rest []
  | c :: t => rest (c :: t) || acceptsSomeEnd rest t

/-- Whether parts stand for a text as a whole. -/
def accepts : List Part → Text → Bool
  | [], t => t.isEmpty
  | .anyText :: ps, t => acceptsSomeEnd (accepts ps) t
  | p :: ps, t =>
    match t with
    | [] => false
    | c :: t => p.accepts c && accepts ps t

/-- Whether a pattern stands for a text. -/
def isMatch (pattern t : Text) : Bool := accepts (parts pattern) t

/-- A pattern of a star alone stands for every text. -/
theorem isMatch_star (t : Text) :
  isMatch ['*'] t = true
  := by
  have h : ∀ t, acceptsSomeEnd (accepts []) t = true := by
    intro t
    induction t with
    | nil => rfl
    | cons c t ih => simp [acceptsSomeEnd, ih]
  exact h t

end StylePrune.Text.Glob
