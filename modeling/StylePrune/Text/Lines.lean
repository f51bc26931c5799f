import StylePrune.Text.Blank

/-!
# Lines

`splitOn` cuts a text at every occurrence of one character, and `lines` does so at the line
feed, the only character that ends a line; there is always at least one piece.  `ofLines`
writes the line feeds back, and `ofLines_lines` says that nothing is lost.
-/

namespace StylePrune.Text

/-- The pieces of a text between the occurrences of `sep`, which belong to no piece. -/
def splitOn (sep : Char) : Text → List Text
  | [] => [[]]
  | c :: t =>
    if c = sep then [] :: splitOn sep t
    else
      match splitOn sep t with
      | [] => [[c]]
      | p :: ps => (c :: p) :: ps

/-- The pieces of a list written one after the other, with `sep` between neighbours. -/
def joinWith (sep : Char) : List Text → Text
  | [] => []
  | [p] => p
  | p :: q :: ps => p ++ sep :: joinWith sep (q :: ps)

/-- The lines of a text. -/
def lines (t : Text) : List Text := splitOn '\n' t

/-- The text with the given lines. -/
def ofLines (ls : List Text) : Text := joinWith '\n' ls

/-- The text with every line end, a carriage return with or without a line feed behind it, written
as a line feed. -/
def unifyLineEnds : Text → Text
  | [] => []
  | '\r' :: '\n' :: t => '\n' :: unifyLineEnds t
  | c :: t => (if c = '\r' then '\n' else c) :: unifyLineEnds t

theorem splitOn_ne_nil (sep : Char) (t : Text) :
  splitOn sep t ≠ []
  := by
  cases t with
  | nil => simp [splitOn]
  | cons c t =>
    unfold splitOn
    split
    · simp
    · split <;> simp

/-- Writing the separators back gives the text that was cut. -/
theorem joinWith_splitOn (sep : Char) (t : Text) :
  joinWith sep (splitOn sep t) = t
  := by
  induction t with
  | nil => rfl
  | cons c t ih =>
    unfold splitOn
    split
    · next h =>
      subst h
      cases hs : splitOn c t with
      | nil => exact absurd hs (splitOn_ne_nil c t)
      | cons p ps => rw [hs] at ih; simp [joinWith, ih]
    · cases hs : splitOn sep t with
      | nil => exact absurd hs (splitOn_ne_nil sep t)
      | cons p ps =>
        rw [hs] at ih
        cases ps with
        | nil => simpa [joinWith] using ih
        | cons q qs => simpa [joinWith] using ih

/-- A text is determined by its lines. -/
theorem ofLines_lines (t : Text) :
  ofLines (lines t) = t
  := joinWith_splitOn '\n' t

end StylePrune.Text
