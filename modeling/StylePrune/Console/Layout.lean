import StylePrune.Text.Cluster
import StylePrune.Text.Lines

/-!
# Layout

A terminal with a width shows a text in lines that fit: tabs are blanks up to the next stop, a word
that does not fit begins a new line, and a word that fits on no line is cut.  Blanks stay with the
word before them, and those that reach beyond the width are left out.  `totalWidth_fitting_le` says
that what is kept fits, `flatten_cutAfter` and `flatten_wordsAfter` that cutting loses nothing.
-/

namespace StylePrune.Console.Layout

open Text

/-- The cells between two tab stops. -/
def tabWidth : Nat := 8

/-- A line with blanks for tabs, from the given cell on.  The line is given by what stands between
its tabs. -/
def expandFrom : Nat → List Text → Text
  | _, [] => []
  | _, [t] => t
  | cell, t :: rest =>
    let cell := cell + cells (t ++ [' '])
    let missing := (tabWidth - cell % tabWidth) % tabWidth
    t ++ ' ' :: List.replicate missing ' ' ++ expandFrom (cell + missing) rest

/-- A line with blanks for tabs, at least one for each and as many as lead to the next stop. -/
def expandTabs (line : Text) : Text := expandFrom 0 (splitOn '\t' line)

/-- The words of a line after one that is begun.  Blanks behind other characters end a word. -/
def wordsAfter : Text → Text → List Text
  | word, [] => if word = [] then [] else [word]
  | word, c :: t =>
    let ended := !blank word && (word.getLast?.any isBlank) && !isBlank c
    if ended then word :: wordsAfter [c] t else wordsAfter (word ++ [c]) t

/-- The words of a line, each with the blanks behind it; the first has those in front of it. -/
def words (line : Text) : List Text := wordsAfter [] line

/-- The pieces of a word that are as long as the width allows, after one that is begun and has the
given size.  The word is given by its clusters. -/
def cutAfter (width : Nat) : Text → Nat → List Cluster → List Text
  | piece, _, [] => [piece]
  | piece, size, k :: ks =>
    if width < size + k.width then piece :: cutAfter width k.text k.width ks
    else cutAfter width (piece ++ k.text) (size + k.width) ks

/-- The lines for words, after one that is begun and has the given size. -/
def fillAfter (width : Nat) : Text → Nat → List Text → List Text
  | line, _, [] => [line]
  | line, size, word :: rest =>
    let needed := cells (trimEnd word)
    if size + needed ≤ width then fillAfter width (line ++ word) (size + cells word) rest
    else
      let done := if line = [] then [] else [line]
      if needed ≤ width then done ++ fillAfter width word (cells word) rest
      else
        let pieces := cutAfter width [] 0 (clusters word)
        let last := pieces.getLast?.getD []
        done ++ pieces.dropLast ++ fillAfter width last (cells last) rest

/-- The clusters at the start that fit.  Half a wide one is a blank. -/
def fitting : Nat → List Cluster → List Cluster
  | _, [] => []
  | width, k :: ks =>
    if k.width ≤ width then k :: fitting (width - k.width) ks
    else List.replicate width ⟨[' '], 1⟩

/-- A line without what has no cell left. -/
def crop (width : Nat) (line : Text) : Text :=
  if cells line ≤ width then line else Cluster.flatten (fitting width (clusters line))

/-- A line without the blanks at its end as far as it has too many characters, and without what
has no cell left. -/
def fit (width : Nat) (line : Text) : Text :=
  let blanks := line.length - (trimEnd line).length
  crop width (line.take (line.length - min blanks (line.length - width)))

/-- The lines for one line. -/
def wrapLine (width : Nat) (line : Text) : List Text :=
  let line := expandTabs line
  (if blank line then [line] else fillAfter width [] 0 (words line)).map (fit width)

/-- The text in lines that fit. -/
def wrap (width : Nat) (t : Text) : Text := ofLines ((lines t).flatMap (wrapLine width))

/-- The clusters that fit have at most as many cells as the width. -/
theorem totalWidth_fitting_le (width : Nat) (ks : List Cluster) :
  Cluster.totalWidth (fitting width ks) ≤ width
  := by
  induction ks generalizing width with
  | nil => simp [fitting]
  | cons k ks ih =>
    unfold fitting
    split
    · have h := ih (width - k.width)
      simp only [Cluster.totalWidth_cons]
      omega
    · clear ih
      induction width with
      | zero => simp
      | succ width ihw =>
        have h := ihw (by omega)
        simp only [List.replicate_succ, Cluster.totalWidth_cons]
        omega

/-- Cutting a word loses no character. -/
theorem flatten_cutAfter (width : Nat) (piece : Text) (size : Nat) (ks : List Cluster) :
  (cutAfter width piece size ks).flatten = piece ++ Cluster.flatten ks
  := by
  induction ks generalizing piece size with
  | nil => simp [cutAfter]
  | cons k ks ih =>
    unfold cutAfter
    split <;> simp [ih]

/-- The words of a line spell it. -/
theorem flatten_wordsAfter (word line : Text) :
  (wordsAfter word line).flatten = word ++ line
  := by
  induction line generalizing word with
  | nil =>
    unfold wordsAfter
    split <;> simp_all
  | cons c line ih =>
    unfold wordsAfter
    simp only
    split <;> simp [ih]

end StylePrune.Console.Layout
