import StylePrune.Text.Blank

/-!
# The order of texts

Texts and strings are ordered by code points, a text before all those that it starts.  `sorted`
puts a list of texts into that order and keeps equal ones as they stand.
-/

namespace StylePrune.Text

/-- Whether a text is not behind another one. -/
def notAfter (s t : Text) : Bool := !decide (t < s)

/-- The texts in ascending order. -/
def sorted (ts : List Text) : List Text := ts.mergeSort notAfter

/-- Sorting texts only changes their order. -/
theorem sorted_perm (ts : List Text) :
  (sorted ts).Perm ts
  := List.mergeSort_perm ts notAfter

end StylePrune.Text
