/-!
# Blank characters

A text is a list of characters.  `isBlank` holds of the twenty-nine characters that count as
white space in a stylesheet: the ASCII controls and separators, the next-line character and
the Unicode space separators, but neither the zero-width space nor the byte-order mark.
`trim` takes the blanks off both ends of a text, and a text is blank when nothing else is in
it.
-/

namespace StylePrune

/-- A text is a list of characters. -/
abbrev Text := List Char

namespace Text

/-- The blank characters: white space in the sense of Unicode, and the four ASCII separators. -/
def isBlank (c : Char) : Bool :=
  let n := c.toNat
  (9 ≤ n && n ≤ 13) || (28 ≤ n && n ≤ 32) || n == 0x85 || n == 0xA0 || n == 0x1680
    || (0x2000 ≤ n && n ≤ 0x200A) || n == 0x2028 || n == 0x2029 || n == 0x202F
    || n == 0x205F || n == 0x3000

/-- A text is blank when each of its characters is; the empty text is. -/
def blank (t : Text) : Bool := t.all isBlank

/-- The text without the blanks at its start. -/
def trimStart (t : Text) : Text := t.dropWhile isBlank

/-- The text without the blanks at its end. -/
def trimEnd (t : Text) : Text := (t.reverse.dropWhile isBlank).reverse

/-- The text without the blanks at its two ends. -/
def trim (t : Text) : Text := trimEnd (trimStart t)

/-- Every character that the core library calls white space is blank. -/
theorem isBlank_of_isWhitespace {c : Char} (h : c.isWhitespace = true) :
  isBlank c = true
  := by
  simp only [Char.isWhitespace, Bool.or_eq_true, decide_eq_true_eq] at h
  rcases h with ((rfl | rfl) | rfl) | rfl <;> rfl

@[simp]
theorem blank_nil : blank [] = true := rfl

@[simp]
theorem blank_cons (c : Char) (t : Text) :
  blank (c :: t) = (isBlank c && blank t)
  := rfl

@[simp]
theorem trim_nil : trim [] = [] := rfl

end Text

end StylePrune
