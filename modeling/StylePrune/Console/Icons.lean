import StylePrune.Text.LowerCase

/-!
# Icons

A terminal that cannot show UTF-8 gets ASCII words in the place of icons.
-/

namespace StylePrune.Console

/-- The ASCII words for icons. -/
def asciiIcons : List (Char × String) :=
  [('✓', "[OK]"), ('✔', "[OK]"), ('✗', "[FAIL]"), ('⚠', "[WARN]"), ('→', "->"), ('←', "<-"),
    ('…', "..."), ('•', "*"), ('│', "|"), ('─', "-")]

/-- The encoding that is used where a terminal names none. -/
def defaultEncoding : String := "utf-8"

/-- The name of a terminal's encoding in lower case; an empty name is none. -/
def encodingName (named : Option String) : String :=
  match named with
  | none | some "" => defaultEncoding
  | some name => Text.lowerString name

/-- Whether an encoding with a lower-case name is UTF-8. -/
def isUtf8 (name : String) : Bool :=
  ["utf-8", "utf8"].contains (name.map fun c => if c = '_' then '-' else c)

/-- The ASCII word for an icon; any other character stands for itself. -/
def asciiOf (c : Char) : Text :=
  match asciiIcons.find? (·.1 == c) with
  | some (_, word) => word.toList
  | none => [c]

/-- The text as a terminal with the given encoding shows it. -/
def sanitize (encoding : String) (t : Text) : Text :=
  if isUtf8 encoding then t else t.flatMap asciiOf

end StylePrune.Console
