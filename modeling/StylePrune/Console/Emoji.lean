import StylePrune.Console.EmojiTable
import StylePrune.Text.Lines
import StylePrune.Text.LowerCase
import StylePrune.Text.Shape

/-!
# Emoji codes

The name of an emoji between two colons stands for the emoji.  Behind a minus sign the name may end
in `emoji` or `text`, for the form that the emoji is to have.  What stands between two colons and is
no name stays as it is.
-/

namespace StylePrune.Console.Emoji

open Text

/-- The names in a table with their emoji. -/
def entriesOf (table : List String) : List (Text × Text) :=
  let entries := table.flatMap fun line => (splitOn ';' line.toList).filter (· != [])
  entries.map fun entry => (entry.takeWhile (· != ' '), (entry.dropWhile (· != ' ')).drop 1)

/-- The emoji that come in one form only. -/
def single : List (Text × Text) := entriesOf EmojiTable.single

/-- The emoji that take a skin tone. -/
def toned : List (Text × Text) := entriesOf EmojiTable.toned

/-- What the name of an emoji with a skin tone ends in, and the character for the tone. -/
def tones : List (Text × Char) :=
  [("_medium-light_skin_tone".toList, '🏼'), ("_medium-dark_skin_tone".toList, '🏾'),
    ("_light_skin_tone".toList, '🏻'), ("_medium_skin_tone".toList, '🏽'),
    ("_dark_skin_tone".toList, '🏿')]

/-- The text without the given end, if it has it. -/
def before? (ending t : Text) : Option Text :=
  (after? ending.reverse t.reverse).map List.reverse

/-- The emoji with a tone behind its first character, in the place of a mark for its form. -/
def withTone (tone : Char) : Text → Text
  | [] => [tone]
  | c :: t => c :: tone :: (after? [Char.ofNat 0xFE0F] t).getD t

/-- The emoji with a lower-case name. -/
def find? (name : Text) : Option Text :=
  match (single ++ toned).find? (·.1 == name) with
  | some (_, emoji) => some emoji
  | none => tones.findSome? fun (ending, tone) => do
    let base ← before? ending name
    let (_, emoji) ← toned.find? (·.1 == base)
    return withTone tone emoji

/-- What a name may end in for a form of its emoji, and the character for the form. -/
def forms : List (Text × Char) :=
  [("-emoji".toList, Char.ofNat 0xFE0F), ("-text".toList, Char.ofNat 0xFE0E)]

/-- A name without the word for a form, and what that adds to the emoji. -/
def splitForm (t : Text) : Text × Text :=
  (forms.findSome? fun (ending, form) => (before? ending t).map (·, [form])).getD (t, [])

/-- An emoji code: two colons with no blank between them. -/
def code : Shape := fun _ t =>
  match t with
  | ':' :: rest => after? [':'] (rest.dropWhile fun c => c != ':' && !isBlank c)
  | _ => none

/-- The emoji for a code, or else the code itself. -/
def ofCode (t : Text) : Text :=
  let (name, form) := splitForm (t.drop 1).dropLast
  match find? (lowerCase name) with
  | some emoji => emoji ++ form
  | none => t

/-- The text with emoji in the place of their codes. -/
def replaceCodes (t : Text) : Text := code.replace ofCode t

end StylePrune.Console.Emoji
