import StylePrune.Stylesheet.OpenBlocks
import StylePrune.Stylesheet.Selector

/-!
# Scanning lines

A scanner reads the cleaned lines of a stylesheet one after the other.  Its state is made of the
open blocks and of the name of a rule whose block has not been opened yet.  `Scanner.read` says
what a line defines and changes nothing; `Scanner.advance` takes the state past a line.  Whoever
leaves a line out simply does not advance past it.
-/

namespace StylePrune.Stylesheet

open Text

/-- What one line says: its members if it is a selector line, the name of the rule that its first
brace opens, and the name that it hands on to the next line. -/
structure Reading where
  text : Text
  members : Option (List Member) := none
  opener : Option Text := none
  carry : Option Text := none
  deriving DecidableEq, Repr

namespace Reading

/-- The number of opening braces of the line. -/
def opens (r : Reading) : Nat := r.text.count '\x7b'

/-- The number of closing braces of the line. -/
def closes (r : Reading) : Nat := r.text.count '\x7d'

/-- The class names that the line defines. -/
def definitions (r : Reading) : List (Text × Context) := (r.members.getD []).flatMap Member.names

end Reading

/-- Whether the next line that is not blank opens a block or starts with an ampersand. -/
def continues : List Text → Bool
  | [] => false
  | line :: rest =>
    match trim line with
    | [] => continues rest
    | c :: _ => c == '\x7b' || c == '&'

/-- The open blocks, and the rule whose block is still to be opened. -/
structure Scanner where
  blocks : OpenBlocks := {}
  pending : Option Text := none
  deriving DecidableEq, Repr

namespace Scanner

/-- The name that the suffixes of the next line extend. -/
def parent (s : Scanner) : Option Text := s.pending <|> s.blocks.top

/-- The last name that nested rules may extend. -/
def primary (members : List Member) : Option Text := (members.filterMap Member.primary).getLast?

/-- What a line says that is followed by the given ones; a blank line says nothing. -/
def read (s : Scanner) (line : Text) (following : List Text) : Option Reading :=
  let text := trim line
  match text with
  | [] => none
  | c :: _ =>
    if c = '@' then some { text }
    else
      match Member.ofLine? text s.parent with
      | none => some { text, opener := if c = '\x7b' then s.pending else none }
      | some members =>
        if text.contains '\x7b' then some { text, members, opener := primary members }
        else if text.getLast? = some ',' || continues following then
          some { text, members, carry := primary members <|> s.pending }
        else some { text, members }

/-- The state behind a line. -/
def advance (s : Scanner) : Option Reading → Scanner
  | none => s
  | some r => { blocks := s.blocks.feed r.opener r.text, pending := r.carry }

/-- What each of the lines says, none left out. -/
def readAll (s : Scanner) : List Text → List (Option Reading)
  | [] => []
  | line :: rest =>
    let reading := s.read line rest
    reading :: readAll (s.advance reading) rest

end Scanner

end StylePrune.Stylesheet
