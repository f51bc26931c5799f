import StylePrune.ClassName
import StylePrune.Text.Lines
import StylePrune.Text.Shape
import StylePrune.Text.Word

/-!
# Selectors

A selector line starts with a full stop or an ampersand and lists members between commas.
`Member.ofLine?` says which class names each member defines.  A member that starts with `&__` or
`&--` extends the name of the enclosing rule by an element or a modifier; every name behind a full
stop is defined as it stands.
-/

namespace StylePrune

/-- How a class name is written: as it stands, or as a suffix of the enclosing rule's name. -/
inductive Context where
  | direct
  | element
  | modifier
  deriving DecidableEq, Repr

namespace Context

/-- The word for a way of writing. -/
def word : Context → String
  | direct => "direct"
  | element => "bem_element"
  | modifier => "bem_modifier"

/-- The mark between the enclosing rule's name and the suffix. -/
def mark : Context → Text
  | direct => []
  | element => ['_', '_']
  | modifier => ['-', '-']

end Context

namespace Stylesheet

open Text

/-- One member of a selector list: the names it defines, and the name that rules nested in its
block extend. -/
structure Member where
  names : List (Text × Context) := []
  primary : Option Text := none
  deriving DecidableEq, Repr

/-- An attribute test in brackets, on one line or several. -/
def attributeTest : Shape := fun _ t =>
  match t with
  | '[' :: rest => after? [']'] (rest.dropWhile (· != ']'))
  | _ => none

/-- The first character of a name behind a full stop. -/
def isTokenStart (c : Char) : Bool := c.isAlpha || c == '_' || c == '-'

/-- A further character of a name behind a full stop. -/
def isTokenRest (c : Char) : Bool := isWord c || c == '-'

/-- The names behind the full stops of a text. -/
def classTokens : Text → List Text
  | [] => []
  | c :: t =>
    (match t with
      | d :: rest => if c = '.' && isTokenStart d then [d :: rest.takeWhile isTokenRest] else []
      | [] => []) ++ classTokens t

/-- The context, the suffix and the rest of a member that extends the enclosing rule's name. -/
def suffix? (member : Text) : Option (Context × Text × Text) :=
  let extends? (context : Context) : Option (Context × Text × Text) := do
    let rest ← after? ('&' :: context.mark) member
    let suffix := rest.takeWhile ClassName.isNameChar
    if suffix = [] then none else some (context, suffix, rest.dropWhile ClassName.isNameChar)
  extends? .element <|> extends? .modifier

namespace Member

/-- What a member defines inside a rule with the given name.  A suffix without an enclosing name
defines nothing. -/
def ofText (parent : Option Text) (member : Text) : Member :=
  let tokens (rest : Text) : List Text := (classTokens rest).filter ClassName.isValid
  match suffix? member, parent with
  | some (context, suffix, rest), some parent =>
    let name := parent ++ context.mark ++ suffix
    let own := if ClassName.isValid name then [name] else []
    { names := own.map (·, context) ++ (tokens rest).map (·, .direct), primary := own.head? }
  | some (_, _, rest), none =>
    { names := (tokens rest).map (·, .direct), primary := (tokens rest).getLast? }
  | none, _ =>
    { names := (tokens member).map (·, .direct), primary := (tokens member).getLast? }

/-- The selector on a line: what stands before the first brace, without attribute tests. -/
def selectorOf (line : Text) : Text :=
  attributeTest.replace (fun _ => []) (trim (line.takeWhile (· != '\x7b')))

/-- The members of a cleaned line, if it is a selector line: it starts with a full stop or an
ampersand and is no declaration. -/
def ofLine? (line : Text) (parent : Option Text) : Option (List Member) :=
  match line with
  | [] => none
  | c :: _ =>
    if c != '.' && c != '&' then none
    else if !line.contains '\x7b' && (trim line).getLast? == some ';' then none
    else
      let members := (splitOn ',' (selectorOf line)).map trim
      some ((members.filter (· != [])).map (ofText parent))

end Member

end Stylesheet

end StylePrune
