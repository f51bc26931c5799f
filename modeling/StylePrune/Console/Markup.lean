import StylePrune.Console.Emoji
import StylePrune.Console.Literal
import StylePrune.Console.Style

/-!
# Markup

Console texts name styles in tags: a bracket that opens with a lower-case letter, a hash sign, a
slash or an at sign, up to the first closing bracket.  A backslash in front of a tag makes it plain
text, and two backslashes make one.  A tag with a slash closes the last open one of the same style,
however its words are written.  `render` gives the text without its styles, with emoji in the place
of their codes, and `escape` makes a text whose tags are plain.
-/

namespace StylePrune.Console.Markup

open Text

/-- A character that a tag may start with. -/
def startsTag (c : Char) : Bool := c.isLower || c == '#' || c == '/' || c == '@'

/-- A tag with the backslashes in front of it. -/
def tag : Shape := fun _ t =>
  match t.dropWhile (· == '\\') with
  | '[' :: c :: rest =>
    if startsTag c then after? [']'] (rest.dropWhile fun c => c != ']' && c != '[') else none
  | _ => none

/-- The backslashes in front of a tag, and the tag with its brackets. -/
def splitTag (t : Text) : Text × Text := (t.takeWhile (· == '\\'), t.dropWhile (· == '\\'))

/-- A tag with a backslash in front of it, and the other backslashes doubled. -/
def escapeTag (t : Text) : Text :=
  let (slashes, body) := splitTag t
  slashes ++ slashes ++ '\\' :: body

/-- The markup of a text that is to be shown as it is. -/
def escape (t : Text) : Text :=
  let t := tag.replace escapeTag t
  if ['\\'].isSuffixOf t && !(['\\', '\\'].isSuffixOf t) then t ++ ['\\'] else t

/-- The characters that move the cursor or ring the bell, which are left out. -/
def isControl (c : Char) : Bool := [7, 8, 11, 12, 13].contains c.toNat

/-- A part of markup: characters to be shown, or a tag without its brackets. -/
inductive Part where
  | shown (t : Text)
  | tag (inner : Text)
  deriving DecidableEq, Repr

/-- The parts of a tag with the backslashes in front of it.  Two backslashes make one, and one that
is left over makes the tag plain. -/
def partsOfTag (t : Text) : List Part :=
  let (slashes, body) := splitTag t
  [.shown (List.replicate (slashes.length / 2) '\\'),
    if slashes.length % 2 = 1 then .shown body else .tag (body.drop 1).dropLast]

/-- The parts of markup that has been read up to the given characters, last first. -/
def partsAfter : Text → List Piece → List Part
  | before, [] => [.shown before.reverse]
  | before, .plain c :: rest => partsAfter (c :: before) rest
  | before, .found t :: rest => .shown before.reverse :: partsOfTag t ++ partsAfter [] rest

/-- The parts of markup. -/
def parts (t : Text) : List Part := partsAfter [] (tag.pieces t)

/-- The text without the backslashes in front of opening brackets. -/
def unescape : Text → Text
  | '\\' :: '[' :: t => '[' :: unescape t
  | c :: t => c :: unescape t
  | [] => []

/-- What is shown for characters between two tags. -/
def plainOf (t : Text) : Text := (Emoji.replaceCodes (unescape t)).filter (!isControl ·)

/-- A tag that is to be closed, by its normal name and what follows the equals sign. -/
structure OpenTag where
  name : Text
  parameters : Text
  deriving DecidableEq, Repr

/-- The tag with the given name and parameters in its brackets. -/
def OpenTag.of (inner : Text) : Except Fault OpenTag := do
  let name ← Style.normalName (inner.takeWhile (· != '='))
  return { name, parameters := (inner.dropWhile (· != '=')).drop 1 }

/-- The style that a tag gives to what it encloses, as a text. -/
def OpenTag.style (t : OpenTag) : Text := t.name ++ ' ' :: t.parameters

/-- The tag that a closing tag closes, the last open one with its normal name or the last one of
all, and the others. -/
def close? (name : Option Text) (stack : List OpenTag) : Option (OpenTag × List OpenTag) :=
  let isMeant (t : OpenTag) : Bool := name.all (· == t.name)
  (stack.find? isMeant).map (·, stack.eraseP isMeant)

/-- The open tags behind a tag.  A tag that starts with an at sign is an action, whose parameters
are read when it is closed. -/
def stepTag (stack : List OpenTag) (inner : Text) : Except Fault (List OpenTag) := do
  match inner with
  | '/' :: rest =>
    let name := trim (rest.takeWhile (· != '='))
    let name ← if name = [] then pure none else some <$> Style.normalName name
    match close? name stack with
    | none => throw .unbalancedMarkup
    | some (closed, stack) =>
      if closed.name.head? = some '@' && !Literal.isAction closed.parameters then
        throw .malformedAction
      return stack
  | _ => return (← OpenTag.of inner) :: stack

/-- The plain text of parts inside open tags, innermost first. -/
def renderParts : List OpenTag → List Part → Except Fault Text
  | _, [] => .ok []
  | stack, .shown t :: rest => (renderParts stack rest).map (plainOf t ++ ·)
  | stack, .tag inner :: rest => do renderParts (← stepTag stack inner) rest

/-- The plain text of markup. -/
def render (t : Text) : Except Fault Text := renderParts [] (parts t)

/-- The tags that markup opens. -/
def openTags (t : Text) : Except Fault (List OpenTag) :=
  (parts t).filterMapM fun
    | .shown _ => return none
    | .tag inner => if inner.head? = some '/' then return none else some <$> OpenTag.of inner

/-- Where nothing is a tag, all is shown. -/
theorem renderParts_partsAfter_plain (stack : List OpenTag) (before t : Text) :
  renderParts stack (partsAfter before (t.map Piece.plain)) = .ok (plainOf (before.reverse ++ t))
  := by
  induction t generalizing before with
  | nil => simp [partsAfter, renderParts, Except.map]
  | cons c t ih => simp [partsAfter, ih]

end StylePrune.Console.Markup
