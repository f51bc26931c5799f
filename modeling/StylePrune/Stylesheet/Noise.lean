import StylePrune.Text.Shape
import StylePrune.Text.Word

/-!
# Noise in a stylesheet

Some constructs of a stylesheet hold text that looks like a class selector, or braces and
semicolons that open or end nothing: addresses, comments, strings, embedded data, namespace
declarations, interpolations and the arguments of functions.  Each is a shape.  None of them
starts with a choice that a later character could overturn, so each reads its construct once
from left to right.
-/

namespace StylePrune.Stylesheet

open Text

/-- A character of an address outside quotation marks and parentheses. -/
def isAddressChar (c : Char) : Bool :=
  !isBlank c && c != '\'' && c != '"' && c != ')'

/-- What follows a text in the given quotation mark on one line, the text being past the mark. -/
def afterPlainQuote (mark : Char) (t : Text) : Option Text :=
  after? [mark] (t.dropWhile fun c => c != mark && c != '\n')

/-- The address in a `url(...)`: in quotation marks, or up to the first closing parenthesis of
the line. -/
def afterAddress (t : Text) : Option Text :=
  let quoted : Option Text :=
    match t with
    | '"' :: rest => afterPlainQuote '"' rest >>= after? [')']
    | '\'' :: rest => afterPlainQuote '\'' rest >>= after? [')']
    | _ => none
  quoted <|> after? [')'] (t.dropWhile fun c => c != ')' && c != '\n')

/-- A `url(...)` with its address. -/
def urlCall : Shape := fun _ t =>
  afterAnyCase? ['u', 'r', 'l', '('] t >>= fun rest => afterAddress (rest.dropWhile isBlank)

/-- The rest of a string after its opening mark; a backslash takes the next character with it,
a line feed included, and no other line feed may stand in a string. -/
def afterString (mark : Char) : Text → Option Text
  | [] => none
  | ['\\'] => none
  | '\\' :: _ :: t => afterString mark t
  | c :: t => if c = mark then some t else if c = '\n' then none else afterString mark t

/-- A string or a comment.  A line comment does not start behind a colon or a backslash. -/
def commentOrString : Shape := fun before t =>
  match t with
  | '"' :: rest => afterString '"' rest
  | '\'' :: rest => afterString '\'' rest
  | '/' :: '*' :: rest => afterFirst? ['*', '/'] rest
  | '/' :: '/' :: rest =>
    if before = some ':' || before = some '\\' then none
    else some (rest.dropWhile (· != '\n'))
  | _ => none

/-- A character of a parameter of embedded data. -/
def isParameterChar (c : Char) : Bool :=
  isWord c || c == '=' || c == '.' || c == '+' || c == '-'

/-- The parameters of embedded data, each behind a semicolon; `skip` characters are used up. -/
def afterParameters : Nat → Text → Text
  | _, [] => []
  | skip + 1, _ :: t => afterParameters skip t
  | 0, c :: t =>
    if c = ';' then
      match (t.takeWhile isParameterChar).length with
      | 0 => c :: t
      | n + 1 => afterParameters (n + 1) t
    else c :: t

/-- Embedded data: a media type, parameters and a payload. -/
def dataAddress : Shape := fun _ t => do
  let rest ← afterAnyCase? ['d', 'a', 't', 'a', ':'] t
  let rest ← afterSome? (fun c => isWord c || c == '/' || c == '+' || c == '.' || c == '-') rest
  let rest ← after? [','] (afterParameters 0 rest)
  return rest.dropWhile isAddressChar

/-- A namespace declaration, or an address with its scheme. -/
def namespaceOrLink : Shape := fun _ t =>
  let declaration : Option Text := do
    let rest ← afterAnyCase? ['x', 'm', 'l', 'n', 's'] t
    let named := after? [':'] rest >>= afterSome? fun c => isWord c || c == '-'
    let rest ← after? ['='] (named.getD rest)
    return rest.dropWhile fun c => !isBlank c
  let link : Option Text := do
    let rest ← afterAnyCase? ['h', 't', 't', 'p'] t
    let rest ← after? [':', '/', '/'] ((afterAnyCase? ['s'] rest).getD rest)
    return rest.dropWhile isAddressChar
  declaration <|> link

/-- An interpolation that holds no braces. -/
def interpolation : Shape := fun _ t =>
  after? ['#', '\x7b'] t >>= fun rest =>
    after? ['\x7d'] (rest.dropWhile fun c => c != '\x7b' && c != '\x7d')

/-- The first character of a name: an ASCII letter or an underscore. -/
def isNameStart (c : Char) : Bool := c.isAlpha || c == '_'

/-- The rest of a name: word characters and hyphens. -/
def isNameRest (c : Char) : Bool := isWord c || c == '-'

/-- The text after the name at its start, if there is one. -/
def afterName : Text → Option Text
  | [] => none
  | c :: t => if isNameStart c then some (t.dropWhile isNameRest) else none

/-- A pair of parentheses with neither parentheses nor braces nor semicolons between them. -/
def afterGroup (t : Text) : Option Text :=
  after? ['('] t >>= fun rest =>
    after? [')'] (rest.dropWhile fun c =>
      c != '(' && c != ')' && c != '\x7b' && c != '\x7d' && c != ';')

/-- The call of a function, which may be named by a module and a member, or a group alone. -/
def callOrGroup : Shape := fun _ t =>
  match afterName t with
  | some rest => afterGroup ((after? ['.'] rest >>= afterName).getD rest)
  | none => afterGroup t

end StylePrune.Stylesheet
