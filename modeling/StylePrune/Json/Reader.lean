import StylePrune.Json.Basic
import StylePrune.Text.Hex

/-!
# Reading JSON

`read?` reads a JSON value that makes up a whole text.  Besides the grammar of JSON it accepts the
words for the numbers without digits.  Of members with one name the last value counts, in the
place of the first.  Each step of the reader uses a character up or goes one level deeper into a
bracket that was just opened, so fuel of twice the length of the text is enough.
-/

namespace StylePrune.Json

/-- The blanks between the tokens of JSON. -/
def isSpace (c : Char) : Bool := c == ' ' || c == '\t' || c == '\n' || c == '\r'

/-- What follows the blanks at the start of a text. -/
def skipSpace (t : Text) : Text := t.dropWhile isSpace

/-- The value of four hexadecimal digits, and what follows them. -/
def readUnit? : Text → Option (Nat × Text)
  | a :: b :: c :: d :: rest => do
    let a ← Text.hexValue? a
    let b ← Text.hexValue? b
    let c ← Text.hexValue? c
    let d ← Text.hexValue? d
    return (((a * 16 + b) * 16 + c) * 16 + d, rest)
  | _ => none

/-- The character that an escape of one letter stands for. -/
def escapeOf? : Char → Option Char
  | '"' => some '"'
  | '\\' => some '\\'
  | '/' => some '/'
  | 'b' => some (Char.ofNat 8)
  | 'f' => some (Char.ofNat 12)
  | 'n' => some '\n'
  | 'r' => some '\r'
  | 't' => some '\t'
  | _ => none

/-- The character of one or two code units, and what follows them.  A unit that is half of a pair
and stands alone has no character and is replaced. -/
def readEscapedUnits? (t : Text) : Option (Char × Text) := do
  let (high, rest) ← readUnit? t
  if 0xD800 ≤ high ∧ high < 0xDC00 then
    match rest with
    | '\\' :: 'u' :: more =>
      match readUnit? more with
      | some (low, rest') =>
        if 0xDC00 ≤ low ∧ low < 0xE000 then
          return (Char.ofNat (0x10000 + (high - 0xD800) * 0x400 + (low - 0xDC00)), rest')
        else return (Char.ofNat 0xFFFD, rest)
      | none => return (Char.ofNat 0xFFFD, rest)
    | _ => return (Char.ofNat 0xFFFD, rest)
  else if 0xDC00 ≤ high ∧ high < 0xE000 then return (Char.ofNat 0xFFFD, rest)
  else return (Char.ofNat high, rest)

/-- The rest of a string behind its opening mark, with at most the given number of characters. -/
def readString? : Nat → Text → Option (Text × Text)
  | 0, _ => none
  | _, [] => none
  | fuel + 1, c :: t =>
    if c = '"' then some ([], t)
    else if c = '\\' then
      match t with
      | [] => none
      | 'u' :: t => do
        let (c, t) ← readEscapedUnits? t
        let (s, rest) ← readString? fuel t
        return (c :: s, rest)
      | e :: t => do
        let c ← escapeOf? e
        let (s, rest) ← readString? fuel t
        return (c :: s, rest)
    else if c.toNat < 32 then none
    else do
      let (s, rest) ← readString? fuel t
      return (c :: s, rest)

/-- The number that decimal digits spell. -/
def ofDigits (ds : Text) : Nat := ds.foldl (fun n d => n * 10 + (d.toNat - '0'.toNat)) 0

/-- The digits of a number at the start of a text: a zero, or digits without a zero in front. -/
def readWhole? : Text → Option (Text × Text)
  | '0' :: t => some (['0'], t)
  | c :: t =>
    if c.isDigit then some (c :: t.takeWhile Char.isDigit, t.dropWhile Char.isDigit) else none
  | [] => none

/-- The digits behind a point, if there are any. -/
def readFraction (t : Text) : Option (Text × Text) :=
  match t with
  | '.' :: rest =>
    let ds := rest.takeWhile Char.isDigit
    if ds = [] then none else some (ds, rest.dropWhile Char.isDigit)
  | _ => none

/-- The exponent behind a letter e, if there is one. -/
def readExponent (t : Text) : Option (Int × Text) :=
  match t with
  | c :: rest =>
    if c = 'e' ∨ c = 'E' then
      let (negative, rest) := match rest with
        | '-' :: rest => (true, rest)
        | '+' :: rest => (false, rest)
        | rest => (false, rest)
      let ds := rest.takeWhile Char.isDigit
      if ds = [] then none
      else
        let n : Int := ofDigits ds
        some (if negative then -n else n, rest.dropWhile Char.isDigit)
    else none
  | [] => none

/-- A number at the start of a text. -/
def readNumber? (t : Text) : Option (Json × Text) := do
  let (negative, t) := match t with
    | '-' :: t => (true, t)
    | t => (false, t)
  let (whole, t) ← readWhole? t
  let fraction := readFraction t
  let t := (fraction.map (·.2)).getD t
  let exponent := readExponent t
  let t := (exponent.map (·.2)).getD t
  match fraction, exponent with
  | none, none =>
    let n : Int := ofDigits whole
    return (.int (if negative then -n else n), t)
  | _, _ =>
    let ds := (fraction.map (·.1)).getD []
    let place := ((exponent.map (·.1)).getD 0) - ds.length
    return (.real (Binary64.ofDecimal negative (ofDigits (whole ++ ds)) place), t)

/-- The value that a word stands for, with the word. -/
def wordValues : List (Text × Json) :=
  [("null".toList, .null), ("true".toList, .bool true), ("false".toList, .bool false),
    ("NaN".toList, .real .notANumber), ("Infinity".toList, .real (.infinite false)),
    ("-Infinity".toList, .real (.infinite true))]

/-- A word at the start of a text. -/
def readWord? (t : Text) : Option (Json × Text) :=
  (wordValues.find? fun (word, _) => word.isPrefixOf t).map fun (word, x) =>
    (x, t.drop word.length)

mutual

/-- A value at the start of a text. -/
def readValue? : Nat → Text → Option (Json × Text)
  | 0, _ => none
  | fuel + 1, t =>
    match t with
    | '"' :: t => (readString? (t.length + 1) t).map fun (s, rest) => (.str (String.ofList s), rest)
    | '[' :: t =>
      match skipSpace t with
      | ']' :: rest => some (.arr [], rest)
      | t => (readItems? fuel t).map fun (xs, rest) => (.arr xs, rest)
    | '\x7b' :: t =>
      match skipSpace t with
      | '\x7d' :: rest => some (.obj [], rest)
      | t => (readMembers? fuel [] t).map fun (ms, rest) => (.obj ms, rest)
    | t => readWord? t <|> readNumber? t

/-- The items of a list up to the closing bracket. -/
def readItems? : Nat → Text → Option (List Json × Text)
  | 0, _ => none
  | fuel + 1, t => do
    let (x, t) ← readValue? fuel t
    match skipSpace t with
    | ']' :: rest => return ([x], rest)
    | ',' :: rest =>
      let (xs, rest) ← readItems? fuel (skipSpace rest)
      return (x :: xs, rest)
    | _ => none

/-- The members of an object up to the closing brace, behind the given ones. -/
def readMembers? : Nat → Members → Text → Option (Members × Text)
  | 0, _, _ => none
  | fuel + 1, before, t => do
    let '"' :: t := t | none
    let (name, t) ← readString? (t.length + 1) t
    let ':' :: t := skipSpace t | none
    let (x, t) ← readValue? fuel (skipSpace t)
    let members := setMember before (String.ofList name) x
    match skipSpace t with
    | '\x7d' :: rest => return (members, rest)
    | ',' :: rest => readMembers? fuel members (skipSpace rest)
    | _ => none

end

/-- The value that a text spells, blanks around it aside. -/
def read? (t : Text) : Option Json :=
  match readValue? (2 * t.length + 2) (skipSpace t) with
  | some (x, rest) => if skipSpace rest = [] then some x else none
  | none => none

end StylePrune.Json
