import StylePrune.Decimal.Shortest
import StylePrune.Json.Basic
import StylePrune.Text.Hex
import StylePrune.Text.Quoted

/-!
# Writing JSON

`render` writes a value on several lines, two blanks to a level, and `compact` on one.  Strings
are written as they are but for what JSON itself must escape (`Escaping.minimal`), or in printable
ASCII only (`Escaping.ascii`).  `Json.describe` writes a value as messages show it.
-/

namespace StylePrune

namespace Decimal

/-- How a decimal is laid out. -/
structure Layout where
  /-- The least place of the point, counted from the first digit, that is written without an
  exponent. -/
  leastPlain : Int
  /-- The greatest such place. -/
  greatestPlain : Int
  /-- The least number of digits of an exponent. -/
  exponentDigits : Nat
  deriving DecidableEq, Repr

/-- A number in JSON is written plainly from a ten-thousandth up to sixteen digits before the
point, and an exponent has a sign and at least two digits. -/
def Layout.json : Layout := ⟨-3, 16, 2⟩

/-- Digits with the point behind the first `place` of them, and zeros where digits are missing. -/
def Layout.plain (digits : Text) (place : Int) : Text :=
  if place ≤ 0 then '0' :: '.' :: List.replicate (-place).toNat '0' ++ digits
  else if digits.length ≤ place.toNat then
    digits ++ List.replicate (place.toNat - digits.length) '0' ++ ['.', '0']
  else digits.take place.toNat ++ '.' :: digits.drop place.toNat

/-- Digits with the point behind the first one, and an exponent. -/
def Layout.scientific (l : Layout) (digits : Text) (place : Int) : Text :=
  let mantissa := match digits with
    | [d] => [d]
    | d :: rest => d :: '.' :: rest
    | [] => []
  let exponent := place - 1
  let size := Nat.toDigits 10 exponent.natAbs
  mantissa ++ 'e' :: (if exponent < 0 then '-' else '+')
    :: List.replicate (l.exponentDigits - size.length) '0' ++ size

/-- The decimal `digits * 10 ^ place` as a text. -/
def Layout.write (l : Layout) (digits : Nat) (place : Int) : Text :=
  let ds := Nat.toDigits 10 digits
  let point := place + ds.length
  if l.leastPlain ≤ point ∧ point ≤ l.greatestPlain then plain ds point
  else l.scientific ds point

end Decimal

namespace Binary64

/-- The words for the numbers that have no digits. -/
structure Words where
  notANumber : String
  infinity : String
  deriving DecidableEq, Repr

/-- A number as its shortest decimal, or as one of the given words. -/
def write (words : Words) (x : Binary64) : String :=
  let signed (negative : Bool) (s : String) : String := if negative then "-" ++ s else s
  match x.parts with
  | .notANumber => words.notANumber
  | .infinite negative => signed negative words.infinity
  | .finite negative m e =>
    if m = 0 then signed negative "0.0"
    else
      let (digits, place) := Decimal.shortest m e
      signed negative (String.ofList (Decimal.Layout.json.write digits place))

end Binary64

namespace Json

/-- Which characters of a string are escaped: only those that must be, or all but printable
ASCII. -/
inductive Escaping where
  | minimal
  | ascii
  deriving DecidableEq, Repr

/-- A code unit as an escape of four digits. -/
def escapeUnit (n : Nat) : Text := '\\' :: 'u' :: Text.hex 4 n

/-- A character as it stands in a string. -/
def escapeChar (e : Escaping) (c : Char) : Text :=
  let n := c.toNat
  if c = '"' ∨ c = '\\' then ['\\', c]
  else if c = '\n' then ['\\', 'n']
  else if c = '\r' then ['\\', 'r']
  else if c = '\t' then ['\\', 't']
  else if n = 8 then ['\\', 'b']
  else if n = 12 then ['\\', 'f']
  else if n < 32 then escapeUnit n
  else if n < 127 ∨ e = .minimal then [c]
  else if n < 0x10000 then escapeUnit n
  else escapeUnit (0xD800 + (n - 0x10000) / 0x400) ++ escapeUnit (0xDC00 + (n - 0x10000) % 0x400)

/-- A string in quotation marks. -/
def renderString (e : Escaping) (s : String) : Text :=
  '"' :: s.toList.flatMap (escapeChar e) ++ ['"']

/-- The words that stand in JSON for the numbers without digits. -/
def numberWords : Binary64.Words := ⟨"NaN", "Infinity"⟩

/-- A line feed and the indentation of a level. -/
def newLine (level : Nat) : Text := '\n' :: List.replicate (2 * level) ' '

mutual

/-- A value inside `level` open brackets. -/
def renderAt (e : Escaping) (level : Nat) : Json → Text
  | null => "null".toList
  | bool b => (if b then "true" else "false").toList
  | int n => (toString n).toList
  | real x => (x.write numberWords).toList
  | str s => renderString e s
  | arr [] => ['[', ']']
  | arr (x :: xs) =>
    '[' :: newLine (level + 1) ++ renderAt e (level + 1) x ++ renderItems e (level + 1) xs
      ++ newLine level ++ [']']
  | obj [] => ['\x7b', '\x7d']
  | obj ((name, x) :: ms) =>
    '\x7b' :: newLine (level + 1) ++ renderString e name ++ ':' :: ' ' :: renderAt e (level + 1) x
      ++ renderMembers e (level + 1) ms ++ newLine level ++ ['\x7d']

/-- Further items of a list. -/
def renderItems (e : Escaping) (level : Nat) : List Json → Text
  | [] => []
  | x :: xs => ',' :: newLine level ++ renderAt e level x ++ renderItems e level xs

/-- Further members of an object. -/
def renderMembers (e : Escaping) (level : Nat) : List (String × Json) → Text
  | [] => []
  | (name, x) :: ms =>
    ',' :: newLine level ++ renderString e name ++ ':' :: ' ' :: renderAt e level x
      ++ renderMembers e level ms

end

/-- A value on several lines. -/
def render (e : Escaping) (x : Json) : String := String.ofList (renderAt e 0 x)

mutual

/-- A value on one line. -/
def compactAt : Json → Text
  | null => "null".toList
  | bool b => (if b then "true" else "false").toList
  | int n => (toString n).toList
  | real x => (x.write numberWords).toList
  | str s => renderString .ascii s
  | arr [] => ['[', ']']
  | arr (x :: xs) => '[' :: compactAt x ++ compactItems xs ++ [']']
  | obj [] => ['\x7b', '\x7d']
  | obj ((name, x) :: ms) =>
    '\x7b' :: renderString .ascii name ++ ':' :: compactAt x ++ compactMembers ms ++ ['\x7d']

/-- Further items of a list. -/
def compactItems : List Json → Text
  | [] => []
  | x :: xs => ',' :: compactAt x ++ compactItems xs

/-- Further members of an object. -/
def compactMembers : List (String × Json) → Text
  | [] => []
  | (name, x) :: ms =>
    ',' :: renderString .ascii name ++ ':' :: compactAt x ++ compactMembers ms

end

/-- A value on one line in printable ASCII. -/
def compact (x : Json) : String := String.ofList (compactAt x)

/-! ### Values in messages -/

mutual

/-- A value inside a list or an object, as messages show it: strings are quoted. -/
def describeInner : Json → Text
  | null => "None".toList
  | bool b => (if b then "True" else "False").toList
  | int n => (toString n).toList
  | real x => (x.write ⟨"nan", "inf"⟩).toList
  | str s => Text.quote s.toList
  | arr [] => ['[', ']']
  | arr (x :: xs) => '[' :: describeInner x ++ describeItems xs ++ [']']
  | obj [] => ['\x7b', '\x7d']
  | obj ((name, x) :: ms) =>
    '\x7b' :: Text.quote name.toList ++ ':' :: ' ' :: describeInner x ++ describeMembers ms
      ++ ['\x7d']

/-- Further items of a list in a message. -/
def describeItems : List Json → Text
  | [] => []
  | x :: xs => ',' :: ' ' :: describeInner x ++ describeItems xs

/-- Further members of an object in a message. -/
def describeMembers : List (String × Json) → Text
  | [] => []
  | (name, x) :: ms =>
    ',' :: ' ' :: Text.quote name.toList ++ ':' :: ' ' :: describeInner x ++ describeMembers ms

end

/-- A value as messages show it: a string stands for itself. -/
def describe : Json → String
  | str s => s
  | x => String.ofList (describeInner x)

end Json

end StylePrune
