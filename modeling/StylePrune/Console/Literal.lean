import StylePrune.Text.Lines
import StylePrune.Text.Shape
import StylePrune.Text.Word

/-!
# Literals

The arguments of an action are literals: numbers, quoted strings, a few words, and tuples, sets and
mappings of literals.  `Literal.isWellFormed` recognises them without building their values.  What
has to be known of a value is its kind: a complex number is written as the sum of a real and an
imaginary one, and the members of a set and the keys of a mapping must not change.
-/

namespace StylePrune.Console.Literal

open Text

/-- What is known of the value of a literal. -/
inductive Kind where
  /-- A number that is not imaginary, with or without a sign. -/
  | real (signed : Bool)
  /-- An imaginary number, with or without a sign. -/
  | imaginary (signed : Bool)
  /-- Any other value that never changes. -/
  | constant
  /-- A value that can change. -/
  | changeable
  deriving DecidableEq, Repr

namespace Kind

/-- Whether a value never changes, so that it can be a member of a set. -/
def isConstant : Kind → Bool
  | changeable => false
  | _ => true

/-- The kind of a number with a sign in front of it, if one may stand there. -/
def negated? : Kind → Option Kind
  | real false => some (real true)
  | imaginary false => some (imaginary true)
  | _ => none

/-- The kind of a tuple of values. -/
def ofTuple (kinds : List Kind) : Kind := if kinds.all isConstant then constant else changeable

end Kind

/-! ### Blanks -/

/-- What follows the blanks, comments and continued line ends at the start of a text, of which the
first may be in a comment.  Inside brackets line ends are blanks. -/
def skipFrom (inBrackets : Bool) : Bool → Text → Text
  | _, [] => []
  | true, c :: t =>
    if c ≠ '\n' then skipFrom inBrackets true t
    else if inBrackets then skipFrom inBrackets false t
    else c :: t
  | false, '\\' :: '\n' :: t => skipFrom inBrackets false t
  | false, c :: t =>
    if c = '#' then skipFrom inBrackets true t
    else if c = ' ' ∨ c = '\t' ∨ c = '\x0c' ∨ (inBrackets ∧ c = '\n') then
      skipFrom inBrackets false t
    else c :: t

/-- What follows the blanks at the start of a text. -/
def skip (inBrackets : Bool) (t : Text) : Text := skipFrom inBrackets false t

/-! ### Numbers -/

/-- What follows more digits, between which single underscores may stand. -/
def afterMoreDigits (isDigit : Char → Bool) : Text → Text
  | '_' :: c :: t => if isDigit c then afterMoreDigits isDigit t else '_' :: c :: t
  | c :: t => if isDigit c then afterMoreDigits isDigit t else c :: t
  | [] => []

/-- What follows digits, between which single underscores may stand. -/
def afterDigits? (isDigit : Char → Bool) : Text → Option Text
  | c :: t => if isDigit c then some (afterMoreDigits isDigit t) else none
  | [] => none

/-- A hexadecimal digit. -/
def isHexDigit (c : Char) : Bool :=
  c.isDigit || ('a' ≤ c && c ≤ 'f') || ('A' ≤ c && c ≤ 'F')

/-- The digits of the base that a letter behind a zero stands for. -/
def digitsOf? (c : Char) : Option (Char → Bool) :=
  match c.toLower with
  | 'x' => some isHexDigit
  | 'o' => some fun c => '0' ≤ c && c ≤ '7'
  | 'b' => some fun c => c == '0' || c == '1'
  | _ => none

/-- A character that a name can go on with. -/
def isNameChar (c : Char) : Bool := c.isAlphanum || c == '_' || 128 ≤ c.toNat

/-- The text itself, if no name or number goes on with it. -/
def atEnd? (t : Text) : Option Text := if t.head?.any isNameChar then none else some t

/-- What follows an exponent, if one is there. -/
def afterExponent (t : Text) : Text :=
  match t with
  | c :: rest =>
    if c = 'e' ∨ c = 'E' then
      let digits := match rest with
        | sign :: rest' => if sign = '+' ∨ sign = '-' then rest' else rest
        | [] => []
      (afterDigits? Char.isDigit digits).getD t
    else t
  | [] => []

/-- A decimal number, and what follows it.  A whole number other than zero starts with no zero. -/
def readDecimal? (t : Text) : Option (Kind × Text) := do
  let whole := (afterDigits? Char.isDigit t).getD t
  let scaled := afterExponent <|
    match whole with
    | '.' :: rest => (afterDigits? Char.isDigit rest).getD rest
    | _ => whole
  if let c :: rest := scaled then
    if c = 'j' ∨ c = 'J' then return (.imaginary false, ← atEnd? rest)
  let digits := (t.take (t.length - whole.length)).filter (· != '_')
  let isPadded := digits.head? = some '0' && digits.any (· != '0')
  if scaled.length = whole.length ∧ isPadded then none
  return (.real false, ← atEnd? scaled)

/-- A number, and what follows it. -/
def readNumber? (t : Text) : Option (Kind × Text) :=
  match t with
  | '0' :: c :: rest =>
    match digitsOf? c with
    | some isDigit => do
      let digits := (after? ['_'] rest).getD rest
      return (.real false, ← atEnd? (← afterDigits? isDigit digits))
    | none => readDecimal? t
  | _ => readDecimal? t

/-- Whether a number starts here. -/
def startsNumber : Text → Bool
  | '.' :: c :: _ => c.isDigit
  | c :: _ => c.isDigit
  | [] => false

/-! ### Strings -/

/-- How the characters of a string are read. -/
structure Quotation where
  mark : Char
  isTriple : Bool
  isRaw : Bool
  isBytes : Bool
  deriving DecidableEq, Repr

/-- Whether the letter behind a backslash, followed by the given text, makes an escape. -/
def isEscape (isBytes : Bool) (c : Char) (t : Text) : Bool :=
  let hasDigits (n : Nat) : Bool := (t.take n).length == n && (t.take n).all isHexDigit
  if c = 'x' then hasDigits 2
  else if isBytes then true
  else if c = 'u' then hasDigits 4
  else if c = 'U' then
    hasDigits 8 && t.take 2 == ['0', '0'] && ((t.drop 2).head? == some '0' ||
      ((t.drop 2).take 2 == ['1', '0']))
  else if c = 'N' then
    t.head? == some '\x7b' && (t.drop 1).head? != some '\x7d' && t.contains '\x7d'
  else true

/-- What follows the end of a string of which the first characters have been read. -/
def afterString? (q : Quotation) : Text → Option Text
  | [] => none
  | '\\' :: c :: t =>
    if (q.isBytes && 128 ≤ c.toNat) || !(q.isRaw || isEscape q.isBytes c t) then none
    else afterString? q t
  | c :: t =>
    if c = q.mark then
      if q.isTriple then
        match t with
        | d :: e :: rest =>
          if d = q.mark ∧ e = q.mark then some rest else afterString? q (d :: e :: rest)
        | rest => afterString? q rest
      else some t
    else if (c = '\n' ∧ !q.isTriple) ∨ (q.isBytes ∧ 128 ≤ c.toNat) then none
    else afterString? q t

/-- The letters that may stand in front of a string. -/
def stringPrefixes : List String := ["", "r", "u", "b", "br", "rb"]

/-- Whether a string starts here, behind the letters of a name. -/
def startsString (t : Text) : Bool :=
  (t.dropWhile Char.isAlpha).head?.any fun c => c == '"' || c == '\''

/-- A string: whether it is one of bytes, and what follows it. -/
def readString? (t : Text) : Option (Bool × Text) := do
  let letters := String.ofList ((t.takeWhile Char.isAlpha).map Char.toLower)
  if !stringPrefixes.contains letters then none
  match t.dropWhile Char.isAlpha with
  | [] => none
  | mark :: rest =>
    let isBytes := letters.toList.contains 'b'
    let q : Quotation := { mark, isBytes, isTriple := false, isRaw := letters.toList.contains 'r' }
    match after? [mark, mark] rest with
    | some rest => return (isBytes, ← afterString? { q with isTriple := true } rest)
    | none => return (isBytes, ← afterString? q rest)

/-- What follows at most `n` strings one after the other, all of bytes or none. -/
def readStrings? (inBrackets : Bool) : Nat → Option Bool → Text → Option (Kind × Text)
  | 0, _, _ => none
  | n + 1, sort, t =>
    if startsString t then do
      let (isBytes, rest) ← readString? t
      if sort.any (· != isBytes) then none
      readStrings? inBrackets n (some isBytes) (skip inBrackets rest)
    else some (.constant, t)

/-! ### Values -/

/-- The words that stand for values. -/
def valueWords : List String := ["None", "True", "False"]

/-- A word that stands for a value, and what follows it; the word `set` with empty brackets is an
empty set. -/
def readWord? (inBrackets : Bool) (t : Text) : Option (Kind × Text) :=
  let word := String.ofList (t.takeWhile isNameChar)
  let rest := t.dropWhile isNameChar
  if valueWords.contains word then some (.constant, rest)
  else if word = "set" then do
    let rest ← after? ['('] (skip inBrackets rest)
    return (.changeable, ← after? [')'] (skip true rest))
  else none

mutual

/-- A value that no operator is part of, and what follows it. -/
def readAtom? (inBrackets : Bool) : Nat → Text → Option (Kind × Text)
  | 0, _ => none
  | n + 1, t =>
    match t with
    | '(' :: rest => do
      let (kinds, isTuple, rest) ← readItems? n (skip true rest)
      let rest ← after? [')'] rest
      match kinds, isTuple with
      | [kind], false => return (kind, rest)
      | _, _ => return (.ofTuple kinds, rest)
    | '\x7b' :: rest => do
      let rest := skip true rest
      match after? ['\x7d'] rest with
      | some rest => return (.changeable, rest)
      | none =>
        let (key, more) ← readSum? true n rest
        if !key.isConstant then none
        let rest ← if more.head? = some ':' then readPairs? n rest else readMembers? n rest
        return (.changeable, ← after? ['\x7d'] rest)
    | _ =>
      match after? ['.', '.', '.'] t with
      | some rest => some (.constant, rest)
      | none =>
        if startsNumber t then readNumber? t
        else if startsString t then readStrings? inBrackets (t.length + 1) none t
        else readWord? inBrackets t

/-- A value with the signs that it may have, and what follows it and the blanks behind it. -/
def readSum? (inBrackets : Bool) : Nat → Text → Option (Kind × Text)
  | 0, _ => none
  | n + 1, t => do
    let isSign (c : Char) : Bool := c == '+' || c == '-'
    let (kind, rest) ←
      if t.head?.any isSign then do
        let (kind, rest) ← readAtom? inBrackets n (skip inBrackets t.tail)
        pure (← kind.negated?, rest)
      else readAtom? inBrackets n t
    let rest := skip inBrackets rest
    if rest.head?.any isSign then
      match kind, ← readAtom? inBrackets n (skip inBrackets rest.tail) with
      | .real _, (.imaginary false, rest) => return (.constant, skip inBrackets rest)
      | _, _ => none
    else return (kind, rest)

/-- The values between commas in round brackets, whether there is a comma, and what follows. -/
def readItems? : Nat → Text → Option (List Kind × Bool × Text)
  | 0, _ => none
  | n + 1, t =>
    if t.head? = some ')' then some ([], true, t)
    else do
      let (kind, rest) ← readSum? true n t
      match after? [','] rest with
      | some rest =>
        let (kinds, _, rest) ← readItems? n (skip true rest)
        return (kind :: kinds, true, rest)
      | none => return ([kind], false, rest)

/-- What follows the members of a set. -/
def readMembers? : Nat → Text → Option Text
  | 0, _ => none
  | n + 1, t => do
    let (kind, rest) ← readSum? true n t
    if !kind.isConstant then none
    match after? [','] rest with
    | some rest =>
      let rest := skip true rest
      if rest.head? = some '\x7d' then return rest else readMembers? n rest
    | none => return rest

/-- What follows the keys of a mapping and their values. -/
def readPairs? : Nat → Text → Option Text
  | 0, _ => none
  | n + 1, t => do
    let (key, rest) ← readSum? true n t
    if !key.isConstant then none
    let (_, rest) ← readSum? true n (skip true (← after? [':'] rest))
    match after? [','] rest with
    | some rest =>
      let rest := skip true rest
      if rest.head? = some '\x7d' then return rest else readPairs? n rest
    | none => return rest

end

/-- The values between commas outside all brackets, and what follows. -/
def readTop? : Nat → Text → Option Text
  | 0, _ => none
  | n + 1, t => do
    let (_, rest) ← readSum? false n t
    match after? [','] rest with
    | some rest =>
      let rest := skip false rest
      if rest = [] ∨ rest.head? = some '\n' then return rest else readTop? n rest
    | none => return rest

/-- Whether a text is a literal, or several between commas. -/
def isWellFormed (t : Text) : Bool :=
  let t := unifyLineEnds t
  !t.contains (Char.ofNat 0)
    && match readTop? (4 * t.length + 4) (skip true t) with
      | some rest => skip true rest == []
      | none => false

/-! ### Actions -/

/-- The literal in the parameters of an action: what stands in brackets behind a name, or all of
it where there are no brackets at the end.  A name alone has no arguments. -/
def ofAction (t : Text) : Text :=
  let t := trim t
  let rest := t.dropWhile fun c => isWord c || c == '.'
  if rest = [] then "()".toList
  else if rest.head? = some '(' && rest.getLast? = some ')' && !rest.contains '\n' then rest
  else t

/-- Whether a text can be the parameters of an action; having none is one way. -/
def isAction (t : Text) : Bool := t == [] || isWellFormed (ofAction t)

end StylePrune.Console.Literal
