import StylePrune.Text.Shape
import StylePrune.Text.Word

/-!
# Class markers

A class marker is a piece of component source behind which class names are written: an attribute,
a property, the call of a function that joins names, or a look-up in a style module.
-/

namespace StylePrune.Usage

open Text

/-- What follows blanks and one of the given characters. -/
def afterBlanks (marks : List Char) (t : Text) : Option Text :=
  match t.dropWhile isBlank with
  | c :: rest => if marks.contains c then some rest else none
  | [] => none

/-- Whether a character ends a word, or nothing is there to end one. -/
def startsWord (before : Option Char) : Bool :=
  match before with
  | some c => !isWord c
  | none => true

/-- A class marker. -/
def marker : Shape := fun before t =>
  let word (w : Text) (marks : List Char) : Option Text := after? w t >>= afterBlanks marks
  let ownWord (w : Text) : Option Text := if startsWord before then word w ['('] else none
  after? "className".toList t
    <|> word "class".toList ['=', ':']
    <|> after? ":class".toList t
    <|> after? "classList".toList t
    <|> word "clsx".toList ['(']
    <|> ownWord "cx".toList
    <|> ownWord "cn".toList
    <|> word "styles".toList ['.', '[']

/-- The places behind the constructs among pieces, the first of which starts at the given place. -/
def endsOf : Nat → List Piece → List Nat
  | _, [] => []
  | place, .plain _ :: rest => endsOf (place + 1) rest
  | place, .found t :: rest => (place + t.length) :: endsOf (place + t.length) rest

/-- The places behind the class markers of a text, in order. -/
def markerEnds (t : Text) : List Nat := endsOf 0 (marker.pieces t)

/-- The greatest distance of a name from the marker in front of it. -/
def reach : Nat := 200

/-- The last of ascending ends that are not behind a place, or else the one given, and the ends
behind the place. -/
def pass (place : Nat) : Option Nat → List Nat → Option Nat × List Nat
  | nearest, [] => (nearest, [])
  | nearest, e :: ends => if e ≤ place then pass place (some e) ends else (nearest, e :: ends)

/-- Whether a name stands within reach of the nearest marker in front of it, in the text from a
place on.  `nearest` is the end of the last marker passed, `ends` those still to come. -/
def isUsedFrom (name : Text) (place : Nat) (nearest : Option Nat) (ends : List Nat) (t : Text) :
    Bool :=
  let (nearest, ends) := pass place nearest ends
  let here := name.isPrefixOf t && nearest.any fun e => place ≤ e + reach
  match t with
  | [] => here
  | _ :: rest => here || isUsedFrom name (place + 1) nearest ends rest

/-- Whether a name stands within reach of one of the markers with the given ends. -/
def isUsedAfter (ends : List Nat) (name t : Text) : Bool := isUsedFrom name 0 none ends t

/-- Whether a name stands within reach of a class marker of the text. -/
def isUsed (name t : Text) : Bool := isUsedAfter (markerEnds t) name t

end StylePrune.Usage
