import StylePrune.Console.Color
import StylePrune.Text.Lines

/-!
# Styles

A style switches attributes on or off and gives a color, a background and a link.  It is written
with words in any order, and `Style.name` writes it in one: two texts mean the same style when
their normal names agree.  A text that is no style is its own name, but for blanks around it and
the case of its letters.
-/

namespace StylePrune.Console

open Text

/-- What a style can switch on or off. -/
inductive Attribute where
  | bold
  | dim
  | italic
  | underline
  | blink
  | blinkFast
  | reverse
  | conceal
  | strike
  | underlineTwice
  | frame
  | encircle
  | overline
  deriving DecidableEq, Repr

namespace Attribute

/-- The attributes in the order in which the name of a style has them. -/
def all : List Attribute :=
  [bold, dim, italic, underline, blink, blinkFast, reverse, conceal, strike, underlineTwice, frame,
    encircle, overline]

/-- The word for an attribute. -/
def word : Attribute → String
  | bold => "bold"
  | dim => "dim"
  | italic => "italic"
  | underline => "underline"
  | blink => "blink"
  | blinkFast => "blink2"
  | reverse => "reverse"
  | conceal => "conceal"
  | strike => "strike"
  | underlineTwice => "underline2"
  | frame => "frame"
  | encircle => "encircle"
  | overline => "overline"

/-- The short word for an attribute, if it has one. -/
def short? : Attribute → Option String
  | bold => some "b"
  | dim => some "d"
  | italic => some "i"
  | underline => some "u"
  | reverse => some "r"
  | conceal => some "c"
  | strike => some "s"
  | underlineTwice => some "uu"
  | overline => some "o"
  | blink | blinkFast | frame | encircle => none

/-- The attribute that a word or a short word stands for. -/
def ofWord? (t : Text) : Option Attribute :=
  let w := String.ofList t
  all.find? fun a => a.word == w || a.short? == some w

/-- Every attribute is listed. -/
theorem mem_all (a : Attribute) :
  a ∈ all
  := by
  cases a <;> simp [all]

end Attribute

/-- What a style says of a text.  A later switch for an attribute replaces an earlier one. -/
structure Style where
  switches : List (Attribute × Bool) := []
  color : Option Text := none
  background : Option Text := none
  link : Option Text := none
  deriving DecidableEq, Repr

namespace Style

/-- The style with an attribute switched on or off. -/
def switch (s : Style) (a : Attribute) (on : Bool) : Style :=
  { s with switches := (a, on) :: s.switches }

/-- Whether a style switches an attribute on or off, if it does either. -/
def switched? (s : Style) (a : Attribute) : Option Bool :=
  (s.switches.find? (·.1 == a)).map (·.2)

/-- The last switch for an attribute is the one that counts. -/
theorem switched?_switch (s : Style) (a b : Attribute) (on : Bool) :
  (s.switch a on).switched? b = if a = b then some on else s.switched? b
  := by
  by_cases h : a = b <;> simp [switch, switched?, h]

/-- The words for what a style does to an attribute. -/
def wordsFor (s : Style) (a : Attribute) : List String :=
  match s.switched? a with
  | some true => [a.word]
  | some false => ["not", a.word]
  | none => []

/-- The words of a style in their order. -/
def words (s : Style) : List Text :=
  (Attribute.all.flatMap s.wordsFor).map String.toList
    ++ s.color.toList
    ++ (s.background.map fun color => ["on".toList, color]).getD []
    ++ (s.link.map fun url => ["link".toList, url]).getD []

/-- The normal name of a style. -/
def name (s : Style) : Text :=
  match s.words with
  | [] => "none".toList
  | words => joinWith ' ' words

/-- The words between the blanks of a text. -/
def wordsIn (t : Text) : List Text :=
  (splitOn ' ' (t.map fun c => if isBlank c then ' ' else c)).filter (· != [])

/-- The style that words add to a style, if all of them say something. -/
def read? (s : Style) : List Text → Except Fault (Option Style)
  | [] => .ok (some s)
  | word :: rest =>
    match String.ofList (lowerCase word), rest with
    | "on", color :: rest => do
      if ← Color.isName color then read? { s with background := some (lowerCase color) } rest
      else return none
    | "not", word :: rest =>
      match Attribute.ofWord? word with
      | some a => read? (s.switch a false) rest
      | none => .ok none
    | "link", url :: rest => read? { s with link := some url } rest
    | "on", [] | "not", [] | "link", [] => .ok none
    | _, rest =>
      match Attribute.ofWord? (lowerCase word) with
      | some a => read? (s.switch a true) rest
      | none => do
        if ← Color.isName word then read? { s with color := some (lowerCase word) } rest
        else return none

/-- The style that a text names, if it names one. -/
def ofText? (t : Text) : Except Fault (Option Style) :=
  if trim t = "none".toList then .ok (some {}) else read? {} (wordsIn t)

/-- The normal name of what a text names. -/
def normalName (t : Text) : Except Fault Text := do
  match ← ofText? t with
  | some style => return style.name
  | none => return lowerCase (trim t)

end Style

end StylePrune.Console
