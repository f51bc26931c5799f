import StylePrune.Stylesheet.Noise

/-!
# Cleaning a stylesheet

`strip` takes the noise out of a stylesheet, so that every full stop left in front of a name
belongs to a selector; what is left of a comment are its line feeds, of a string its quotation
marks.  `mask` writes a space for each character of noise, so that every column stays where it
was.
-/

namespace StylePrune.Stylesheet

open Text

/-- The line feeds of a text. -/
def lineFeeds (t : Text) : Text := t.filter (· == '\n')

/-- What is left of a string or a comment: two quotation marks, or the line feeds. -/
def emptied : Text → Text
  | '"' :: _ => ['"', '"']
  | '\'' :: _ => ['\'', '\'']
  | t => lineFeeds t

/-- The text with the innermost calls and groups taken out once. -/
def dropInnermost (t : Text) : Text := callOrGroup.replace lineFeeds t

/-- The text with calls and groups taken out from the inside, in at most `n` rounds, until a
round changes nothing. -/
def dropGroupsWithin : Nat → Text → Text
  | 0, t => t
  | n + 1, t =>
    let next := dropInnermost t
    if next = t then t else dropGroupsWithin n next

/-- The text with all calls and groups taken out.  Each round that changes the text takes a pair
of parentheses away, so there are no more rounds than characters. -/
def dropGroups (t : Text) : Text := dropGroupsWithin t.length t

/-- The stylesheet without its noise. -/
def strip (t : Text) : Text :=
  let t := urlCall.replace (fun _ => ['u', 'r', 'l', '(', ')']) t
  let t := commentOrString.replace emptied t
  let t := dataAddress.replace (fun _ => []) t
  let t := namespaceOrLink.replace (fun _ => []) t
  let t := interpolation.replace (fun _ => []) t
  dropGroups t

/-- A space for every character but the line feeds. -/
def spaced (t : Text) : Text := t.map fun c => if c = '\n' then '\n' else ' '

/-- The stylesheet with spaces for the noise that can hide braces and semicolons. -/
def mask (t : Text) : Text :=
  let t := urlCall.replace spaced t
  let t := commentOrString.replace spaced t
  let t := dataAddress.replace spaced t
  let t := namespaceOrLink.replace spaced t
  interpolation.replace spaced t

end StylePrune.Stylesheet
