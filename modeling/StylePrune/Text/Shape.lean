import StylePrune.Text.Blank

/-!
# Shapes and the pieces they cut

A shape recognises constructs of one kind in a text: given the character before a place and the
text from there on, it answers with the text that follows the construct starting there.  Reading
from left to right, `Shape.pieces` cuts a text into the constructs found, never overlapping, and
the single characters between them.  `source_pieces` says that the pieces spell the text, so
`Shape.replace`, which writes something else for each construct, touches nothing else, and
`replace_related` carries what is said of each construct over to the text.
-/

namespace StylePrune.Text

/-- What follows a construct, from the character before it and the text at its start. -/
abbrev Shape := Option Char → Text → Option Text

/-- A piece of a text: a construct, or a character that belongs to none. -/
inductive Piece where
  | plain (c : Char)
  | found (t : Text)
  deriving DecidableEq, Repr

namespace Piece

/-- The characters that a piece was cut from. -/
def source : Piece → Text
  | plain c => [c]
  | found t => t

/-- A piece with each construct written anew. -/
def render (f : Text → Text) : Piece → Text
  | plain c => [c]
  | found t => f t

end Piece

namespace Shape

/-- The number of characters of the construct at the start of a text, zero if there is none. -/
def span (s : Shape) (before : Option Char) (t : Text) : Nat :=
  match s before t with
  | some rest => t.length - rest.length
  | none => 0

/-- The pieces of a text of which the first `skip` characters are already used up. -/
def piecesAfter (s : Shape) : Nat → Option Char → Text → List Piece
  | _, _, [] => []
  | skip + 1, _, c :: t => piecesAfter s skip (some c) t
  | 0, before, c :: t =>
    match s.span before (c :: t) with
    | 0 => .plain c :: piecesAfter s 0 (some c) t
    | n + 1 => .found (c :: t.take n) :: piecesAfter s n (some c) t

/-- The pieces of a text. -/
def pieces (s : Shape) (t : Text) : List Piece := s.piecesAfter 0 none t

/-- The text with `f` applied to each construct of the shape. -/
def replace (s : Shape) (f : Text → Text) (t : Text) : Text := (s.pieces t).flatMap (·.render f)

theorem source_piecesAfter (s : Shape) (skip : Nat) (before : Option Char) (t : Text) :
  (s.piecesAfter skip before t).flatMap Piece.source = t.drop skip
  := by
  induction t generalizing skip before with
  | nil => simp [piecesAfter]
  | cons c t ih =>
    cases skip with
    | succ skip => simp [piecesAfter, ih]
    | zero =>
      unfold piecesAfter
      split <;> simp [Piece.source, ih]

/-- The pieces of a text spell it. -/
theorem source_pieces (s : Shape) (t : Text) :
  (s.pieces t).flatMap Piece.source = t
  := by
  simpa [pieces] using source_piecesAfter s 0 none t

/-- What holds of each construct and what is written for it holds of a text and the text in which the
constructs are written anew, if it may be said of texts that are written one behind the other. -/
theorem replace_related {R : Text → Text → Prop} (hself : ∀ t, R t t)
    (happend : ∀ {t t' u u' : Text}, R t u → R t' u' → R (t ++ t') (u ++ u')) {f : Text → Text}
    (hf : ∀ u, u ≠ [] → R u (f u)) (s : Shape) (t : Text) :
  R t (s.replace f t)
  := by
  have hpieces : ∀ skip before,
      R (t.drop skip) ((s.piecesAfter skip before t).flatMap (·.render f)) := by
    induction t with
    | nil =>
        intro skip before
        rw [List.drop_nil]
        exact hself []
    | cons c t ih =>
        intro skip before
        cases skip with
        | succ skip => exact ih skip (some c)
        | zero =>
            rw [piecesAfter]
            split
            · rw [List.flatMap_cons]
              exact happend (hself [c]) (ih 0 (some c))
            · next n _ =>
              have hsource : (c :: t).drop 0 = (c :: t.take n) ++ t.drop n := by simp
              rw [List.flatMap_cons, hsource]
              exact happend (hf _ (List.cons_ne_nil c _)) (ih n (some c))
  exact hpieces 0 none

end Shape

/-! ### Reading the start of a text -/

/-- What follows the given characters, if the text starts with them. -/
def after? : Text → Text → Option Text
  | [], t => some t
  | _ :: _, [] => none
  | p :: ps, c :: t => if p = c then after? ps t else none

/-- A letter without its case; the long s counts as an s. -/
def foldCase (c : Char) : Char := if c = 'ſ' then 's' else c.toLower

/-- What follows the given lower-case characters, written in any case. -/
def afterAnyCase? : Text → Text → Option Text
  | [], t => some t
  | _ :: _, [] => none
  | p :: ps, c :: t => if p = foldCase c then afterAnyCase? ps t else none

/-- What follows the longest run of characters that satisfy `p`, if it is not empty. -/
def afterSome? (p : Char → Bool) : Text → Option Text
  | [] => none
  | c :: t => if p c then some (t.dropWhile p) else none

/-- What follows the first occurrence of the given characters. -/
def afterFirst? (ps : Text) : Text → Option Text
  | [] => after? ps []
  | c :: t =>
    match after? ps (c :: t) with
    | some rest => some rest
    | none => afterFirst? ps t

end StylePrune.Text
