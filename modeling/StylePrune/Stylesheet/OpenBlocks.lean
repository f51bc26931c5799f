import StylePrune.Text.Blank

/-!
# Open blocks

`OpenBlocks` follows the braces of a stylesheet.  It knows how many blocks are open, and for each
open block that belongs to a class rule the rule's name and the depth inside it, innermost first.
A closing brace without partner is passed over.
-/

namespace StylePrune.Stylesheet

/-- An open block of a class rule, with the number of open blocks inside it. -/
structure Frame where
  name : Text
  depth : Nat
  deriving DecidableEq, Repr

/-- The number of open blocks, and those that belong to class rules, innermost first. -/
structure OpenBlocks where
  frames : List Frame := []
  depth : Nat := 0
  deriving DecidableEq, Repr

namespace OpenBlocks

/-- The name of the innermost open class rule. -/
def top (b : OpenBlocks) : Option Text := b.frames.head?.map Frame.name

/-- A class rule whose block is about to open. -/
def push (b : OpenBlocks) (name : Text) : OpenBlocks :=
  { b with frames := ⟨name, b.depth + 1⟩ :: b.frames }

/-- The state behind an opening brace, which may belong to a class rule. -/
def opened (b : OpenBlocks) (opener : Option Text) : OpenBlocks :=
  let b := opener.elim b b.push
  { b with depth := b.depth + 1 }

/-- The state behind a closing brace. -/
def closed (b : OpenBlocks) : OpenBlocks :=
  if b.depth = 0 then b
  else
    let depth := b.depth - 1
    { frames := b.frames.dropWhile fun f => depth < f.depth, depth := depth }

/-- The state behind a text whose first opening brace belongs to the given class rule, if any. -/
def feed : OpenBlocks → Option Text → Text → OpenBlocks
  | b, _, [] => b
  | b, opener, c :: t =>
    if c = '\x7b' then feed (b.opened opener) none t
    else if c = '\x7d' then feed b.closed opener t
    else feed b opener t

@[simp]
theorem depth_opened (b : OpenBlocks) (opener : Option Text) :
  (b.opened opener).depth = b.depth + 1
  := by
  cases opener <;> rfl

@[simp]
theorem depth_closed (b : OpenBlocks) :
  b.closed.depth = b.depth - 1
  := by
  unfold closed
  split
  · next h => simp [h]
  · rfl

end OpenBlocks

end StylePrune.Stylesheet
