import StylePrune.Text.Blank
import StylePrune.Text.CellWidth

/-!
# Clusters and cells

What is seen as one character may be written with several: marks follow the character that they
combine with, a joiner ties the next character to those before it, and a selector asks for the form
as an emoji.  A cluster is such a character with its cells.  `flatten_clusters` says that the
clusters of a text spell it, and `cells_of_ascii` that plain text has a cell for each character.
-/

namespace StylePrune.Text

/-- The character that ties the next one to those before it. -/
def joiner : Char := Char.ofNat 0x200D

/-- The character that asks for the form of the one before it as an emoji. -/
def emojiSelector : Char := Char.ofNat 0xFE0F

/-- The cells of a text behind the given character, if that can still become an emoji. -/
def cellsAfter : Option Char → Text → Nat
  | _, [] => 0
  | last, [c] =>
    if c = joiner then 0
    else if c = emojiSelector then (last.map cellsGained).getD 0
    else cellsOf c
  | last, c :: d :: t =>
    if c = joiner then cellsAfter last t
    else if c = emojiSelector then (last.map cellsGained).getD 0 + cellsAfter none (d :: t)
    else cellsOf c + cellsAfter (if cellsOf c = 0 then last else some c) (d :: t)

/-- The number of cells of a text. -/
def cells (t : Text) : Nat := cellsAfter none t

/-- What is seen as one character, and its cells. -/
structure Cluster where
  text : Text
  width : Nat
  deriving DecidableEq, Repr

namespace Cluster

/-- The cluster with more characters and cells. -/
def extend (k : Cluster) (t : Text) (width : Nat) : Cluster := ⟨k.text ++ t, k.width + width⟩

/-- The characters of clusters. -/
def flatten (ks : List Cluster) : Text := ks.flatMap text

/-- The cells of clusters. -/
def totalWidth (ks : List Cluster) : Nat := ks.foldr (fun k n => k.width + n) 0

@[simp]
theorem flatten_nil : flatten [] = [] := rfl

@[simp]
theorem flatten_cons (k : Cluster) (ks : List Cluster) :
  flatten (k :: ks) = k.text ++ flatten ks
  := rfl

@[simp]
theorem totalWidth_nil : totalWidth [] = 0 := rfl

@[simp]
theorem totalWidth_cons (k : Cluster) (ks : List Cluster) :
  totalWidth (k :: ks) = k.width + totalWidth ks
  := rfl

end Cluster

/-- The clusters of a text after one that is begun, whose last character with a cell is given if it
can still become an emoji. -/
def clustersAfter (k : Cluster) : Option Char → Text → List Cluster
  | _, [] => [k]
  | last, [c] =>
    if c = joiner then [k.extend [c] 0]
    else if c = emojiSelector then [k.extend [c] ((last.map cellsGained).getD 0)]
    else if cellsOf c = 0 then [k.extend [c] 0]
    else [k, ⟨[c], cellsOf c⟩]
  | last, c :: d :: t =>
    if c = joiner then clustersAfter (k.extend [c, d] 0) last t
    else if c = emojiSelector then
      clustersAfter (k.extend [c] ((last.map cellsGained).getD 0)) none (d :: t)
    else if cellsOf c = 0 then clustersAfter (k.extend [c] 0) last (d :: t)
    else k :: clustersAfter ⟨[c], cellsOf c⟩ (some c) (d :: t)

/-- The clusters of a text.  At its start a joiner or a selector is a cluster without cells. -/
def clusters : Text → List Cluster
  | [] => []
  | c :: t =>
    if c = joiner ∨ c = emojiSelector ∨ cellsOf c = 0 then clustersAfter ⟨[c], 0⟩ none t
    else clustersAfter ⟨[c], cellsOf c⟩ (some c) t

theorem flatten_clustersAfter (k : Cluster) (last : Option Char) (t : Text) :
  Cluster.flatten (clustersAfter k last t) = k.text ++ t
  := by
  fun_induction clustersAfter k last t <;> simp_all [Cluster.extend]

/-- The clusters of a text spell it. -/
theorem flatten_clusters (t : Text) :
  Cluster.flatten (clusters t) = t
  := by
  cases t with
  | nil => rfl
  | cons c t =>
    rw [clusters]
    split
    · apply flatten_clustersAfter
    · apply flatten_clustersAfter

theorem cellsAfter_of_ascii (last : Option Char) (t : Text)
    (h : ∀ c ∈ t, 32 ≤ c.toNat ∧ c.toNat < 127) :
  cellsAfter last t = t.length
  := by
  induction t generalizing last with
  | nil => rfl
  | cons c t ih =>
    have hc := h c (by simp)
    have one := cellsOf_of_ascii hc
    have plain : c ≠ joiner ∧ c ≠ emojiSelector := by
      constructor <;> rintro rfl <;> exact absurd hc.2 (by decide)
    cases t with
    | nil => simp [cellsAfter, plain, one]
    | cons d t =>
      have ht := ih (some c) fun e he => h e (by simp [he])
      simp [cellsAfter, plain, one, ht, Nat.add_comm]

/-- Printable text of ASCII has a cell for each character. -/
theorem cells_of_ascii {t : Text} (h : ∀ c ∈ t, 32 ≤ c.toNat ∧ c.toNat < 127) :
  cells t = t.length
  := cellsAfter_of_ascii none t h

end StylePrune.Text
