import StylePrune.Proofs.Stylesheet.Reading

/-!
# The name that suffixes extend

A scanner asks its open blocks for one thing, the name of the innermost class rule.  Open blocks
that give the same name now, and would give the same after any number of closing braces, cannot be
told apart by reading on.
-/

namespace StylePrune.Stylesheet

open Text

namespace OpenBlocks

/-- The frames of the blocks that are open at a depth. -/
def within (depth : Nat) (frames : List Frame) : List Frame :=
  frames.dropWhile fun f => depth < f.depth

theorem within_cons_of_lt {depth : Nat} {f : Frame} (h : depth < f.depth) (frames : List Frame) :
  within depth (f :: frames) = within depth frames
  := List.dropWhile_cons_of_pos (by simpa using h)

theorem within_cons_of_le {depth : Nat} {f : Frame} (h : f.depth ≤ depth) (frames : List Frame) :
  within depth (f :: frames) = f :: frames
  := List.dropWhile_cons_of_neg (by simpa using h)

/-- What is open at two depths is open at the lesser one. -/
theorem within_within (d e : Nat) (frames : List Frame) :
  within d (within e frames) = within (min d e) frames
  := by
  induction frames with
  | nil => rfl
  | cons f frames ih =>
      rcases Nat.lt_or_ge e f.depth with he | he
      · have hmin : min d e < f.depth := Nat.lt_of_le_of_lt (Nat.min_le_right d e) he
        rw [within_cons_of_lt he, within_cons_of_lt hmin, ih]
      · rw [within_cons_of_le he]
        rcases Nat.lt_or_ge d f.depth with hd | hd
        · rw [Nat.min_eq_left (Nat.le_trans (Nat.le_of_lt hd) he)]
        · rw [within_cons_of_le hd, within_cons_of_le (Nat.le_min.mpr ⟨hd, he⟩)]

/-- The name of the innermost class rule whose block is open at a depth. -/
def nameAt (b : OpenBlocks) (depth : Nat) : Option Text :=
  (within depth b.frames).head?.map Frame.name

/-- Whether no block is deeper than as many as are open. -/
def Sound (b : OpenBlocks) : Prop := ∀ f ∈ b.frames, f.depth ≤ b.depth

theorem sound_empty :
  Sound {}
  := by
  rintro f ⟨⟩

theorem Sound.opened {b : OpenBlocks} (h : b.Sound) (opener : Option Text) :
  (b.opened opener).Sound
  := by
  intro f hf
  rw [depth_opened]
  cases opener with
  | none => exact Nat.le_succ_of_le (h f hf)
  | some name =>
      rcases List.mem_cons.mp hf with rfl | hf
      · apply Nat.le_refl
      · exact Nat.le_succ_of_le (h f hf)

/-- Deep enough, the innermost name is the one that suffixes extend. -/
theorem Sound.nameAt_eq_top {b : OpenBlocks} (h : b.Sound) {d : Nat} (hd : b.depth ≤ d) :
  b.nameAt d = b.top
  := by
  rw [nameAt, top]
  cases hframes : b.frames with
  | nil => rfl
  | cons f frames =>
      rw [within_cons_of_le]
      apply Nat.le_trans _ hd
      apply h f
      rw [hframes]
      apply List.mem_cons_self

@[simp]
theorem top_opened (b : OpenBlocks) (opener : Option Text) :
  (b.opened opener).top = (opener <|> b.top)
  := by
  cases opener with
  | none => rfl
  | some name => rfl

/-- An opening brace leaves the names of the blocks around it as they are. -/
theorem nameAt_opened (b : OpenBlocks) (opener : Option Text) (d : Nat) :
  (b.opened opener).nameAt d = if b.depth < d then (opener <|> b.nameAt d) else b.nameAt d
  := by
  cases opener with
  | none =>
      split
      · rfl
      · rfl
  | some name =>
      have hframes : (b.opened (some name)).frames = ⟨name, b.depth + 1⟩ :: b.frames := rfl
      rw [nameAt, hframes]
      split
      · next hd =>
        rw [within_cons_of_le hd]
        rfl
      · next hd =>
        rw [within_cons_of_lt]
        · rfl
        · exact Nat.lt_succ_of_le (Nat.le_of_not_lt hd)

theorem closed_of_depth_eq_zero {b : OpenBlocks} (h : b.depth = 0) :
  b.closed = b
  := by
  rw [closed, if_pos h]

/-- A closing brace leaves the names of the blocks that stay open as they are. -/
theorem nameAt_closed {b : OpenBlocks} (h : b.depth ≠ 0) (d : Nat) :
  b.closed.nameAt d = b.nameAt (min d (b.depth - 1))
  := by
  rw [nameAt, nameAt, ← within_within, closed, if_neg h]
  rfl

theorem top_closed {b : OpenBlocks} (h : b.depth ≠ 0) :
  b.closed.top = b.nameAt (b.depth - 1)
  := by
  rw [top, nameAt, closed, if_neg h]
  rfl

/-- A text without braces changes nothing. -/
theorem feed_append {t : Text} (hopen : '\x7b' ∉ t) (hclose : '\x7d' ∉ t) (b : OpenBlocks)
    (opener : Option Text) (u : Text) :
  b.feed opener (t ++ u) = b.feed opener u
  := by
  induction t with
  | nil => rfl
  | cons c t ih =>
      obtain ⟨hco, hto⟩ := not_or.mp (mt List.mem_cons.mpr hopen)
      obtain ⟨hcc, htc⟩ := not_or.mp (mt List.mem_cons.mpr hclose)
      rw [List.cons_append, feed, if_neg (Ne.symm hco), if_neg (Ne.symm hcc), ih hto htc]

/-- Whether open blocks give the same names, now and behind any closing braces. -/
structure SameNames (b b' : OpenBlocks) : Prop where
  depth : b.depth = b'.depth
  top : b.top = b'.top
  nameAt : ∀ d, b.nameAt d = b'.nameAt d

namespace SameNames

variable {b b' : OpenBlocks}

theorem opened (h : SameNames b b') (opener : Option Text) :
  SameNames (b.opened opener) (b'.opened opener)
  := by
  constructor
  · rw [depth_opened, depth_opened, h.depth]
  · rw [top_opened, top_opened, h.top]
  · intro d
    rw [nameAt_opened, nameAt_opened, h.depth, h.nameAt]

theorem closed (h : SameNames b b') :
  SameNames b.closed b'.closed
  := by
  by_cases hb : b.depth = 0
  · rw [closed_of_depth_eq_zero hb, closed_of_depth_eq_zero (h.depth ▸ hb)]
    exact h
  · have hb' : b'.depth ≠ 0 := h.depth ▸ hb
    constructor
    · rw [depth_closed, depth_closed, h.depth]
    · rw [top_closed hb, top_closed hb', h.depth, h.nameAt]
    · intro d
      rw [nameAt_closed hb, nameAt_closed hb', h.depth, h.nameAt]

theorem feed (h : SameNames b b') (opener : Option Text) (t : Text) :
  SameNames (b.feed opener t) (b'.feed opener t)
  := by
  induction t generalizing b b' opener with
  | nil => exact h
  | cons c t ih =>
      rw [OpenBlocks.feed, OpenBlocks.feed]
      split
      · exact ih (h.opened opener) none
      · split
        · exact ih h.closed opener
        · exact ih h opener

/-- Blocks that were opened with names that come to the same give the same names. -/
theorem of_top_opened (h : b.Sound) {opener opener' : Option Text}
    (htop : (opener <|> b.top) = (opener' <|> b.top)) :
  SameNames (b.opened opener) (b.opened opener')
  := by
  constructor
  · rw [depth_opened, depth_opened]
  · rw [top_opened, top_opened, htop]
  · intro d
    rw [nameAt_opened, nameAt_opened]
    split
    · next hd => rw [h.nameAt_eq_top (Nat.le_of_lt hd), htop]
    · rfl

end SameNames

end OpenBlocks

/-- What is read depends on the open blocks by the names that they give. -/
theorem Scanner.finds_congr_of_sameNames {b b' : OpenBlocks} (h : b.SameNames b')
    (pending : Option Text) (statements : List Text) :
  (⟨b, pending⟩ : Scanner).finds statements = (⟨b', pending⟩ : Scanner).finds statements
  := by
  induction statements generalizing b b' pending with
  | nil => rfl
  | cons line rest ih =>
      have hparent : (⟨b, pending⟩ : Scanner).parent = (⟨b', pending⟩ : Scanner).parent := by
        rw [Scanner.parent, Scanner.parent, h.top]
      have hread : (⟨b, pending⟩ : Scanner).read line rest
          = (⟨b', pending⟩ : Scanner).read line rest := by
        simp only [Scanner.read, hparent]
      cases hr : (⟨b', pending⟩ : Scanner).read line rest with
      | none =>
          have hblank := Scanner.read_eq_none_iff.mp hr
          rw [Scanner.finds_cons_of_blank hblank, Scanner.finds_cons_of_blank hblank, ih h]
      | some r =>
          rw [Scanner.finds_cons_of_some (hread.trans hr), Scanner.finds_cons_of_some hr]
          apply congrArg (r.definitions ++ ·)
          exact ih (h.feed r.opener r.text) r.carry

end StylePrune.Stylesheet
