import StylePrune.Proofs.Prune.Braces
import StylePrune.Proofs.Stylesheet.Enclosing

/-!
# Unmatched braces

A closing brace belongs to the opening one from which a well nested text parts it.  An opening brace
is unmatched if no closing one belongs to it.  The open blocks behind texts that are fed one after
the other are those of the unmatched braces: there are as many, and the class rules among them are
those of the texts whose first opening brace is unmatched, each at its depth (`mirrors_feedAll`).
-/

namespace StylePrune.Stylesheet

open Text Prune

/-! ### Braces that belong together -/

/-- Whether a text closes the block that is open in front of it: it has a closing brace behind a
well nested text. -/
def Shuts (t : Text) : Prop := ∃ p ∈ t.inits, WellNested p ∧ p ++ ['\x7d'] <+: t

instance : DecidablePred Shuts := fun t =>
  inferInstanceAs (Decidable (∃ p ∈ t.inits, WellNested p ∧ p ++ ['\x7d'] <+: t))

theorem shuts_of_isPrefix {p t : Text} (hnested : WellNested p) (hp : p ++ ['\x7d'] <+: t) :
  Shuts t
  := by
  use p
  rw [List.mem_inits]
  exact ⟨(List.prefix_append p _).trans hp, hnested, hp⟩

/-- Whether there is an opening brace at a place of a text that no closing one belongs to. -/
def Unmatched (t : Text) (i : Nat) : Prop := t[i]? = some '\x7b' ∧ ¬ Shuts (t.drop (i + 1))

instance (t : Text) : DecidablePred (Unmatched t) := fun _ => inferInstanceAs (Decidable (_ ∧ _))

/-- The places of the unmatched braces of a text. -/
def unmatched (t : Text) : List Nat := (List.range t.length).filter fun i => Unmatched t i

/-- The number of closing braces of a text that belong to no opening one in it. -/
def strays : Text → Nat
  | [] => 0
  | c :: t =>
    if c = '\x7b' then strays t - 1
    else if c = '\x7d' then strays t + 1
    else strays t

theorem balance_cons (c : Char) (t : Text) :
  balance (c :: t) = (if c = '\x7b' then 1 else if c = '\x7d' then -1 else 0) + balance t
  := by
  simp only [balance, opens, closes, List.count_cons, beq_iff_eq]
  split
  · next hc =>
    subst hc
    simp
    omega
  · split
    · omega
    · omega

/-- As many closing braces are astray as the balance falls below zero. -/
theorem strays_le_iff {t : Text} {k : Nat} :
  strays t ≤ k ↔ ∀ p, p <+: t → 0 ≤ k + balance p
  := by
  -- `k` is what stands open in front of the text
  induction t generalizing k with
  | nil => simp [strays]
  | cons c t ih =>
      have hcons : (∀ p, p <+: c :: t → 0 ≤ (k : Int) + balance p)
          ↔ ∀ p, p <+: t → 0 ≤ k + balance (c :: p) := by
        constructor
        · intro h p hp
          exact h (c :: p) ((List.prefix_cons_inj c).mpr hp)
        · intro h p hp
          rcases List.prefix_cons_iff.mp hp with rfl | ⟨p, rfl, hp⟩
          · exact Int.natCast_nonneg k
          · exact h p ((List.prefix_cons_inj c).mp hp)
      simp only [hcons, balance_cons]
      rw [strays]
      split
      · rw [Nat.sub_le_iff_le_add, ih]
        push_cast
        simp only [Int.add_assoc]
      · split
        · cases k with
          | zero =>
              apply iff_of_false (Nat.not_succ_le_zero _)
              intro h
              exact absurd (h [] List.nil_prefix) (by decide)
          | succ k =>
              rw [Nat.succ_le_succ_iff, ih]
              push_cast
              constructor
              · intro h p hp
                have := h p hp
                omega
              · intro h p hp
                have := h p hp
                omega
        · rw [ih]
          simp only [Int.zero_add]

theorem strays_eq_zero_iff {t : Text} :
  strays t = 0 ↔ ∀ p, p <+: t → 0 ≤ balance p
  := by
  rw [← Nat.le_zero, strays_le_iff]
  simp only [Int.natCast_zero, Int.zero_add]

/-- Where the balance falls below zero there is a closing brace behind a well nested text. -/
theorem wellNested_and_eq_of_balance_concat_neg {t : Text} {c : Char}
    (h : ∀ p, p <+: t → 0 ≤ balance p) (hneg : ¬ 0 ≤ balance (t ++ [c])) :
  WellNested t ∧ c = '\x7d'
  := by
  have hbefore := h t List.prefix_rfl
  rw [balance_append, balance_cons, balance_nil] at hneg
  split at hneg
  · omega
  · split at hneg
    · next hc => exact ⟨wellNested_iff.mpr ⟨h, by omega⟩, hc⟩
    · omega

/-- A text closes the block in front of it exactly if a closing brace in it is astray. -/
theorem shuts_iff {t : Text} :
  Shuts t ↔ strays t ≠ 0
  := by
  constructor
  · rintro ⟨p, -, hnested, hp⟩ hzero
    have hbalance := strays_eq_zero_iff.mp hzero _ hp
    rw [balance_append, (wellNested_iff.mp hnested).2] at hbalance
    exact absurd hbalance (by decide)
  · intro hne
    induction t using List.reverseRecOn with
    | nil => exact absurd rfl hne
    | append_singleton t c ih =>
        by_cases hzero : strays t = 0
        · obtain ⟨p, hnot⟩ := not_forall.mp (mt strays_eq_zero_iff.mpr hne)
          obtain ⟨hp, hneg⟩ := Classical.not_imp.mp hnot
          have hclosed := strays_eq_zero_iff.mp hzero
          -- the balance is not below zero yet in front of the last character
          rcases List.prefix_concat_iff.mp hp with rfl | hp
          · obtain ⟨hnested, rfl⟩ := wellNested_and_eq_of_balance_concat_neg hclosed hneg
            exact shuts_of_isPrefix hnested List.prefix_rfl
          · exact absurd (hclosed p hp) hneg
        · obtain ⟨p, -, hnested, hp⟩ := ih hzero
          exact shuts_of_isPrefix hnested (hp.trans (List.prefix_append t [c]))

/-! ### Counting unmatched braces -/

theorem unmatched_cons (c : Char) (t : Text) :
  unmatched (c :: t)
    = (if c = '\x7b' ∧ strays t = 0 then [0] else []) ++ (unmatched t).map (· + 1)
  := by
  have hhead : Unmatched (c :: t) 0 ↔ c = '\x7b' ∧ strays t = 0 := by
    rw [Unmatched, List.getElem?_cons_zero, Option.some_inj, shuts_iff, not_not]
    rfl
  have htail : ∀ i, Unmatched (c :: t) (i + 1) ↔ Unmatched t i := by
    intro i
    rw [Unmatched, Unmatched, List.getElem?_cons_succ, List.drop_succ_cons]
  rw [unmatched, List.length_cons, List.range_succ_eq_map, List.filter_cons, List.filter_map]
  simp only [hhead, Function.comp_def, Nat.succ_eq_add_one, htail, decide_eq_true_eq]
  split
  · rfl
  · rfl

theorem length_unmatched_cons (c : Char) (t : Text) :
  (unmatched (c :: t)).length = (if c = '\x7b' then 1 - strays t else 0) + (unmatched t).length
  := by
  rw [unmatched_cons, List.length_append, List.length_map]
  by_cases hc : c = '\x7b'
  · by_cases hzero : strays t = 0
    · simp [hc, hzero]
    · have hnone : 1 - strays t = 0 := by omega
      simp [hc, hzero, hnone]
  · simp [hc]

/-- Closing braces that are astray belong to unmatched braces of a text in front of them, as long as
there are any. -/
theorem strays_append (t u : Text) :
  strays (t ++ u) = strays t + (strays u - (unmatched t).length)
  := by
  induction t with
  | nil => simp [strays, unmatched]
  | cons c t ih =>
      rw [List.cons_append, strays, strays, ih, length_unmatched_cons]
      split
      · omega
      · split
        · omega
        · omega

theorem length_unmatched_append (t u : Text) :
  (unmatched (t ++ u)).length = (unmatched t).length - strays u + (unmatched u).length
  := by
  induction t with
  | nil => simp [unmatched]
  | cons c t ih =>
      rw [List.cons_append, length_unmatched_cons, length_unmatched_cons, ih, strays_append]
      split
      · omega
      · omega

/-- An opening brace opens one block more. -/
theorem length_unmatched_concat_open (t : Text) :
  (unmatched (t ++ ['\x7b'])).length = (unmatched t).length + 1
  := length_unmatched_append t ['\x7b']

theorem balance_eq (t : Text) :
  balance t = (unmatched t).length - strays t
  := by
  induction t with
  | nil => rfl
  | cons c t ih =>
      rw [balance_cons, ih, length_unmatched_cons, strays]
      split
      · push_cast
        omega
      · split
        · push_cast
          omega
        · omega

/-- A well nested text has neither unmatched braces nor closing ones that are astray. -/
theorem wellNested_iff_unmatched {t : Text} :
  WellNested t ↔ strays t = 0 ∧ (unmatched t).length = 0
  := by
  rw [wellNested_iff, ← strays_eq_zero_iff, balance_eq]
  omega

/-! ### Blocks and unmatched braces -/

namespace OpenBlocks

/-- Whether class rules that are open inside of others are deeper, and none is deeper than as many
blocks as are open. -/
structure IsNested (b : OpenBlocks) : Prop where
  descending : b.frames.Pairwise fun f g => g.depth < f.depth
  bounded : ∀ f ∈ b.frames, 1 ≤ f.depth ∧ f.depth ≤ b.depth

theorem isNested_empty :
  IsNested {}
  := ⟨List.Pairwise.nil, List.forall_mem_nil _⟩

theorem IsNested.opened {b : OpenBlocks} (h : b.IsNested) (opener : Option Text) :
  (b.opened opener).IsNested
  := by
  cases opener with
  | none =>
      use h.descending
      intro f hf
      obtain ⟨hpos, hle⟩ := h.bounded f hf
      exact ⟨hpos, Nat.le_succ_of_le hle⟩
  | some name =>
      constructor
      · apply List.pairwise_cons.mpr
        use fun f hf => Nat.lt_succ_of_le (h.bounded f hf).2
        exact h.descending
      · intro f hf
        rcases List.mem_cons.mp hf with rfl | hf
        · exact ⟨Nat.succ_pos _, Nat.le_refl _⟩
        · obtain ⟨hpos, hle⟩ := h.bounded f hf
          exact ⟨hpos, Nat.le_succ_of_le hle⟩

/-- The frames of the blocks that are open at a depth are those that are no deeper. -/
theorem within_eq_filter {frames : List Frame}
    (h : frames.Pairwise fun f g => g.depth < f.depth) (d : Nat) :
  within d frames = frames.filter fun f => f.depth ≤ d
  := by
  induction frames with
  | nil => rfl
  | cons f frames ih =>
      obtain ⟨hf, hframes⟩ := List.pairwise_cons.mp h
      rcases Nat.lt_or_ge d f.depth with hd | hd
      · rw [within_cons_of_lt hd, ih hframes, List.filter_cons_of_neg (by simpa using hd)]
      · have hall : ∀ g ∈ frames, decide (g.depth ≤ d) = true := by
          intro g hg
          exact decide_eq_true (Nat.le_trans (Nat.le_of_lt (hf g hg)) hd)
        rw [within_cons_of_le hd, List.filter_cons_of_pos (by simpa using hd),
          List.filter_eq_self.mpr hall]

theorem IsNested.within_of_le {b : OpenBlocks} (h : b.IsNested) {d : Nat} (hd : b.depth ≤ d) :
  within d b.frames = b.frames
  := by
  rw [within_eq_filter h.descending, List.filter_eq_self]
  intro f hf
  exact decide_eq_true (Nat.le_trans (h.bounded f hf).2 hd)

theorem IsNested.closed_eq {b : OpenBlocks} (h : b.IsNested) :
  b.closed = ⟨within (b.depth - 1) b.frames, b.depth - 1⟩
  := by
  by_cases hb : b.depth = 0
  · have hle : b.depth ≤ b.depth - 1 := by omega
    rw [closed_of_depth_eq_zero hb, h.within_of_le hle, hb]
    calc b
      _ = ⟨b.frames, b.depth⟩ := rfl
      _ = ⟨b.frames, 0⟩ := by rw [hb]
  · rw [OpenBlocks.closed, if_neg hb]
    rfl

theorem IsNested.closed {b : OpenBlocks} (h : b.IsNested) :
  b.closed.IsNested
  := by
  rw [h.closed_eq, within_eq_filter h.descending]
  constructor
  · exact h.descending.filter _
  · intro f hf
    obtain ⟨hf, hle⟩ := List.mem_filter.mp hf
    exact ⟨(h.bounded f hf).1, of_decide_eq_true hle⟩

theorem IsNested.feed {b : OpenBlocks} (h : b.IsNested) (opener : Option Text) (t : Text) :
  (b.feed opener t).IsNested
  := by
  induction t generalizing b opener with
  | nil => exact h
  | cons c t ih =>
      rw [OpenBlocks.feed]
      split
      · exact ih (h.opened opener) none
      · split
        · exact ih h.closed opener
        · exact ih h opener

/-- A text closes as many blocks as it has closing braces astray, and opens one with each of its
unmatched braces. -/
theorem IsNested.feed_none {b : OpenBlocks} (h : b.IsNested) (t : Text) :
  b.feed none t
    = ⟨within (b.depth - strays t) b.frames, b.depth - strays t + (unmatched t).length⟩
  := by
  induction t generalizing b with
  | nil =>
      rw [strays, Nat.sub_zero, h.within_of_le (Nat.le_refl _)]
      rfl
  | cons c t ih =>
      rw [OpenBlocks.feed, length_unmatched_cons, strays]
      split
      · have hframes : within (b.depth + 1 - strays t) (b.opened none).frames
            = within (b.depth - (strays t - 1)) b.frames := by
          change within _ b.frames = _
          cases strays t with
          | zero =>
              apply (h.within_of_le (Nat.le_succ _)).trans
              exact (h.within_of_le (Nat.le_refl _)).symm
          | succ s => rw [Nat.add_sub_add_right, Nat.add_sub_cancel]
        rw [ih (h.opened none), depth_opened, hframes, OpenBlocks.mk.injEq]
        use rfl
        omega
      · split
        · have hle : b.depth - 1 - strays t ≤ b.depth - 1 := Nat.sub_le _ _
          have hsub : b.depth - 1 - strays t = b.depth - (strays t + 1) := by omega
          rw [ih h.closed, h.closed_eq, within_within, Nat.min_eq_left hle, hsub, Nat.zero_add]
        · rw [ih h, Nat.zero_add]

/-- Up to its first opening brace a text is fed the same way whoever opens there. -/
theorem feed_append_open {head : Text} (h : '\x7b' ∉ head) (b : OpenBlocks) (opener : Option Text)
    (tail : Text) :
  b.feed opener (head ++ '\x7b' :: tail) = ((b.feed none head).opened opener).feed none tail
  := by
  induction head generalizing b with
  | nil => rfl
  | cons c head ih =>
      obtain ⟨hc, hhead⟩ := not_or.mp (mt List.mem_cons.mpr h)
      rw [List.cons_append, feed, feed, if_neg (Ne.symm hc), if_neg (Ne.symm hc)]
      split
      · exact ih hhead _
      · exact ih hhead _

theorem feed_of_notMem_open {t : Text} (h : '\x7b' ∉ t) (b : OpenBlocks) (opener : Option Text) :
  b.feed opener t = b.feed none t
  := by
  induction t generalizing b with
  | nil => rfl
  | cons c t ih =>
      obtain ⟨hc, ht⟩ := not_or.mp (mt List.mem_cons.mpr h)
      rw [feed, feed, if_neg (Ne.symm hc), if_neg (Ne.symm hc)]
      split
      · exact ih ht _
      · exact ih ht _

/-- Feeding a text with a class rule adds the frame of the rule to what feeding it without one
gives, if the first opening brace is unmatched in the text, and adds nothing if it is matched. -/
theorem IsNested.feed_some {b : OpenBlocks} (hb : b.IsNested) {head : Text} (h : '\x7b' ∉ head)
    (name : Text) (tail : Text) :
  b.feed (some name) (head ++ '\x7b' :: tail)
    = ⟨(if strays tail = 0 then [⟨name, (b.feed none head).depth + 1⟩] else [])
          ++ (b.feed none (head ++ '\x7b' :: tail)).frames,
        (b.feed none (head ++ '\x7b' :: tail)).depth⟩
  := by
  have hhead := hb.feed none head
  rw [feed_append_open h, feed_append_open h, (hhead.opened (some name)).feed_none,
    (hhead.opened none).feed_none, depth_opened, depth_opened, OpenBlocks.mk.injEq]
  refine ⟨?_, rfl⟩
  change within _ (⟨name, (b.feed none head).depth + 1⟩ :: (b.feed none head).frames)
    = _ ++ within _ (b.feed none head).frames
  split
  · next hzero =>
    rw [hzero, Nat.sub_zero, hhead.within_of_le (Nat.le_succ _)]
    exact within_cons_of_le (Nat.le_refl ((b.feed none head).depth + 1)) _
  · next hne =>
    rw [within_cons_of_lt]
    · rfl
    · show _ - _ < _ + 1
      omega

theorem IsNested.feed_of_wellNested {b : OpenBlocks} (hb : b.IsNested) {t : Text}
    (ht : WellNested t) (opener : Option Text) :
  b.feed opener t = b
  := by
  obtain ⟨hstrays, hunmatched⟩ := wellNested_iff_unmatched.mp ht
  have hnone : b.feed none t = b := by
    rw [hb.feed_none, hstrays, hunmatched, Nat.sub_zero, hb.within_of_le (Nat.le_refl _)]
    rfl
  cases opener with
  | none => exact hnone
  | some name =>
      by_cases hopen : '\x7b' ∈ t
      · obtain ⟨head, tail, rfl, hhead⟩ := List.eq_append_cons_of_mem hopen
        rw [hb.feed_some hhead, hnone, if_neg]
        · rfl
        · intro hzero
          rw [length_unmatched_append, length_unmatched_cons, if_pos rfl, hzero] at hunmatched
          omega
      · rw [feed_of_notMem_open hopen, hnone]

end OpenBlocks

/-! ### Feeding texts one after the other -/

/-- A text to be fed, and the class rule that its first opening brace belongs to, if any. -/
structure Portion where
  opener : Option Text := none
  text : Text
  deriving DecidableEq, Repr

namespace Portion

/-- The texts of portions, one behind the other. -/
def textOf (ps : List Portion) : Text := ps.flatMap text

/-- The class rule of a portion that stands behind so many characters, and the place of its opening
brace, if there is one. -/
def rule? (offset : Nat) (p : Portion) : Option (Nat × Text) :=
  p.opener.bind fun name =>
    if '\x7b' ∈ p.text then some (offset + p.text.idxOf '\x7b', name) else none

/-- The class rules of portions that stand behind so many characters, with the places of their
opening braces. -/
def rules : Nat → List Portion → List (Nat × Text)
  | _, [] => []
  | offset, p :: ps => (p.rule? offset).toList ++ rules (offset + p.text.length) ps

theorem textOf_append (ps qs : List Portion) :
  textOf (ps ++ qs) = textOf ps ++ textOf qs
  := List.flatMap_append

theorem rules_append (offset : Nat) (ps qs : List Portion) :
  rules offset (ps ++ qs) = rules offset ps ++ rules (offset + (textOf ps).length) qs
  := by
  induction ps generalizing offset with
  | nil => rfl
  | cons p ps ih =>
      have htext : textOf (p :: ps) = p.text ++ textOf ps := List.flatMap_cons
      rw [List.cons_append, rules, rules, ih, htext, List.length_append, List.append_assoc,
        Nat.add_assoc]

theorem rule?_append_open {head : Text} (h : '\x7b' ∉ head) (offset : Nat) (name tail : Text) :
  (⟨some name, head ++ '\x7b' :: tail⟩ : Portion).rule? offset = some (offset + head.length, name)
  := by
  have hopen : '\x7b' ∈ head ++ '\x7b' :: tail := List.mem_append_cons_self
  change (if _ then _ else _) = _
  rw [if_pos hopen, List.idxOf_append_of_notMem h, List.idxOf_cons_self, Nat.add_zero]

theorem rule?_lt {offset : Nat} {p : Portion} {r : Nat × Text} (h : p.rule? offset = some r) :
  r.1 < offset + p.text.length
  := by
  obtain ⟨name, -, hname⟩ := Option.bind_eq_some_iff.mp h
  split at hname
  · next hopen =>
    obtain rfl := Option.some.inj hname
    exact Nat.add_lt_add_left (List.idxOf_lt_length_of_mem hopen) offset
  · cases hname

theorem lt_of_mem_rules {offset : Nat} {ps : List Portion} {r : Nat × Text}
    (h : r ∈ rules offset ps) :
  r.1 < offset + (textOf ps).length
  := by
  induction ps generalizing offset with
  | nil => cases h
  | cons p ps ih =>
      have htext : textOf (p :: ps) = p.text ++ textOf ps := List.flatMap_cons
      rw [htext, List.length_append]
      rcases List.mem_append.mp h with hp | hps
      · have hlt := rule?_lt (Option.mem_toList.mp hp)
        omega
      · have hlt := ih hps
        omega

end Portion

/-- The frame of a class rule whose block opens at a place of a text. -/
def frameAt (t : Text) (r : Nat × Text) : Frame := ⟨r.2, (unmatched (t.take (r.1 + 1))).length⟩

/-- Whether blocks are those that are open behind a text: as many as it has unmatched braces, and
from the outermost to the innermost those class rules whose opening brace is unmatched. -/
structure Mirrors (b : OpenBlocks) (t : Text) (rules : List (Nat × Text)) : Prop where
  depth : b.depth = (unmatched t).length
  frames : b.frames.reverse = (rules.filter fun r => Unmatched t r.1).map (frameAt t)

/-- An opening brace stays unmatched if the text that follows closes no more blocks than are open
inside of its own. -/
theorem unmatched_append_iff {t : Text} {i : Nat} (hi : i < t.length) (u : Text) :
  Unmatched (t ++ u) i
    ↔ Unmatched t i ∧ (unmatched (t.take (i + 1))).length ≤ (unmatched t).length - strays u
  := by
  have hbehind : (t ++ u).drop (i + 1) = t.drop (i + 1) ++ u := List.drop_append_of_le_length hi
  rw [Unmatched, Unmatched, List.getElem?_append_left hi, hbehind, shuts_iff, shuts_iff, not_not,
    not_not, strays_append, and_assoc]
  apply and_congr_right
  intro hopen
  have hfront : 0 < (unmatched (t.take (i + 1))).length := by
    rw [List.take_add_one, hopen, Option.toList_some, length_unmatched_concat_open]
    exact Nat.succ_pos _
  have hwhole := length_unmatched_append (t.take (i + 1)) (t.drop (i + 1))
  rw [List.take_append_drop] at hwhole
  omega

theorem frameAt_append {t : Text} {r : Nat × Text} (hr : r.1 < t.length) (u : Text) :
  frameAt (t ++ u) r = frameAt t r
  := by
  rw [frameAt, List.take_append_of_le_length (Nat.succ_le_of_lt hr)]
  rfl

/-- What comes of a class rule whose block opens behind a text. -/
theorem map_frameAt_append_open (front tail name : Text) :
  let t := front ++ '\x7b' :: tail
  ([(front.length, name)].filter fun r => Unmatched t r.1).map (frameAt t)
    = if strays tail = 0 then [⟨name, (unmatched front).length + 1⟩] else []
  := by
  intro t
  have hbehind : t.drop (front.length + 1) = tail := by
    rw [List.drop_length_add_append]
    rfl
  have hfront : t.take (front.length + 1) = front ++ ['\x7b'] := by
    rw [List.take_length_add_append]
    rfl
  have hunmatched : Unmatched t front.length ↔ strays tail = 0 := by
    rw [Unmatched, shuts_iff, not_not, hbehind]
    simp [t]
  split
  · next hzero =>
    rw [List.filter_cons_of_pos (by simpa using hunmatched.mpr hzero), List.filter_nil,
      List.map_singleton, frameAt, hfront, length_unmatched_concat_open]
  · next hne =>
    rw [List.filter_cons_of_neg (by simpa using mt hunmatched.mp hne), List.filter_nil,
      List.map_nil]

namespace Mirrors

variable {b : OpenBlocks} {t : Text} {rules : List (Nat × Text)}

theorem feed_none (h : Mirrors b t rules) (hb : b.IsNested) (hrules : ∀ r ∈ rules, r.1 < t.length)
    (u : Text) :
  Mirrors (b.feed none u) (t ++ u) rules
  := by
  rw [hb.feed_none]
  constructor
  · rw [length_unmatched_append, h.depth]
  · rw [OpenBlocks.within_eq_filter hb.descending, ← List.filter_reverse, h.frames, List.filter_map,
      List.filter_filter, h.depth]
    have hleft : ∀ r ∈ rules,
        (((fun f : Frame => decide (f.depth ≤ (unmatched t).length - strays u)) ∘ frameAt t) r
            && decide (Unmatched t r.1))
          = decide (Unmatched (t ++ u) r.1) := by
      intro r hr
      rw [Function.comp_apply, ← Bool.decide_and, decide_eq_decide,
        unmatched_append_iff (hrules r hr), and_comm]
      rfl
    rw [List.filter_congr hleft]
    apply List.map_congr_left
    intro r hr
    rw [frameAt_append (hrules r (List.mem_of_mem_filter hr))]

/-- Feeding a portion keeps to the unmatched braces of what has been fed. -/
theorem feed (h : Mirrors b t rules) (hb : b.IsNested) (hrules : ∀ r ∈ rules, r.1 < t.length)
    (p : Portion) :
  Mirrors (b.feed p.opener p.text) (t ++ p.text) (rules ++ (p.rule? t.length).toList)
  := by
  have hnone := h.feed_none hb hrules
  obtain ⟨opener, u⟩ := p
  cases opener with
  | none =>
      have hrule : (⟨none, u⟩ : Portion).rule? t.length = none := rfl
      rw [hrule, Option.toList_none, List.append_nil]
      exact hnone u
  | some name =>
      by_cases hopen : '\x7b' ∈ u
      · obtain ⟨head, tail, rfl, hhead⟩ := List.eq_append_cons_of_mem hopen
        have hinner := (hnone head).depth
        have hall := hnone (head ++ '\x7b' :: tail)
        have hrule := map_frameAt_append_open (t ++ head) tail name
        rw [List.append_assoc, List.length_append] at hrule
        rw [Portion.rule?_append_open hhead, Option.toList_some, hb.feed_some hhead, hinner]
        constructor
        · exact hall.depth
        · rw [List.reverse_append, hall.frames, List.filter_append, List.map_append, hrule]
          congr 1
          split
          · rfl
          · rfl
      · have hrule : (⟨some name, u⟩ : Portion).rule? t.length = none := if_neg hopen
        rw [hrule, Option.toList_none, List.append_nil]
        dsimp only
        rw [OpenBlocks.feed_of_notMem_open hopen]
        exact hnone u

end Mirrors

/-- The open blocks behind portions that are fed one after the other. -/
def feedAll (ps : List Portion) : OpenBlocks :=
  ps.foldl (fun b p => b.feed p.opener p.text) {}

theorem feedAll_concat (ps : List Portion) (p : Portion) :
  feedAll (ps ++ [p]) = (feedAll ps).feed p.opener p.text
  := List.foldl_concat _ _ _ _

theorem isNested_feedAll (ps : List Portion) :
  (feedAll ps).IsNested
  := by
  induction ps using List.reverseRecOn with
  | nil => exact OpenBlocks.isNested_empty
  | append_singleton ps p ih =>
      rw [feedAll_concat]
      exact ih.feed p.opener p.text

theorem Mirrors.of_feedAll (ps : List Portion) :
  Mirrors (feedAll ps) (Portion.textOf ps) (Portion.rules 0 ps)
  := by
  induction ps using List.reverseRecOn with
  | nil => exact ⟨rfl, rfl⟩
  | append_singleton ps p ih =>
      have hrules : ∀ r ∈ Portion.rules 0 ps, r.1 < (Portion.textOf ps).length := by
        intro r hr
        have hlt := Portion.lt_of_mem_rules hr
        rwa [Nat.zero_add] at hlt
      have hlast : ∀ offset, Portion.rules offset [p] = (p.rule? offset).toList :=
        fun offset => List.append_nil _
      have htext : Portion.textOf [p] = p.text := List.append_nil _
      rw [feedAll_concat, Portion.textOf_append, Portion.rules_append, hlast, htext, Nat.zero_add]
      exact ih.feed (isNested_feedAll ps) hrules p

/-- The open blocks are those of the unmatched braces, one inside of the other, and a text that is
well nested changes nothing about them. -/
theorem mirrors_feedAll (ps : List Portion) :
  Mirrors (feedAll ps) (Portion.textOf ps) (Portion.rules 0 ps)
    ∧ (feedAll ps).IsNested
    ∧ ∀ opener t, WellNested t → (feedAll ps).feed opener t = feedAll ps
  := by
  have hnested := isNested_feedAll ps
  use Mirrors.of_feedAll ps, hnested
  intro opener t ht
  exact hnested.feed_of_wellNested ht opener

/-- A closing brace without a block, a block without a name inside of one with a name, a class rule
that is closed in its own text, and one behind closing braces that leave the outermost block. -/
theorem mirrors_feedAll_stray :
  let ps : List Portion :=
    [⟨some "a".toList, "\x7d .a \x7b \x7b".toList⟩, ⟨some "b".toList, ".b \x7b \x7d \x7b".toList⟩,
      ⟨some "c".toList, "\x7d \x7d .c \x7b".toList⟩]
  let t := ".d \x7b x \x7b \x7d \x7d".toList
  Mirrors ⟨[⟨"c".toList, 2⟩, ⟨"a".toList, 1⟩], 2⟩ (Portion.textOf ps) (Portion.rules 0 ps)
    ∧ WellNested t
    ∧ (feedAll ps).feed (some "d".toList) t = ⟨[⟨"c".toList, 2⟩, ⟨"a".toList, 1⟩], 2⟩
  := by
  intro ps t
  have hblocks : feedAll ps = ⟨[⟨"c".toList, 2⟩, ⟨"a".toList, 1⟩], 2⟩ := by decide +kernel
  have ht : WellNested t := by decide +kernel
  obtain ⟨hmirrors, -, hfeed⟩ := mirrors_feedAll ps
  rw [hblocks] at hmirrors
  use hmirrors, ht
  rw [hfeed _ t ht, hblocks]

end StylePrune.Stylesheet
