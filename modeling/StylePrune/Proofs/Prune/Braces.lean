import Mathlib.Data.List.Infix
import StylePrune.Prune.Removal
import StylePrune.Proofs.Stylesheet.Statements
import StylePrune.Proofs.Text.Trim

/-!
# Braces

The balance of a text is the number of its opening braces less the number of its closing ones.  A
text is well nested if no closing brace stands in front of the opening one that it belongs to, and
none is missing.
-/

namespace StylePrune.Prune

open Text Stylesheet

/-- The number of opening braces of a text less the number of closing ones. -/
def balance (t : Text) : Int := (opens t : Int) - closes t

@[simp]
theorem balance_nil :
  balance [] = 0
  := rfl

@[simp]
theorem balance_append (t u : Text) :
  balance (t ++ u) = balance t + balance u
  := by
  simp only [balance, opens, closes, List.count_append]
  omega

theorem opens_trim (t : Text) :
  opens (trim t) = opens t
  := count_trim rfl t

theorem closes_trim (t : Text) :
  closes (trim t) = closes t
  := count_trim rfl t

/-- A blank statement holds no braces. -/
theorem balance_of_trim_eq_nil {t : Text} (h : trim t = []) :
  balance t = 0
  := by
  rw [balance, ← opens_trim, ← closes_trim, h]
  rfl

/-- A statement that starts with an opening brace holds no other brace. -/
theorem opens_eq_one {t : Text} (hs : Single t) {u : Text} (h : trim t = '\x7b' :: u) :
  opens t = 1 ∧ closes t = 0
  := by
  have hle : opens t + closes t ≤ 1 := hs.count_le_one
  have hpos : 0 < opens t := by
    rw [← opens_trim, h]
    apply List.count_pos_iff.mpr List.mem_cons_self
  omega

/-! ### Well nested texts -/

/-- Whether every closing brace of a text has its opening one in front of it, and every opening
brace its closing one behind it. -/
structure WellNested (t : Text) : Prop where
  closed : ∀ p, p <+: t → closes p ≤ opens p
  opened : opens t = closes t

instance : DecidablePred WellNested := fun t =>
  decidable_of_iff ((∀ p ∈ t.inits, closes p ≤ opens p) ∧ opens t = closes t)
    (by
      constructor
      · rintro ⟨hclosed, hopened⟩
        use fun p hp => hclosed p ((List.mem_inits p t).mpr hp)
      · rintro ⟨hclosed, hopened⟩
        use fun p hp => hclosed p ((List.mem_inits p t).mp hp))

theorem wellNested_iff {t : Text} :
  WellNested t ↔ (∀ p, p <+: t → 0 ≤ balance p) ∧ balance t = 0
  := by
  simp only [balance]
  constructor
  · rintro ⟨hclosed, hopened⟩
    constructor
    · intro p hp
      have := hclosed p hp
      omega
    · omega
  · rintro ⟨hclosed, hopened⟩
    constructor
    · intro p hp
      have := hclosed p hp
      omega
    · omega

/-- What two texts start with ends in the first or goes on into the second. -/
theorem isPrefix_append_iff {α : Type} {p t u : List α} :
  p <+: t ++ u ↔ p <+: t ∨ ∃ q, q <+: u ∧ p = t ++ q
  := by
  constructor
  · intro h
    rcases List.prefix_or_prefix_of_prefix h (List.prefix_append t u) with hp | ⟨q, rfl⟩
    · exact .inl hp
    · exact .inr ⟨q, (List.prefix_append_right_inj t).mp h, rfl⟩
  · rintro (h | ⟨q, h, rfl⟩)
    · apply List.prefix_append_of_prefix h
    · apply (List.prefix_append_right_inj t).mpr h

end StylePrune.Prune
