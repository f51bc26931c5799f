import Mathlib.Data.String.Basic
import StylePrune.Instant

/-!
# Instants in order

Instants are ordered by the year, then by the month, and so on down to the microsecond.  What a
record says of an instant is a string of characters; for instants that a calendar and a clock can
show, comparing the strings is comparing the instants (`iso_lt_iso_iff`), although the fraction of
the second is left out where it is zero.
-/

namespace StylePrune

/-- Texts that begin with texts of one length are compared by these first. -/
theorem Text.append_lt_append_iff {front front' tail tail' : Text}
    (h : front.length = front'.length) :
  front ++ tail < front' ++ tail' ↔ front < front' ∨ front = front' ∧ tail < tail'
  := by
  induction front generalizing front' with
  | nil =>
      obtain rfl := List.eq_nil_of_length_eq_zero h.symm
      simp
  | cons c front ih =>
      cases front' with
      | nil => cases h
      | cons c' front' =>
          rw [List.cons_append, List.cons_append, List.cons_lt_cons_iff, List.cons_lt_cons_iff,
            ih (Nat.succ.inj h), List.cons_eq_cons]
          tauto

theorem Text.append_cons_lt_iff {front front' tail tail' : Text} (c : Char)
    (h : front.length = front'.length) :
  front ++ c :: tail < front' ++ c :: tail' ↔ front < front' ∨ front = front' ∧ tail < tail'
  := by
  rw [append_lt_append_iff h, List.cons_lt_cons_iff]
  simp

namespace Instant

/-! ### Digits -/

/-- The last decimal digits of a number, as many as are asked for. -/
def digits : Nat → Nat → Text
  | 0, _ => []
  | width + 1, n => digits width (n / 10) ++ [Nat.digitChar (n % 10)]

theorem length_digits (width n : Nat) :
  (digits width n).length = width
  := by
  induction width generalizing n with
  | zero => rfl
  | succ width ih => rw [digits, List.length_append, ih, List.length_singleton]

theorem digits_zero (width : Nat) :
  digits width 0 = List.replicate width '0'
  := by
  induction width with
  | zero => rfl
  | succ width ih =>
      rw [digits, ih, List.replicate_succ']
      rfl

/-- A number that has no more digits than are asked for is written with zeros in front. -/
theorem toList_padded {width n : Nat} (hwidth : 0 < width) (h : n < 10 ^ width) :
  (padded width n).toList = digits width n
  := by
  rw [padded, String.toList_ofList]
  induction width generalizing n with
  | zero => cases hwidth
  | succ width ih =>
      by_cases hn : n < 10
      · rw [Nat.toDigits_of_lt_base hn, digits, Nat.div_eq_of_lt hn, Nat.mod_eq_of_lt hn,
          digits_zero]
        rfl
      · have hle : 10 ≤ n := Nat.le_of_not_lt hn
        have hpos : 0 < width := by
          rcases Nat.eq_zero_or_pos width with rfl | hpos
          · exact absurd h hn
          · exact hpos
        have hdiv : n / 10 < 10 ^ width := by
          rw [Nat.div_lt_iff_lt_mul (by decide)]
          exact h
        rw [Nat.toDigits_of_base_le (by decide) hle, List.length_append, List.length_singleton,
          Nat.add_sub_add_right, ← List.append_assoc, ih hpos hdiv, digits]

theorem digits_inj {width m n : Nat} (hm : m < 10 ^ width) (hn : n < 10 ^ width) :
  digits width m = digits width n ↔ m = n
  := by
  have hdigit : ∀ a < 10, ∀ b < 10, Nat.digitChar a = Nat.digitChar b → a = b := by decide
  refine ⟨fun h => ?_, congrArg _⟩
  induction width generalizing m n with
  | zero => rw [Nat.lt_one_iff.mp hm, Nat.lt_one_iff.mp hn]
  | succ width ih =>
      obtain ⟨hfront, hlast⟩ := List.append_inj' h rfl
      have hdiv := ih (by omega) (by omega) hfront
      have hmod := hdigit _ (Nat.mod_lt m (by decide)) _ (Nat.mod_lt n (by decide))
        (List.singleton_inj.mp hlast)
      omega

/-- Numbers with the same count of digits are compared digit by digit. -/
theorem digits_lt_digits_iff {width m n : Nat} (hm : m < 10 ^ width) (hn : n < 10 ^ width) :
  digits width m < digits width n ↔ m < n
  := by
  have hdigit : ∀ a < 10, ∀ b < 10, ([Nat.digitChar a] < [Nat.digitChar b] ↔ a < b) := by decide
  induction width generalizing m n with
  | zero =>
      rw [Nat.lt_one_iff.mp hm, Nat.lt_one_iff.mp hn]
      simp
  | succ width ih =>
      have hm' : m / 10 < 10 ^ width := by omega
      have hn' : n / 10 < 10 ^ width := by omega
      have hfront : digits width (m / 10) < digits width (n / 10) ↔ m / 10 < n / 10 := ih hm' hn'
      rw [digits, digits, Text.append_lt_append_iff (by rw [length_digits, length_digits]),
        hfront, digits_inj hm' hn',
        hdigit _ (Nat.mod_lt m (by decide)) _ (Nat.mod_lt n (by decide))]
      omega

/-! ### The order of instants -/

/-- The parts of an instant, the greatest first. -/
def parts (i : Instant) : List Nat :=
  [i.year, i.month, i.day, i.hour, i.minute, i.second, i.microsecond]

theorem parts_injective :
  Function.Injective parts
  := by
  rintro ⟨⟩ ⟨⟩ h
  simpa [parts] using h

instance : PartialOrder Instant := PartialOrder.lift parts parts_injective

instance : DecidableLE Instant := fun i j => inferInstanceAs (Decidable (i.parts ≤ j.parts))

/-- Whether a calendar and a clock can show an instant. -/
structure IsShown (i : Instant) : Prop where
  year : i.year ≤ 9999
  month : i.month ≤ 12
  day : i.day ≤ 31
  hour : i.hour < 24
  minute : i.minute < 60
  second : i.second < 60
  microsecond : i.microsecond < 1000000

/-- The digits behind the second, which are left out where all are zero. -/
def fraction (microsecond : Nat) : Text :=
  if microsecond = 0 then [] else '.' :: digits 6 microsecond

theorem fraction_lt_fraction_iff {m n : Nat} (hm : m < 1000000) (hn : n < 1000000) :
  fraction m < fraction n ↔ m < n
  := by
  rw [fraction, fraction]
  split
  · next hzero =>
    split
    · next hzero' => simp [hzero, hzero']
    · next hne =>
      simp only [List.nil_lt_cons, true_iff]
      omega
  · split
    · next hzero => simp [hzero]
    · rw [List.cons_lt_cons_iff, digits_lt_digits_iff hm hn]
      simp

/-- What a record says of an instant, part by part. -/
theorem IsShown.toList_iso {i : Instant} (h : i.IsShown) :
  i.iso.toList = digits 4 i.year ++ '-' :: (digits 2 i.month ++ '-' :: (digits 2 i.day
    ++ 'T' :: (digits 2 i.hour ++ ':' :: (digits 2 i.minute
      ++ ':' :: (digits 2 i.second ++ fraction i.microsecond)))))
  := by
  obtain ⟨hyear, hmonth, hday, hhour, hminute, hsecond, hmicrosecond⟩ := h
  have hfraction : (if i.microsecond = 0 then "" else "." ++ padded 6 i.microsecond).toList
      = fraction i.microsecond := by
    rw [fraction]
    split
    · rfl
    · rw [String.toList_append, toList_padded (by decide) (by omega)]
      rfl
  simp only [iso, String.toList_append, hfraction]
  rw [toList_padded (by decide) (by omega), toList_padded (by decide) (by omega),
    toList_padded (by decide) (by omega), toList_padded (by decide) (by omega),
    toList_padded (by decide) (by omega), toList_padded (by decide) (by omega)]
  simp

/-- Comparing what records say of instants is comparing the instants. -/
theorem iso_lt_iso_iff {i j : Instant} (hi : i.IsShown) (hj : j.IsShown) :
  i.iso < j.iso ↔ i < j
  := by
  have hlength : ∀ width m n, (digits width m).length = (digits width n).length := by
    intro width m n
    rw [length_digits, length_digits]
  have hparts : i < j ↔ i.parts < j.parts := Iff.rfl
  rw [String.lt_iff_toList_lt, hi.toList_iso, hj.toList_iso, hparts, parts, parts]
  obtain ⟨hyear, hmonth, hday, hhour, hminute, hsecond, hmicrosecond⟩ := hi
  obtain ⟨hyear', hmonth', hday', hhour', hminute', hsecond', hmicrosecond'⟩ := hj
  simp only [Text.append_cons_lt_iff _ (hlength _ _ _), Text.append_lt_append_iff (hlength _ _ _),
    List.cons_lt_cons_iff]
  rw [digits_lt_digits_iff (by omega) (by omega), digits_inj (by omega) (by omega),
    digits_lt_digits_iff (by omega) (by omega), digits_inj (by omega) (by omega),
    digits_lt_digits_iff (by omega) (by omega), digits_inj (by omega) (by omega),
    digits_lt_digits_iff (by omega) (by omega), digits_inj (by omega) (by omega),
    digits_lt_digits_iff (by omega) (by omega), digits_inj (by omega) (by omega),
    digits_lt_digits_iff (by omega) (by omega), digits_inj (by omega) (by omega),
    fraction_lt_fraction_iff hmicrosecond hmicrosecond']
  simp

end Instant

end StylePrune
