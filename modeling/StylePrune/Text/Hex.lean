import StylePrune.Text.Blank

/-!
# Hexadecimal digits

`hex width n` writes a number with lower-case hexadecimal digits, with zeros in front up to the
given width.
-/

namespace StylePrune.Text

/-- The lower-case hexadecimal digit with a value below sixteen. -/
def hexDigit (n : Nat) : Char :=
  if n < 10 then Char.ofNat ('0'.toNat + n) else Char.ofNat ('a'.toNat + (n - 10))

/-- The lowest `width` hexadecimal digits of a number. -/
def hex : Nat → Nat → Text
  | 0, _ => []
  | width + 1, n => hex width (n / 16) ++ [hexDigit (n % 16)]

/-- The value of a hexadecimal digit in either case. -/
def hexValue? (c : Char) : Option Nat :=
  if '0' ≤ c ∧ c ≤ '9' then some (c.toNat - '0'.toNat)
  else if 'a' ≤ c ∧ c ≤ 'f' then some (c.toNat - 'a'.toNat + 10)
  else if 'A' ≤ c ∧ c ≤ 'F' then some (c.toNat - 'A'.toNat + 10)
  else none

@[simp]
theorem length_hex (width n : Nat) :
  (hex width n).length = width
  := by
  induction width generalizing n with
  | zero => rfl
  | succ width ih => simp [hex, ih]

end StylePrune.Text
