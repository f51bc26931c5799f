/-!
# Numbers of sixty-four bits

A binary64 number is given by its bits.  `Binary64.parts` takes them apart, `Binary64.ofDecimal`
rounds a decimal to the nearest number, and `Binary64.lt` and `Binary64.agrees` compare by value:
not-a-number is neither below, nor above, nor equal to anything.
-/

namespace StylePrune

/-- A floating-point number of sixty-four bits. -/
structure Binary64 where
  bits : UInt64
  deriving DecidableEq, Repr

namespace Binary64

/-- What the bits of a number say; a finite number is `mantissa * 2 ^ exponent` up to its sign. -/
inductive Parts where
  | notANumber
  | infinite (negative : Bool)
  | finite (negative : Bool) (mantissa : Nat) (exponent : Int)
  deriving DecidableEq, Repr

/-- The bits of a number taken apart. -/
def parts (x : Binary64) : Parts :=
  let n : Nat := x.bits.toNat
  let negative := n / Nat.pow 2 63 == 1
  let exponent : Nat := n / Nat.pow 2 52 % Nat.pow 2 11
  let fraction : Nat := n % Nat.pow 2 52
  if exponent = 2047 then if fraction = 0 then .infinite negative else .notANumber
  else if exponent = 0 then .finite negative fraction (-1074)
  else .finite negative (fraction + Nat.pow 2 52) ((exponent : Int) - 1075)

/-- The number that is none. -/
def notANumber : Binary64 := ⟨0x7FF8000000000000⟩

/-- The infinite number of a sign. -/
def infinite (negative : Bool) : Binary64 :=
  ⟨if negative then 0xFFF0000000000000 else 0x7FF0000000000000⟩

/-- The number with the other sign. -/
def negate (x : Binary64) : Binary64 := ⟨x.bits ^^^ 0x8000000000000000⟩

/-- The number nearest to `digits * 10 ^ exponent`.  What lies far outside the range of the finite
numbers is decided by its magnitude alone. -/
def ofDecimal (negative : Bool) (digits : Nat) (exponent : Int) : Binary64 :=
  let magnitude := (Nat.toDigits 10 digits).length + exponent
  let x : Binary64 :=
    if digits = 0 ∨ magnitude < -400 then ⟨0⟩
    else if 400 < magnitude then infinite false
    else ⟨(Float.ofScientific digits (exponent < 0) exponent.natAbs).toBits⟩
  if negative then x.negate else x

/-- A signed multiple of a power of two. -/
abbrev Dyadic := Int × Int

/-- Whether one multiple of a power of two is below another. -/
def Dyadic.lt (x y : Dyadic) : Bool :=
  let low := min x.2 y.2
  x.1 * Nat.pow 2 (x.2 - low).toNat < y.1 * Nat.pow 2 (y.2 - low).toNat

/-- A number that may be infinite, between the two infinities. -/
inductive Extended where
  | bottom
  | value (d : Dyadic)
  | top
  deriving DecidableEq, Repr

/-- Whether one number is below another. -/
def Extended.lt : Extended → Extended → Bool
  | bottom, bottom => false
  | bottom, _ => true
  | value _, bottom => false
  | value x, value y => Dyadic.lt x y
  | value _, top => true
  | top, _ => false

/-- The value of a number, unless it is none. -/
def value? (x : Binary64) : Option Extended :=
  match x.parts with
  | .notANumber => none
  | .infinite negative => some (if negative then .bottom else .top)
  | .finite negative m e => some (.value (if negative then -(m : Int) else m, e))

end Binary64

end StylePrune
