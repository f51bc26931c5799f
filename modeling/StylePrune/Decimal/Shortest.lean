import StylePrune.Decimal.Binary64

/-!
# Shortest decimals

`shortest m q` finds the decimal with the fewest digits that rounds to the binary number
`m * 2 ^ q`, and among those the nearest.  The numbers that round to it form an interval, whose
ends belong to it exactly when `m` is even.  For one digit after the other the two neighbours of
the number on the grid of that many digits are tried.

Everything is compared in whole numbers: `num / den` is the number, and `low / den` and
`high / den` are the ends of the interval.
-/

namespace StylePrune.Decimal

/-- A positive number and the interval of numbers that round to it, over a common denominator. -/
structure Interval where
  low : Nat
  num : Nat
  high : Nat
  den : Nat
  closed : Bool
  deriving DecidableEq, Repr

/-- The interval of the number `m * 2 ^ q`.  Below a power of two the gap is half as wide. -/
def Interval.ofBinary (m : Nat) (q : Int) : Interval :=
  let scale := Nat.pow 2 (q - 2).toNat
  let below := if m = Nat.pow 2 52 ∧ -1074 < q then 1 else 2
  { low := (4 * m - below) * scale, num := 4 * m * scale, high := (4 * m + 2) * scale,
    den := Nat.pow 2 (2 - q).toNat, closed := m % 2 = 0 }

/-- Whether `digits * 10 ^ place` lies in the interval. -/
def Interval.contains (i : Interval) (digits : Nat) (place : Int) : Bool :=
  let left := digits * Nat.pow 10 place.toNat * i.den
  let by10 := Nat.pow 10 (-place).toNat
  if i.closed then i.low * by10 ≤ left && left ≤ i.high * by10
  else i.low * by10 < left && left < i.high * by10

/-- The distance of `digits * 10 ^ place` from the number, over a denominator that depends on the
place alone. -/
def Interval.distance (i : Interval) (digits : Nat) (place : Int) : Nat :=
  let left := digits * Nat.pow 10 place.toNat * i.den
  let right := i.num * Nat.pow 10 (-place).toNat
  (left - right) + (right - left)

/-- The better of the two neighbours on the grid of multiples of `10 ^ place`, if one lies in the
interval; of two equally near ones the even. -/
def Interval.neighbour? (i : Interval) (place : Int) : Option Nat :=
  let d := i.num * Nat.pow 10 (-place).toNat / (i.den * Nat.pow 10 place.toNat)
  match i.contains d place && d != 0, i.contains (d + 1) place with
  | true, true =>
    let left := i.distance d place
    let right := i.distance (d + 1) place
    some (if left < right ∨ left = right ∧ d % 2 = 0 then d else d + 1)
  | true, false => some d
  | false, true => some (d + 1)
  | false, false => none

/-- The first hit on `n` grids, each ten times finer than the one before. -/
def Interval.search (i : Interval) : Nat → Int → Nat × Int
  | 0, place => (i.num * Nat.pow 10 (-place).toNat / (i.den * Nat.pow 10 place.toNat), place)
  | n + 1, place =>
    match i.neighbour? place with
    | some d => (d, place)
    | none => search i n (place - 1)

/-- The number of decimal digits before the point, less than one for a number below a tenth. -/
def Interval.magnitude (i : Interval) : Int :=
  let whole := i.num / i.den
  if whole ≠ 0 then (Nat.toDigits 10 whole).length
  else
    let shift : Nat := 400
    ((Nat.toDigits 10 (i.num * Nat.pow 10 shift / i.den)).length : Int) - shift

/-- A decimal without zeros at its end, given by digits and a place; `n` bounds the zeros. -/
def dropZeros : Nat → Nat → Int → Nat × Int
  | 0, d, place => (d, place)
  | n + 1, d, place => if d % 10 = 0 ∧ d ≠ 0 then dropZeros n (d / 10) (place + 1) else (d, place)

/-- The shortest decimal `digits * 10 ^ place` that rounds to `m * 2 ^ q`, for positive `m`. -/
def shortest (m : Nat) (q : Int) : Nat × Int :=
  let i := Interval.ofBinary m q
  let (d, place) := i.search 17 (i.magnitude - 1)
  dropZeros 20 d place

end StylePrune.Decimal
