import StylePrune.Text.Blank

/-!
# Instants

An instant is a date and a time of day, down to the microsecond.  `stamp` writes it for file names
and `iso` for records; there the fraction of the second is left out when it is zero.
-/

namespace StylePrune

/-- A date and a time of day. -/
structure Instant where
  year : Nat
  month : Nat
  day : Nat
  hour : Nat := 0
  minute : Nat := 0
  second : Nat := 0
  microsecond : Nat := 0
  deriving DecidableEq, Repr

namespace Instant

/-- A number with at least `width` decimal digits. -/
def padded (width n : Nat) : String :=
  let digits := Nat.toDigits 10 n
  String.ofList (List.replicate (width - digits.length) '0' ++ digits)

/-- The instant in a file name: the digits of the date, an underscore, those of the time. -/
def stamp (i : Instant) : String :=
  padded 4 i.year ++ padded 2 i.month ++ padded 2 i.day ++ "_" ++ padded 2 i.hour
    ++ padded 2 i.minute ++ padded 2 i.second

/-- The instant in a record. -/
def iso (i : Instant) : String :=
  padded 4 i.year ++ "-" ++ padded 2 i.month ++ "-" ++ padded 2 i.day ++ "T" ++ padded 2 i.hour
    ++ ":" ++ padded 2 i.minute ++ ":" ++ padded 2 i.second
    ++ (if i.microsecond = 0 then "" else "." ++ padded 6 i.microsecond)

/-- The instant a number of seconds after the start of the year 1970.  Days are counted from the
first of March of the year zero, so that a leap day is the last day of its year: 400 years have
146097 days, and five months in a row, from March on, have 153. -/
def afterEpoch (seconds microsecond : Nat) : Instant :=
  let days := seconds / 86400 + 719468
  let ofEra := days % 146097
  let yearOfEra := (ofEra - ofEra / 1460 + ofEra / 36524 - ofEra / 146096) / 365
  let ofYear := ofEra - (365 * yearOfEra + yearOfEra / 4 - yearOfEra / 100)
  let monthFromMarch := (5 * ofYear + 2) / 153
  let month := if monthFromMarch < 10 then monthFromMarch + 3 else monthFromMarch - 9
  { year := days / 146097 * 400 + yearOfEra + (if month ≤ 2 then 1 else 0)
    month
    day := ofYear - (153 * monthFromMarch + 2) / 5 + 1
    hour := seconds / 3600 % 24
    minute := seconds / 60 % 60
    second := seconds % 60
    microsecond }

end Instant

end StylePrune
