import StylePrune.Json.Basic

/-!
# Comparing JSON values

`agrees` says when two values are equal: numbers by value, whether whole or not, with true as one
and false as zero; objects without regard to the order of their members.  `less?` compares two
numbers, two strings or two lists, and has no answer for anything else.
-/

namespace StylePrune.Json

/-- The numerical value, of a truth value too. -/
inductive Numeric where
  | none
  | notANumber
  | number (x : Binary64.Extended)
  deriving DecidableEq, Repr

/-- The numerical value of a JSON value. -/
def numeric : Json → Numeric
  | bool b => .number (.value (if b then 1 else 0, 0))
  | int n => .number (.value (n, 0))
  | real x => match x.value? with
    | some v => .number v
    | Option.none => .notANumber
  | _ => .none

/-- Whether two numerical values are equal; none and not-a-number are equal to nothing. -/
def Numeric.agrees : Numeric → Numeric → Bool
  | number x, number y => !x.lt y && !y.lt x
  | _, _ => false

mutual

/-- Whether two values are equal. -/
def agrees : Json → Json → Bool
  | null, null => true
  | str s, str t => s == t
  | arr xs, arr ys => agreesItems xs ys
  | obj ms, obj ns => ms.length == ns.length && agreesMembers ms ns
  | x, y => x.numeric.agrees y.numeric

/-- Whether two lists agree item by item. -/
def agreesItems : List Json → List Json → Bool
  | [], [] => true
  | x :: xs, y :: ys => agrees x y && agreesItems xs ys
  | _, _ => false

/-- Whether each member has an equal one of the same name. -/
def agreesMembers : List (String × Json) → List (String × Json) → Bool
  | [], _ => true
  | (name, x) :: ms, ns =>
    (match member? ns name with
      | some y => agrees x y
      | none => false) && agreesMembers ms ns

end

mutual

/-- Whether the first value is below the second, if they can be compared. -/
def less? : Json → Json → Option Bool
  | str s, str t => some (decide (s < t))
  | arr xs, arr ys => lessItems? xs ys
  | x, y =>
    match x.numeric, y.numeric with
    | .none, _ => none
    | _, .none => none
    | .number a, .number b => some (a.lt b)
    | _, _ => some false

/-- Whether the first list is below the second: the first items that differ decide, then the
length. -/
def lessItems? : List Json → List Json → Option Bool
  | [], ys => some !ys.isEmpty
  | _ :: _, [] => some false
  | x :: xs, y :: ys => if agrees x y then lessItems? xs ys else less? x y

end

end StylePrune.Json
