import StylePrune.Decimal.Binary64

/-!
# JSON values

A JSON value keeps the order of the members of its objects and tells whole numbers from numbers
with a fraction or an exponent.  The members of an object are a list of pairs; `setMember` changes
the value of a name in its place and adds a new name at the end.
-/

namespace StylePrune

/-- A JSON value. -/
inductive Json where
  | null
  | bool (b : Bool)
  | int (n : Int)
  | real (x : Binary64)
  | str (s : String)
  | arr (items : List Json)
  | obj (members : List (String × Json))
  deriving Repr

namespace Json

/-- The members of an object, in order. -/
abbrev Members := List (String × Json)

/-- The value of a name, if it is there. -/
def member? (members : Members) (name : String) : Option Json :=
  (members.find? (·.1 == name)).map (·.2)

/-- The members with a value for a name: in its place, or at the end if the name is new. -/
def setMember (members : Members) (name : String) (value : Json) : Members :=
  match members with
  | [] => [(name, value)]
  | (n, v) :: rest =>
    if n == name then (n, value) :: rest else (n, v) :: setMember rest name value

/-- Whether a value counts as true: all but null, false, zero and what is empty. -/
def holds : Json → Bool
  | null => false
  | bool b => b
  | int n => n != 0
  | real x => match x.parts with
    | .finite _ m _ => m != 0
    | _ => true
  | str s => s != ""
  | arr items => !items.isEmpty
  | obj members => !members.isEmpty

/-- The value that was set is found. -/
theorem member?_setMember (members : Members) (name : String) (value : Json) :
  member? (setMember members name value) name = some value
  := by
  induction members with
  | nil => simp [setMember, member?]
  | cons m rest ih =>
    obtain ⟨n, v⟩ := m
    by_cases h : n == name
    · simp [setMember, member?, h]
    · simp only [setMember, h]
      simpa [member?, List.find?_cons, h] using ih

/-- Setting a name leaves the values of all other names alone. -/
theorem member?_setMember_of_ne (members : Members) {name other : String} (value : Json)
    (h : other ≠ name) :
  member? (setMember members name value) other = member? members other
  := by
  induction members with
  | nil => simp [setMember, member?, Ne.symm h]
  | cons m rest ih =>
    obtain ⟨n, v⟩ := m
    by_cases hn : n == name
    · have : (n == other) = false := by
        have := beq_iff_eq.1 hn
        subst this
        simpa using Ne.symm h
      simp [setMember, member?, hn, this]
    · simp only [setMember, hn]
      by_cases ho : n == other
      · simp [member?, ho]
      · simpa [member?, List.find?_cons, ho] using ih

end Json

end StylePrune
