import StylePrune.Settings.Bindings

/-!
# References in values

A value of a settings file may refer to a variable by its name in braces behind a dollar sign.  The
reference stands for the value of the variable in the environment, or else for the value that the
bindings before it give the name.  A name that is bound nowhere stands for the default that may
follow it behind a colon and a minus sign, or else for nothing.
-/

namespace StylePrune.Settings

/-- Variables with their values. -/
abbrev Environment := List (String × String)

/-- The value of a variable of the environment. -/
def Environment.value? (env : Environment) (name : Text) : Option Text :=
  (env.find? (·.1.toList == name)).map (·.2.toList)

namespace References

open Text

/-- A character of the name in a reference. -/
def isNameChar (c : Char) : Bool := c != '\x7d' && c != ':'

/-- A reference. -/
def reference : Shape := fun _ t =>
  match after? ['$', '\x7b'] t with
  | none => none
  | some rest =>
    match rest.dropWhile isNameChar with
    | ':' :: '-' :: rest => after? ['\x7d'] (rest.dropWhile (· != '\x7d'))
    | rest => after? ['\x7d'] rest

/-- The name in a reference. -/
def nameOf (t : Text) : Text := (t.drop 2).takeWhile isNameChar

/-- The default in a reference, empty if there is none. -/
def defaultOf (t : Text) : Text := (((t.drop 2).dropWhile isNameChar).drop 2).dropLast

/-- The value of a name after the given bindings: a name bound without a value has the empty
one. -/
def valueAfter? (env : Environment) (earlier : List Bindings.Binding) (name : Text) :
    Option Text :=
  match env.value? name with
  | some value => some value
  | none => (Bindings.last? earlier name).map fun binding => binding.2.getD []

/-- The text with the value of its name in the place of each reference. -/
def expand (env : Environment) (earlier : List Bindings.Binding) (t : Text) : Text :=
  reference.replace (fun r => (valueAfter? env earlier (nameOf r)).getD (defaultOf r)) t

/-- The bindings with their references replaced, after those that have been read before. -/
def resolveAfter (env : Environment) :
    List Bindings.Binding → List Bindings.Binding → List Bindings.Binding
  | _, [] => []
  | earlier, (name, value) :: rest =>
    let binding := (name, value.map (expand env earlier))
    binding :: resolveAfter env (earlier ++ [binding]) rest

/-- The bindings of a settings file with their references replaced. -/
def resolve (env : Environment) (bindings : List Bindings.Binding) : List Bindings.Binding :=
  resolveAfter env [] bindings

/-- Replacing references keeps the names and their order. -/
theorem resolveAfter_names (env : Environment) (earlier bindings : List Bindings.Binding) :
  (resolveAfter env earlier bindings).map (·.1) = bindings.map (·.1)
  := by
  induction bindings generalizing earlier with
  | nil => rfl
  | cons b bindings ih => simp [resolveAfter, ih]

end References

end StylePrune.Settings
