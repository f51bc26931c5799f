import StylePrune.Text.Glob

/-!
# Exclusion

A class name that one of the exclusion patterns stands for is never reported and never removed.
Upper and lower case differ, as they do in a stylesheet.
-/

namespace StylePrune.Exclusion

/-- Names that are put together at run time or come from a design system. -/
def defaultPatterns : List Text :=
  ["m-*", "mt-*", "mb-*", "ml-*", "mr-*", "mx-*", "my-*",
    "p-*", "pt-*", "pb-*", "pl-*", "pr-*", "px-*", "py-*",
    "gap-*", "w-*", "h-*", "col-*", "row-*", "grid-*",
    "flex*", "d-*", "align-*", "justify-*", "order-*",
    "text-*", "font-*", "fw-*", "fs-*", "lh-*",
    "hidden", "visible", "sr-only", "is-*", "has-*", "js-*"].map String.toList

/-- Whether one of the patterns stands for a name. -/
def excludes (patterns : List Text) (name : Text) : Bool :=
  patterns.any fun pattern => Text.Glob.isMatch pattern name

/-- The patterns that count: an empty one does not. -/
def effective (patterns : List Text) : List Text := patterns.filter (· != [])

theorem excludes_append (patterns more : List Text) (name : Text) :
  excludes (patterns ++ more) name = (excludes patterns name || excludes more name)
  := by
  simp [excludes]

end StylePrune.Exclusion
