import StylePrune.Stylesheet.Definitions

/-!
# Statements with their source

To remove rules from a stylesheet, its statements are needed twice: as they were written and
cleaned.  `Statement.split` cuts the source at the columns where its mask has the end of a
statement, and the cleaned text at its own ends, and pairs the pieces line by line.  Where the two
do not correspond there is no answer.

A statement is written as its line has it: `flatten_raw_of_pairLine` says that the raw pieces of a
line spell it.
-/

namespace StylePrune

/-- Why a text is left as it is, or what was odd about it. -/
inductive Anomaly where
  /-- Cleaning has changed the number of lines. -/
  | misaligned
  /-- The pieces of a line and of its cleaned form do not correspond. -/
  | unsplittable (line : Nat)
  /-- A removed block was never closed. -/
  | neverClosed (line : Nat)
  deriving DecidableEq, Repr

/-- The wording of an anomaly. -/
def Anomaly.message : Anomaly → String
  | misaligned => "Could not align cleaned lines with the source; file left unchanged"
  | unsplittable line =>
    "Could not split line " ++ toString line ++ " into statements; file left unchanged"
  | neverClosed line =>
    "Block starting at line " ++ toString line
      ++ " was never closed; removed through end of file"

/-- A statement as it was written and cleaned, on a line counted from zero. -/
structure Statement where
  raw : Text
  clean : Text
  line : Nat
  deriving DecidableEq, Repr

namespace Statement

open Text Stylesheet

/-- The pairs of two lists of one length, without the last one if it has an empty text and is not
the only one. -/
def pairUp (line : Nat) : List Text → List Text → List Statement
  | [raw], [clean] => [⟨raw, clean, line⟩]
  | [raw, []], [clean, _] => [⟨raw, clean, line⟩]
  | raw :: raws, clean :: cleans => ⟨raw, clean, line⟩ :: pairUp line raws cleans
  | _, _ => []

/-- The statements of a line that is given as written, cleaned and masked. -/
def pairLine (line : Nat) (raw clean masked : Text) : Except Anomaly (List Statement) :=
  let raws := cutAlong masked raw
  let cleans := cut clean
  if raws.length = cleans.length then .ok (pairUp line raws cleans)
  else .error (.unsplittable (line + 1))

/-- The statements of the lines from a number on. -/
def pairLines (line : Nat) : List Text → List Text → List Text → Except Anomaly (List Statement)
  | raw :: raws, clean :: cleans, masked :: maskeds => do
    let first ← pairLine line raw clean masked
    let others ← pairLines (line + 1) raws cleans maskeds
    return first ++ others
  | _, _, _ => return []

/-- The statements of a stylesheet. -/
def split (t : Text) : Except Anomaly (List Statement) :=
  let raws := lines t
  let cleans := lines (strip t)
  if raws.length = cleans.length then pairLines 0 raws cleans (lines (mask t))
  else .error .misaligned

theorem flatten_raw_pairUp (line : Nat) (raws cleans : List Text)
    (h : raws.length = cleans.length) :
  ((pairUp line raws cleans).map raw).flatten = raws.flatten
  := by
  fun_induction pairUp line raws cleans with
  | case1 => simp
  | case2 => simp
  | case3 raw raws clean cleans _ _ ih => simp_all
  | case4 raws cleans _ _ h₃ =>
    cases raws with
    | nil => simp
    | cons r rs =>
      cases cleans with
      | nil => simp at h
      | cons c cs => exact absurd rfl (h₃ r rs c cs rfl)

/-- The statements of a line spell it. -/
theorem flatten_raw_of_pairLine {line : Nat} {raw clean masked : Text} {ss : List Statement}
    (h : pairLine line raw clean masked = .ok ss) :
  (ss.map Statement.raw).flatten = raw
  := by
  simp only [pairLine] at h
  split at h
  · next hl =>
    obtain rfl := Except.ok.inj h
    rw [flatten_raw_pairUp _ _ _ hl, flatten_cutAlong]
  · simp at h

end Statement

end StylePrune
