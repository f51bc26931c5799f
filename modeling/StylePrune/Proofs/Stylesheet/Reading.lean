import Mathlib.Data.List.Basic
import StylePrune.Proofs.Text.Trim
import StylePrune.Stylesheet.Definitions

/-!
# What a reading depends on

A scanner passes over blank statements, and of those that follow a statement it looks only at the
next that is not blank.  So what it reads depends on the `solids` of a list of statements: the
texts of those that are not blank, without the blanks around them.
-/

namespace StylePrune.Stylesheet

open Text

/-- The statements that are more than blanks, without the blanks around them. -/
def solids (statements : List Text) : List Text := (statements.map trim).filter (· ≠ [])

@[simp]
theorem solids_nil :
  solids [] = []
  := rfl

theorem solids_cons_of_blank {line : Text} (h : trim line = []) (rest : List Text) :
  solids (line :: rest) = solids rest
  := by
  simp [solids, h]

theorem solids_cons_of_ne {line : Text} (h : trim line ≠ []) (rest : List Text) :
  solids (line :: rest) = trim line :: solids rest
  := by
  simp [solids, h]

theorem solids_append (first second : List Text) :
  solids (first ++ second) = solids first ++ solids second
  := by
  simp [solids]

theorem flatMap_solids {α : Type} (f : α → List Text) (l : List α) :
  (l.flatMap fun a => solids (f a)) = solids (l.flatMap f)
  := by
  induction l with
  | nil => rfl
  | cons a l ih => rw [List.flatMap_cons, List.flatMap_cons, ih, solids_append]

/-- Nothing is trimmed twice, and no blank statement is left to leave out. -/
@[simp]
theorem solids_solids (statements : List Text) :
  solids (solids statements) = solids statements
  := by
  induction statements with
  | nil => rfl
  | cons line rest ih =>
      by_cases h : trim line = []
      · rw [solids_cons_of_blank h, ih]
      · rw [solids_cons_of_ne h, solids_cons_of_ne (by rwa [trim_trim]), trim_trim, ih]

/-- Leaving repetitions out loses no name. -/
theorem mem_map_fst_firstByName_iff {seen : List Text} {entries : List (Text × Context)}
    {name : Text} :
  name ∈ (firstByName seen entries).map Prod.fst ↔ name ∈ entries.map Prod.fst ∧ name ∉ seen
  := by
  induction entries generalizing seen with
  | nil => simp [firstByName]
  | cons entry rest ih =>
      obtain ⟨first, context⟩ := entry
      rw [firstByName]
      by_cases hseen : first ∈ seen
      · rw [if_pos (by simpa using hseen), ih, List.map_cons, List.mem_cons]
        constructor
        · rintro ⟨h, hs⟩
          exact ⟨.inr h, hs⟩
        · rintro ⟨rfl | h, hs⟩
          · exact absurd hseen hs
          · exact ⟨h, hs⟩
      · rw [if_neg (by simpa using hseen), List.map_cons, List.map_cons, List.mem_cons,
          List.mem_cons, ih, List.mem_cons]
        by_cases hname : name = first
        · subst hname
          simp [hseen]
        · simp [hname]

/-- The class names found in a stylesheet are those that it defines. -/
theorem map_name_definitionsOf (t : Text) (file : String) (place : Path) :
  (definitionsOf t file place).map ClassDefinition.name
    = (firstByName [] (definedIn t)).map Prod.fst
  := by
  rw [definitionsOf, List.map_map]
  rfl

/-- Whether a statement opens a block or starts with an ampersand. -/
def takesUp : Text → Bool
  | [] => false
  | c :: _ => c == '\x7b' || c == '&'

/-- Looking ahead means looking at the next statement that is not blank. -/
theorem continues_eq (statements : List Text) :
  continues statements = ((solids statements).head?.map takesUp).getD false
  := by
  induction statements with
  | nil => rfl
  | cons line rest ih =>
      rw [continues]
      split
      · next h => rw [ih, solids_cons_of_blank h]
      · next c t h =>
          rw [solids_cons_of_ne (by rw [h]; simp), h]
          rfl

namespace Reading

/-- A reading without what it hands on. -/
def bare (r : Reading) : Reading := { r with carry := none }

end Reading

namespace Scanner

/-- Only blank statements say nothing. -/
theorem read_eq_none_iff {s : Scanner} {line : Text} {following : List Text} :
  s.read line following = none ↔ trim line = []
  := by
  rw [read]
  constructor
  · intro h
    split at h
    · assumption
    · split at h
      · cases h
      · split at h
        · cases h
        · split at h
          · cases h
          · split at h <;> cases h
  · intro h
    rw [h]

/-- All that a reading can be.  A line that lists no members leaves the pending name to its brace at
most; one that does leaves the name that its members give to its brace, or hands it on. -/
theorem read_cases {s : Scanner} {line : Text} {following : List Text} {r : Reading}
    (h : s.read line following = some r) :
  r.text = trim line
    ∧ ((r.members = none ∧ r.carry = none ∧ ∀ name ∈ r.opener, s.pending = some name)
      ∨ ∃ members, Member.ofLine? (trim line) s.parent = some members ∧ r.members = some members
        ∧ (∀ name ∈ r.opener, primary members = some name)
        ∧ ∀ name ∈ r.carry, (primary members <|> s.pending) = some name)
  := by
  rw [read] at h
  split at h
  · cases h
  · split at h
    · obtain rfl := Option.some.inj h
      exact ⟨rfl, .inl ⟨rfl, rfl, by rintro name ⟨⟩⟩⟩
    · split at h
      · obtain rfl := Option.some.inj h
        refine ⟨rfl, .inl ⟨rfl, rfl, ?_⟩⟩
        intro name hname
        dsimp only at hname
        split at hname
        · exact hname
        · cases hname
      · next members hmembers =>
        split at h
        · obtain rfl := Option.some.inj h
          exact ⟨rfl, .inr ⟨members, hmembers, rfl, fun _ h => h, by rintro name ⟨⟩⟩⟩
        · split at h
          · obtain rfl := Option.some.inj h
            exact ⟨rfl, .inr ⟨members, hmembers, rfl, by rintro name ⟨⟩, fun _ h => h⟩⟩
          · obtain rfl := Option.some.inj h
            exact ⟨rfl, .inr ⟨members, hmembers, rfl, by rintro name ⟨⟩, by rintro name ⟨⟩⟩⟩

/-- What a statement says depends on those that follow by what the next one starts with. -/
theorem read_congr {s : Scanner} {line : Text} {following following' : List Text}
    (h : continues following = continues following') :
  s.read line following = s.read line following'
  := by
  simp only [read, h]

/-- What a statement defines and which block it opens does not depend on those that follow. -/
theorem map_bare_read (s : Scanner) (line : Text) (following following' : List Text) :
  (s.read line following).map Reading.bare = (s.read line following').map Reading.bare
  := by
  rw [read, read]
  split
  · rfl
  · split
    · rfl
    · split
      · rfl
      · split
        · rfl
        · split <;> split <;> rfl

/-- The readings of statements, blank ones left out. -/
def readings (s : Scanner) (statements : List Text) : List Reading :=
  (s.readAll statements).reduceOption

/-- All that statements define, as a scanner reads them. -/
def finds (s : Scanner) (statements : List Text) : List (Text × Context) :=
  (s.readings statements).flatMap Reading.definitions

theorem readings_cons_of_blank {line : Text} (h : trim line = []) (s : Scanner)
    (rest : List Text) :
  s.readings (line :: rest) = s.readings rest
  := by
  rw [readings, readAll, read_eq_none_iff.mpr h]
  rfl

theorem readings_cons_of_some {s : Scanner} {line : Text} {rest : List Text} {r : Reading}
    (h : s.read line rest = some r) :
  s.readings (line :: rest) = r :: (s.advance (some r)).readings rest
  := by
  rw [readings, readAll, h]
  rfl

theorem finds_cons_of_blank {line : Text} (h : trim line = []) (s : Scanner) (rest : List Text) :
  s.finds (line :: rest) = s.finds rest
  := by
  rw [finds, readings_cons_of_blank h, finds]

theorem finds_cons_of_some {s : Scanner} {line : Text} {rest : List Text} {r : Reading}
    (h : s.read line rest = some r) :
  s.finds (line :: rest) = r.definitions ++ (s.advance (some r)).finds rest
  := by
  rw [finds, readings_cons_of_some h]
  rfl

/-- What is read from a statement does not depend on the blanks around it. -/
theorem read_trim (s : Scanner) (line : Text) (following : List Text) :
  s.read (trim line) following = s.read line following
  := by
  simp only [read, trim_trim]

/-- What is read from a statement does not depend on any blanks, be it statements. -/
theorem read_congr_of_solids (s : Scanner) {line line' : Text} {following following' : List Text}
    (hline : trim line = trim line') (hfollowing : solids following = solids following') :
  s.read line following = s.read line' following'
  := by
  rw [← read_trim, hline, read_trim]
  apply read_congr
  rw [continues_eq, continues_eq, hfollowing]

/-- What is read from statements depends on those that are more than blanks. -/
theorem readings_solids (s : Scanner) (statements : List Text) :
  s.readings (solids statements) = s.readings statements
  := by
  induction statements generalizing s with
  | nil => rfl
  | cons line rest ih =>
      by_cases h : trim line = []
      · rw [solids_cons_of_blank h, readings_cons_of_blank h, ih]
      · have hne : s.read line rest ≠ none := mt read_eq_none_iff.mp h
        obtain ⟨r, hr⟩ := Option.ne_none_iff_exists'.mp hne
        have hr' : s.read (trim line) (solids rest) = some r := by
          rw [← hr]
          apply read_congr_of_solids s (trim_trim line) (solids_solids rest)
        rw [solids_cons_of_ne h, readings_cons_of_some hr, readings_cons_of_some hr', ih]

/-- A scanner finds the same in statements that are the same but for blanks. -/
theorem finds_congr {first second : List Text} (h : solids first = solids second)
    (s : Scanner) :
  s.finds first = s.finds second
  := by
  rw [finds, finds, ← readings_solids, h, readings_solids]

end Scanner

/-- What a stylesheet defines is what a scanner finds from the start. -/
theorem definedIn_eq_finds (t : Text) :
  definedIn t = ({} : Scanner).finds (statementsOf (strip t))
  := rfl

end StylePrune.Stylesheet
