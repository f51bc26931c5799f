import Mathlib.Data.List.Nodup
import StylePrune.Analysis.Tally

/-!
# What a tally gathers

Entering the stylesheets one after the other enters the names of all their definitions, each where
the patterns and the threshold put it (`Tally.enters_gather`), and keeps the definitions of all names
that no pattern excludes, if no stylesheet is entered twice (`Tally.definitions_gather`).
-/

namespace StylePrune.Tally

variable {patterns : List Text} {threshold : Confidence} {tally tally' tally'' : Tally}
    {definitions : List ClassDefinition} {file : String} {P Q : ClassDefinition → Prop}

/-! ### Names -/

/-- Whether a tally has become another by entering the names of the definitions of which `P`
holds. -/
structure Enters (patterns : List Text) (threshold : Confidence) (tally tally' : Tally)
    (P : ClassDefinition → Prop) : Prop where
  names : ∀ name, name ∈ tally'.names ↔ name ∈ tally.names ∨ ∃ d, P d ∧ d.name = name
  excluded : ∀ name, name ∈ tally'.excluded ↔ name ∈ tally.excluded
    ∨ Exclusion.excludes patterns name = true ∧ ∃ d, P d ∧ d.name = name
  candidates : ∀ name, name ∈ tally'.candidates ↔ name ∈ tally.candidates
    ∨ Exclusion.excludes patterns name = false
      ∧ ∃ d, P d ∧ d.name = name ∧ d.confidence.meets threshold = true

theorem Enters.congr (h : Enters patterns threshold tally tally' P) (hQ : ∀ d, P d ↔ Q d) :
  Enters patterns threshold tally tally' Q
  := by
  obtain rfl : P = Q := funext fun d => propext (hQ d)
  exact h

theorem Enters.of_forall_not (hP : ∀ d, ¬ P d) :
  Enters patterns threshold tally tally P
  := by
  constructor <;> simp [hP]

theorem Enters.trans (h : Enters patterns threshold tally tally' P)
    (h' : Enters patterns threshold tally' tally'' Q) :
  Enters patterns threshold tally tally'' fun d => P d ∨ Q d
  := by
  constructor
  · intro name
    simp only [h'.names, h.names, or_and_right, exists_or, or_assoc]
  · intro name
    simp only [h'.excluded, h.excluded, or_and_right, exists_or, and_or_left, or_assoc]
  · intro name
    simp only [h'.candidates, h.candidates, or_and_right, exists_or, and_or_left, or_assoc]

theorem mem_ite_insert_iff {c : Prop} [Decidable c] {names : List Text} {name added : Text} :
  (name ∈ if c then names.insert added else names) ↔ name ∈ names ∨ c ∧ added = name
  := by
  split
  · next h => simp [h, or_comm, eq_comm]
  · next h => simp [h]

/-- One definition enters its name. -/
theorem addNames_singleton (patterns : List Text) (threshold : Confidence) (tally : Tally)
    (d : ClassDefinition) :
  addNames patterns threshold tally [d]
    = { tally with
        names := tally.names.insert d.name
        excluded := if Exclusion.excludes patterns d.name = true then tally.excluded.insert d.name
          else tally.excluded
        candidates :=
          if Exclusion.excludes patterns d.name = false ∧ d.confidence.meets threshold = true then
            tally.candidates.insert d.name
          else tally.candidates }
  := by
  rw [addNames, List.foldl_cons, List.foldl_nil]
  cases Exclusion.excludes patterns d.name <;> cases d.confidence.meets threshold <;> rfl

theorem enters_addName (patterns : List Text) (threshold : Confidence) (tally : Tally)
    (d : ClassDefinition) :
  Enters patterns threshold tally (addNames patterns threshold tally [d]) (· = d)
  := by
  rw [addNames_singleton]
  constructor
  · intro name
    simp [or_comm, eq_comm]
  · intro name
    simp only [mem_ite_insert_iff, exists_eq_left]
    exact or_congr_right (and_congr_left fun hname => by rw [hname])
  · intro name
    simp only [mem_ite_insert_iff, exists_eq_left]
    rw [and_right_comm, and_assoc]
    exact or_congr_right (and_congr_left fun hname => by rw [hname.1])

theorem enters_addNames (patterns : List Text) (threshold : Confidence) (tally : Tally)
    (definitions : List ClassDefinition) :
  Enters patterns threshold tally (addNames patterns threshold tally definitions) (· ∈ definitions)
  := by
  induction definitions generalizing tally with
  | nil => exact Enters.of_forall_not fun d => List.not_mem_nil
  | cons d rest ih =>
      apply ((enters_addName patterns threshold tally d).trans (ih _)).congr
      intro e
      exact List.mem_cons.symm

/-! ### Files -/

/-- The definitions whose names no pattern excludes. -/
def kept (patterns : List Text) (definitions : List ClassDefinition) : List ClassDefinition :=
  definitions.filter fun d => !Exclusion.excludes patterns d.name

theorem setFile_of_notMem {byFile : List (String × List ClassDefinition)}
    (h : file ∉ byFile.map Prod.fst) :
  setFile byFile file definitions = byFile ++ [(file, definitions)]
  := by
  induction byFile with
  | nil => rfl
  | cons entry rest ih =>
      obtain ⟨hne, hrest⟩ := not_or.mp (mt List.mem_cons.mpr h)
      rw [setFile, if_neg (by simpa using Ne.symm hne), ih hrest, List.cons_append]

theorem byFile_addNames (patterns : List Text) (threshold : Confidence) (tally : Tally)
    (definitions : List ClassDefinition) :
  (addNames patterns threshold tally definitions).byFile = tally.byFile
  := by
  induction definitions generalizing tally with
  | nil => rfl
  | cons d rest ih =>
      refine (ih (addNames patterns threshold tally [d])).trans ?_
      rw [addNames_singleton]

theorem addFile_eq (patterns : List Text) (threshold : Confidence) (tally : Tally) (file : String)
    (definitions : List ClassDefinition) :
  addFile patterns threshold tally file definitions
    = if kept patterns definitions = [] then addNames patterns threshold tally definitions
      else { addNames patterns threshold tally definitions with
        byFile := setFile (addNames patterns threshold tally definitions).byFile file
          (kept patterns definitions) }
  := by
  rw [addFile]
  split
  · next hnone => rw [if_pos (show kept patterns definitions = [] from hnone)]
  · next hsome => rw [if_neg (show ¬ kept patterns definitions = [] from hsome), kept]

theorem enters_addFile (patterns : List Text) (threshold : Confidence) (tally : Tally) (file : String)
    (definitions : List ClassDefinition) :
  Enters patterns threshold tally (addFile patterns threshold tally file definitions)
    (· ∈ definitions)
  := by
  have henters := enters_addNames patterns threshold tally definitions
  rw [addFile_eq]
  split
  · exact henters
  · exact ⟨henters.names, henters.excluded, henters.candidates⟩

/-- A file that was not entered before comes last, unless none of its definitions is kept. -/
theorem byFile_addFile (h : file ∉ tally.byFile.map Prod.fst) :
  (addFile patterns threshold tally file definitions).byFile
    = if kept patterns definitions = [] then tally.byFile
      else tally.byFile ++ [(file, kept patterns definitions)]
  := by
  rw [addFile_eq]
  split
  · exact byFile_addNames patterns threshold tally definitions
  · dsimp only
    rw [byFile_addNames, setFile_of_notMem h]

theorem definitions_addFile (h : file ∉ tally.byFile.map Prod.fst) :
  (addFile patterns threshold tally file definitions).definitions
    = tally.definitions ++ kept patterns definitions
  := by
  rw [Tally.definitions, byFile_addFile h]
  split
  · next hnone => rw [hnone, List.append_nil, Tally.definitions]
  · rw [List.flatMap_append, List.flatMap_singleton, Tally.definitions]

theorem sublist_files_addFile (h : file ∉ tally.byFile.map Prod.fst) :
  ((addFile patterns threshold tally file definitions).byFile.map Prod.fst).Sublist
    (tally.byFile.map Prod.fst ++ [file])
  := by
  rw [byFile_addFile h]
  split
  · exact List.sublist_append_left _ _
  · rw [List.map_append]
    exact .refl _

/-! ### All files -/

/-- Enters stylesheets one after the other. -/
def gather (patterns : List Text) (threshold : Confidence) (tally : Tally)
    (sheets : List (String × List ClassDefinition)) : Tally :=
  sheets.foldl (fun tally sheet => addFile patterns threshold tally sheet.1 sheet.2) tally

theorem enters_gather (patterns : List Text) (threshold : Confidence) (tally : Tally)
    (sheets : List (String × List ClassDefinition)) :
  Enters patterns threshold tally (gather patterns threshold tally sheets)
    fun d => ∃ sheet ∈ sheets, d ∈ sheet.2
  := by
  induction sheets generalizing tally with
  | nil => exact Enters.of_forall_not (by simp)
  | cons sheet rest ih =>
      apply ((enters_addFile patterns threshold tally sheet.1 sheet.2).trans (ih _)).congr
      intro d
      rw [List.exists_mem_cons_iff]

/-- What is kept of stylesheets that are entered once each. -/
theorem definitions_gather {sheets : List (String × List ClassDefinition)}
    (h : (tally.byFile.map Prod.fst ++ sheets.map Prod.fst).Nodup) :
  (gather patterns threshold tally sheets).definitions
    = tally.definitions ++ sheets.flatMap fun sheet => kept patterns sheet.2
  := by
  induction sheets generalizing tally with
  | nil => simp [gather]
  | cons sheet rest ih =>
      rw [List.map_cons, List.append_cons] at h
      have hnew : sheet.1 ∉ tally.byFile.map Prod.fst := by
        intro hmem
        exact (List.nodup_append.mp h.of_append_left).2.2 _ hmem _ List.mem_cons_self rfl
      rw [List.flatMap_cons, ← List.append_assoc, ← definitions_addFile hnew]
      exact ih (h.sublist ((sublist_files_addFile hnew).append_right _))

end StylePrune.Tally
