import StylePrune.Proofs.Analysis.Partition

/-!
# Stricter thresholds

A stricter threshold only removes findings: what an analysis finds at it is found at every weaker one
as well (`Analysis.narrows_run`).
-/

namespace StylePrune.Analysis

/-- Whether an analysis finds nothing that another one does not find, and sorts what both find in the
same way. -/
structure Narrows (a a' : Analysis) : Prop where
  names : ∀ name, name ∈ a'.tally.names ↔ name ∈ a.tally.names
  excluded : ∀ name, name ∈ a'.tally.excluded ↔ name ∈ a.tally.excluded
  candidates : a'.tally.candidates ⊆ a.tally.candidates
  used : a'.reconciliation.used ⊆ a.reconciliation.used
  unused : a'.reconciliation.unused ⊆ a.reconciliation.unused
  plan : ∀ entry' ∈ a'.plan, ∃ entry ∈ a.plan, entry.1 = entry'.1 ∧ entry'.2 ⊆ entry.2
  sorted : ∀ name ∈ a.tally.candidates, name ∈ a'.tally.candidates →
    name ∈ a.reconciliation.used ∧ name ∈ a'.reconciliation.used
      ∨ name ∈ a.reconciliation.unused ∧ name ∈ a'.reconciliation.unused

variable {w : World} {request : AnalysisRequest} {styles components : Place} {a a' : Analysis}
    {stricter : Confidence}

section

variable (h : IsOf w request styles components a)
    (h' : IsOf w { request with threshold := stricter } styles components a')

include h h'

theorem candidates_subset_of_isOf (hroot : w.files.get? styles = some .directory)
    (hstricter : stricter.meets request.threshold = true) :
  a'.tally.candidates ⊆ a.tally.candidates
  := by
  intro name hname
  obtain ⟨⟨d, hd, hdname, hmeets⟩, hkept⟩ := (h'.mem_candidates_iff hroot).mp hname
  exact (h.mem_candidates_iff hroot).mpr
    ⟨⟨d, hd, hdname, Confidence.meets_trans hmeets hstricter⟩, hkept⟩

theorem unused_subset_of_isOf (hroot : w.files.get? styles = some .directory)
    (hstricter : stricter.meets request.threshold = true) :
  a'.reconciliation.unused ⊆ a.reconciliation.unused
  := by
  intro name hname
  obtain ⟨hcandidate, hunused⟩ := h'.mem_unused_iff.mp hname
  exact h.mem_unused_iff.mpr ⟨candidates_subset_of_isOf h h' hroot hstricter hcandidate, hunused⟩

/-- What is planned for a stylesheet at the stricter threshold is planned for it at the weaker one. -/
theorem exists_entry_of_isOf (named : w.files.IsNamed) (hroot : w.files.get? styles = some .directory)
    (hstricter : stricter.meets request.threshold = true) {entry' : String × List ClassDefinition}
    (hentry' : entry' ∈ a'.plan) :
  ∃ entry ∈ a.plan, entry.1 = entry'.1 ∧ entry'.2 ⊆ entry.2
  := by
  have hplanned : ∀ d ∈ entry'.2, (w.Defines styles d ∧ d.confidence.meets request.threshold = true
      ∧ d.name ∈ a.reconciliation.unused) ∧ d.file = entry'.1 := by
    intro d hd
    obtain ⟨⟨hdefines, hmeets, hunused⟩, hfile⟩ := (h'.mem_entry_iff named hroot hentry').mp hd
    exact ⟨⟨hdefines, Confidence.meets_trans hmeets hstricter,
      unused_subset_of_isOf h h' hroot hstricter hunused⟩, hfile⟩
  obtain ⟨d, hd⟩ := List.exists_mem_of_ne_nil _ (of_mem_plan hentry').1
  obtain ⟨entry, hentry, hmem⟩ := (h.mem_plan_iff named hroot).mpr (hplanned d hd).1
  have hfile : entry.1 = entry'.1 :=
    ((h.mem_entry_iff named hroot hentry).mp hmem).2.symm.trans (hplanned d hd).2
  refine ⟨entry, hentry, hfile, ?_⟩
  intro e he
  rw [h.mem_entry_iff named hroot hentry, hfile]
  exact hplanned e he

theorem narrows_of_isOf (named : w.files.IsNamed) (hroot : w.files.get? styles = some .directory)
    (hstricter : stricter.meets request.threshold = true) :
  a.Narrows a'
  := by
  have hnames : ∀ name, name ∈ a'.tally.names ↔ name ∈ a.tally.names := by
    intro name
    rw [h.mem_names_iff hroot, h'.mem_names_iff hroot]
  have hcandidates := candidates_subset_of_isOf h h' hroot hstricter
  constructor
  case names => exact hnames
  case excluded =>
    intro name
    rw [h.mem_excluded_iff hroot, h'.mem_excluded_iff hroot, hnames]
  case candidates => exact hcandidates
  case used =>
    intro name hname
    obtain ⟨hcandidate, hused⟩ := h'.mem_used_iff.mp hname
    exact h.mem_used_iff.mpr ⟨hcandidates hcandidate, hused⟩
  case unused => exact unused_subset_of_isOf h h' hroot hstricter
  case plan => exact fun entry' hentry' => exists_entry_of_isOf h h' named hroot hstricter hentry'
  case sorted =>
    intro name hname hname'
    rw [h.mem_used_iff, h'.mem_used_iff, h.mem_unused_iff, h'.mem_unused_iff]
    tauto

end

variable {σ : Type} {stops : σ → Bool} {report : Progress → Overseer σ Unit} {s s' : σ}

/-- An analysis answers at a stricter threshold whenever it does at a weaker one, and then finds nothing
else. -/
theorem narrows_run (tree : w.files.IsTree) (named : w.files.IsNamed)
    (hstricter : stricter.meets request.threshold = true) :
  let request' := { request with threshold := stricter };
  ((∃ a w', run stops report request (w, s) = .ok a (w', s'))
      ↔ ∃ a' w', run stops report request' (w, s) = .ok a' (w', s'))
    ∧ ∀ a a' ws ws', run stops report request (w, s) = .ok a ws →
      run stops report request' (w, s) = .ok a' ws' → a.Narrows a'
  := by
  constructor
  · rw [exists_run_iff tree named, exists_run_iff tree named]
  · intro a a' ws ws' h h'
    obtain ⟨hroot, -, hof⟩ := of_run tree named h
    obtain ⟨-, -, hof'⟩ := of_run tree named h'
    exact narrows_of_isOf hof hof' named hroot hstricter

/-- At the highest threshold no name is found in the project that is not found at the lowest one. -/
theorem narrows_run_project :
  Confidence.high.meets Confidence.low = true ∧ project.files.IsTree ∧ project.files.IsNamed
    ∧ ∃ a a', answer? (projectRequest .low) project = some a
      ∧ answer? (projectRequest .high) project = some a' ∧ a.Narrows a'
  := by
  obtain ⟨a, ha⟩ := exists_answer?_project .low
  obtain ⟨a', ha'⟩ := exists_answer?_project .high
  obtain ⟨ws, hrun⟩ := answer?_eq_some_iff.mp ha
  obtain ⟨ws', hrun'⟩ := answer?_eq_some_iff.mp ha'
  have hnarrows := (@narrows_run _ _ .high Unit _ _ () () isTree_project isNamed_project rfl).2
    a a' ws ws' hrun hrun'
  exact ⟨by decide, isTree_project, isNamed_project, a, a', ha, ha', hnarrows⟩

end StylePrune.Analysis
