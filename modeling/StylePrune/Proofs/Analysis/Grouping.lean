import Mathlib.Algebra.GroupWithZero.Nat
import Mathlib.Data.List.Perm.Basic
import Mathlib.Data.List.Nodup
import StylePrune.Analysis.Run

/-!
# Tiers and stylesheets

The unused definitions are cut by tier, put together again in order, and cut by stylesheet.  Neither
loses a definition or takes one twice: the pieces of a list by a key make up the list
(`perm_flatMap_filter`), so that the definitions of a plan are those that meet the threshold
(`Analysis.perm_flatMap_plan`), as many as the tiers count (`Analysis.sum_breakdown`).
-/

namespace StylePrune

/-! ### Lists by a key -/

section Pieces

variable {α κ : Type} [BEq κ] [LawfulBEq κ]

theorem nodup_eraseDups (l : List κ) :
  l.eraseDups.Nodup
  := by
  match l with
  | [] => exact List.nodup_nil
  | a :: l =>
    rw [List.eraseDups_cons, List.nodup_cons]
    refine ⟨?_, nodup_eraseDups _⟩
    simp
  termination_by l.length
  decreasing_by
    rw [List.length_cons]
    exact Nat.lt_succ_of_le (List.length_filter_le _ _)

/-- The pieces of a list by a key are all that has one of the keys. -/
theorem perm_flatMap_filter (key : α → κ) {keys : List κ} (hnodup : keys.Nodup) (l : List α) :
  (keys.flatMap fun k => l.filter (key · == k)).Perm (l.filter fun a => keys.contains (key a))
  := by
  induction keys with
  | nil => simp
  | cons k keys ih =>
      obtain ⟨hk, hkeys⟩ := List.nodup_cons.mp hnodup
      have hfirst : (l.filter fun a => (k :: keys).contains (key a)).filter (key · == k)
          = l.filter (key · == k) := by
        rw [List.filter_filter]
        apply List.filter_congr
        intro a _
        by_cases ha : key a = k
        · simp [ha]
        · simp [ha]
      have hrest : (l.filter fun a => (k :: keys).contains (key a)).filter (fun a => !(key a == k))
          = l.filter fun a => keys.contains (key a) := by
        rw [List.filter_filter]
        apply List.filter_congr
        intro a _
        by_cases ha : key a = k
        · simp [ha, hk]
        · simp [ha]
      have hsplit := List.filter_append_perm (key · == k)
        (l.filter fun a => (k :: keys).contains (key a))
      rw [hfirst, hrest] at hsplit
      exact ((ih hkeys).append_left _).trans hsplit

end Pieces

/-! ### The order of definitions -/

namespace ClassDefinition

variable {d e f : ClassDefinition} {l : List ClassDefinition}

theorem notAfter_iff :
  d.notAfter e = true ↔ d.file < e.file ∨ d.file = e.file ∧ ¬ e.name < d.name
  := by
  simp [notAfter, Text.notAfter]

theorem notAfter_total (d e : ClassDefinition) :
  (d.notAfter e || e.notAfter d) = true
  := by
  rw [Bool.or_eq_true, notAfter_iff, notAfter_iff]
  by_cases hfile : d.file = e.file
  · rcases List.le_total d.name e.name with h | h
    · exact .inl (.inr ⟨hfile, List.not_lt.mpr h⟩)
    · exact .inr (.inr ⟨hfile.symm, List.not_lt.mpr h⟩)
  · by_cases hlt : d.file < e.file
    · exact .inl (.inl hlt)
    · refine .inr (.inl (Decidable.byContradiction fun hnot => hfile ?_))
      exact String.le_antisymm (String.not_lt.mp hnot) (String.not_lt.mp hlt)

theorem notAfter_trans (hde : d.notAfter e = true) (hef : e.notAfter f = true) :
  d.notAfter f = true
  := by
  rw [notAfter_iff] at *
  rcases hde with hde | ⟨hfile, hde⟩
  · rcases hef with hef | ⟨hfile', -⟩
    · exact .inl (String.lt_trans hde hef)
    · exact .inl (hfile' ▸ hde)
  · rcases hef with hef | ⟨hfile', hef⟩
    · exact .inl (hfile ▸ hef)
    · have hle := List.le_trans (List.not_lt.mp hde) (List.not_lt.mp hef)
      exact .inr ⟨hfile.trans hfile', List.not_lt.mpr hle⟩

/-- Definitions in order are strictly ascending by name, if they are of one file and none of them is
there twice. -/
theorem pairwise_lt_of_notAfter (hsorted : l.Pairwise fun d e => d.notAfter e = true)
    (hnodup : (l.map fun d => (d.file, d.name)).Nodup)
    (hfile : ∀ d ∈ l, ∀ e ∈ l, d.file = e.file) :
  l.Pairwise fun d e => d.name < e.name
  := by
  rw [List.Nodup, List.pairwise_map] at hnodup
  apply (hsorted.and hnodup).imp_of_mem
  rintro d e hd he ⟨hnotAfter, hne⟩
  rcases notAfter_iff.mp hnotAfter with hlt | ⟨-, hle⟩
  · rw [hfile d hd e he] at hlt
    exact absurd hlt (String.lt_irrefl e.file)
  · apply Decidable.byContradiction
    intro hnot
    exact hne (Prod.ext (hfile d hd e he) (List.le_antisymm (List.not_lt.mp hle) (List.not_lt.mp hnot)))

end ClassDefinition

/-! ### Tiers -/

namespace Confidence

theorem nodup_filter_all (threshold : Confidence) :
  (all.filter (·.meets threshold)).Nodup
  := List.Nodup.filter _ (by decide)

theorem contains_filter_all (threshold tier : Confidence) :
  (all.filter (·.meets threshold)).contains tier = tier.meets threshold
  := by
  cases threshold <;> cases tier <;> rfl

end Confidence

namespace Reconciliation

/-- The unused definitions that meet a threshold are those of the tiers that do. -/
theorem perm_meeting (r : Reconciliation) (threshold : Confidence) :
  (r.meeting threshold).Perm (r.unusedDefinitions.filter (·.confidence.meets threshold))
  := by
  have hsort : (r.meeting threshold).Perm
      ((Confidence.all.filter (·.meets threshold)).flatMap r.ofTier) := by
    rw [meeting]
    exact List.mergeSort_perm _ _
  have htiers : ((Confidence.all.filter (·.meets threshold)).flatMap r.ofTier).Perm
      ((Confidence.all.filter (·.meets threshold)).flatMap fun tier =>
        r.unusedDefinitions.filter (·.confidence == tier)) := by
    apply List.Perm.flatMap_left
    intro tier _
    exact List.mergeSort_perm _ _
  have hpieces := perm_flatMap_filter ClassDefinition.confidence
    (Confidence.nodup_filter_all threshold) r.unusedDefinitions
  simp only [Confidence.contains_filter_all] at hpieces
  exact (hsort.trans htiers).trans hpieces

theorem sorted_meeting (r : Reconciliation) (threshold : Confidence) :
  (r.meeting threshold).Pairwise fun d e => d.notAfter e = true
  := by
  rw [meeting]
  apply List.pairwise_mergeSort
  · intro d e f
    exact ClassDefinition.notAfter_trans
  · exact ClassDefinition.notAfter_total

end Reconciliation

/-! ### Stylesheets -/

namespace Analysis

variable {definitions : List ClassDefinition} {d : ClassDefinition}
    {entry : String × List ClassDefinition}

theorem nodup_files_groupByFile (definitions : List ClassDefinition) :
  ((groupByFile definitions).map Prod.fst).Nodup
  := by
  rw [groupByFile, List.map_map]
  exact (List.map_id _).symm ▸ nodup_eraseDups _

/-- An entry holds the definitions of its file, of which there are some. -/
theorem mem_groupByFile_iff :
  entry ∈ groupByFile definitions
    ↔ entry.2 = definitions.filter (·.file == entry.1) ∧ entry.2 ≠ []
  := by
  rw [groupByFile, List.mem_map]
  constructor
  · rintro ⟨file, hfile, rfl⟩
    obtain ⟨d, hd, rfl⟩ := List.mem_map.mp (List.mem_eraseDups.mp hfile)
    exact ⟨rfl, List.ne_nil_of_mem (List.mem_filter.mpr ⟨hd, beq_self_eq_true d.file⟩)⟩
  · rintro ⟨hentry, hne⟩
    obtain ⟨d, hd⟩ := List.exists_mem_of_ne_nil _ hne
    rw [hentry, List.mem_filter, beq_iff_eq] at hd
    refine ⟨entry.1, List.mem_eraseDups.mpr (List.mem_map.mpr ⟨d, hd.1, hd.2⟩), ?_⟩
    rw [← hentry]

/-- The definitions under their files are all definitions. -/
theorem perm_flatMap_groupByFile (definitions : List ClassDefinition) :
  ((groupByFile definitions).flatMap Prod.snd).Perm definitions
  := by
  have hpieces := perm_flatMap_filter ClassDefinition.file
    (nodup_eraseDups (definitions.map ClassDefinition.file)) definitions
  rw [List.filter_eq_self.mpr] at hpieces
  · rw [groupByFile, List.flatMap_map]
    exact hpieces
  · intro d hd
    rw [List.contains_iff_mem, List.mem_eraseDups]
    exact List.mem_map_of_mem hd

theorem perm_flatMap_plan (a : Analysis) :
  (a.plan.flatMap Prod.snd).Perm
    (a.reconciliation.unusedDefinitions.filter (·.confidence.meets a.threshold))
  := (perm_flatMap_groupByFile a.findings).trans (a.reconciliation.perm_meeting a.threshold)

/-- An entry of a plan holds the unused definitions of its file that meet the threshold, of which there
are some. -/
theorem of_mem_plan {a : Analysis} (h : entry ∈ a.plan) :
  entry.2 ≠ [] ∧ ∀ d, d ∈ entry.2 ↔ (d ∈ a.reconciliation.unusedDefinitions
    ∧ d.confidence.meets a.threshold = true) ∧ d.file = entry.1
  := by
  obtain ⟨hentry, hne⟩ := mem_groupByFile_iff.mp h
  refine ⟨hne, ?_⟩
  intro d
  rw [hentry, List.mem_filter, beq_iff_eq, findings,
    (a.reconciliation.perm_meeting a.threshold).mem_iff, List.mem_filter]

/-- An entry of a plan is strictly ascending by name, if no unused definition is there twice. -/
theorem pairwise_lt_of_mem_plan {a : Analysis}
    (hnodup : (a.reconciliation.unusedDefinitions.map fun d => (d.file, d.name)).Nodup)
    (h : entry ∈ a.plan) :
  entry.2.Pairwise fun d e => d.name < e.name
  := by
  have hsublist : entry.2.Sublist a.findings := by
    rw [(mem_groupByFile_iff.mp h).1]
    exact List.filter_sublist
  have hfindings : (a.findings.map fun d => (d.file, d.name)).Nodup :=
    ((a.reconciliation.perm_meeting a.threshold).map _).nodup_iff.mpr
      (hnodup.sublist (List.filter_sublist.map _))
  apply ClassDefinition.pairwise_lt_of_notAfter
  · exact (a.reconciliation.sorted_meeting a.threshold).sublist hsublist
  · exact hfindings.sublist (hsublist.map _)
  · intro d hd e he
    rw [(((of_mem_plan h).2 d).mp hd).2, (((of_mem_plan h).2 e).mp he).2]

/-- The tiers count each planned definition once. -/
theorem sum_breakdown (a : Analysis) :
  (a.breakdown.map Prod.snd).sum = (a.plan.flatMap Prod.snd).length
  := by
  calc (a.breakdown.map Prod.snd).sum
    _ = ((Confidence.all.filter (·.meets a.threshold)).flatMap a.reconciliation.ofTier).length := by
        rw [breakdown, List.map_map, List.length_flatMap]
        rfl
    _ = a.findings.length := (List.length_mergeSort _).symm
    _ = (a.plan.flatMap Prod.snd).length := (perm_flatMap_groupByFile a.findings).length_eq.symm

end Analysis

end StylePrune
