import StylePrune.Proofs.Analysis.Answering
import StylePrune.Proofs.Analysis.Grouping

/-!
# The division of names and definitions

An analysis divides the names that stylesheets define into those that a pattern excludes, those whose
definitions stay below the threshold, and the candidates; the candidates into used and unused ones; and
the definitions of unused names into the entries of a plan, stylesheet by stylesheet
(`Analysis.divides_run`).
-/

namespace StylePrune

theorem Text.Glob.isMatch_nil (t : Text) :
  isMatch [] t = t.isEmpty
  := rfl

/-- An empty pattern stands for no name. -/
theorem Exclusion.excludes_effective (patterns : List Text) {name : Text} (h : name ≠ []) :
  excludes (effective patterns) name = excludes patterns name
  := by
  rw [excludes, effective, List.any_filter, excludes]
  congr 1
  funext pattern
  by_cases hpattern : pattern = []
  · simp [hpattern, Text.Glob.isMatch_nil, h]
  · simp [hpattern]

namespace World

variable {w : World} {root : Place} {d : ClassDefinition}

theorem Defines.isValid (h : w.Defines root d) :
  ClassName.isValid d.name = true
  := by
  obtain ⟨names, t, -, hd⟩ := h
  exact (Stylesheet.of_mem_definitionsOf hd).2

theorem Defines.exists_source (h : w.Defines root d) :
  ∃ names t, w.HasSource root Files.stylesheetSuffixes names t
    ∧ d.file = (Path.fromRoot (root ++ names)).toString
    ∧ d ∈ Stylesheet.definitionsOf t (Path.fromRoot (root ++ names)).toString ⟨.relative, names⟩
  := by
  obtain ⟨names, t, hsource, hd⟩ := h
  exact ⟨names, t, hsource, (Stylesheet.of_mem_definitionsOf hd).1, hd⟩

/-- What a stylesheet below a root defines under its path is what its text defines. -/
theorem mem_definitionsOf_iff (named : w.files.IsNamed) {names : Place} {t : Text}
    (hsource : w.HasSource root Files.stylesheetSuffixes names t) :
  d ∈ Stylesheet.definitionsOf t (Path.fromRoot (root ++ names)).toString ⟨.relative, names⟩
    ↔ w.Defines root d ∧ d.file = (Path.fromRoot (root ++ names)).toString
  := by
  constructor
  · intro hd
    exact ⟨⟨names, t, hsource, hd⟩, (Stylesheet.of_mem_definitionsOf hd).1⟩
  · rintro ⟨hd, hfile⟩
    obtain ⟨names', t', hsource', hfile', hd⟩ := hd.exists_source
    have hplace := Files.eq_of_toString_eq (hsource'.finds.isProper named)
      (hsource.finds.isProper named) (hfile'.symm.trans hfile)
    obtain rfl := List.append_cancel_left hplace
    obtain rfl := Option.some.inj (hsource'.content.symm.trans hsource.content)
    exact hd

end World

namespace Analysis

namespace IsOf

variable {w : World} {request : AnalysisRequest} {styles components : Place} {a : Analysis}
    {d : ClassDefinition} {name : Text}

/-! ### Names -/

theorem mem_names_iff (h : IsOf w request styles components a)
    (hroot : w.files.get? styles = some .directory) :
  name ∈ a.tally.names ↔ ∃ d, w.Defines styles d ∧ d.name = name
  := by
  rw [h.tally, (Tally.enters_gather _ _ {} (w.sheetsBelow styles)).names]
  simp only [← World.defines_iff hroot]
  exact or_iff_right List.not_mem_nil

theorem mem_excluded_iff (h : IsOf w request styles components a)
    (hroot : w.files.get? styles = some .directory) :
  name ∈ a.tally.excluded
    ↔ name ∈ a.tally.names ∧ Exclusion.excludes request.patterns name = true
  := by
  rw [h.mem_names_iff hroot, h.tally, (Tally.enters_gather _ _ {} (w.sheetsBelow styles)).excluded]
  simp only [← World.defines_iff hroot]
  rw [or_iff_right List.not_mem_nil, and_comm, and_congr_right_iff]
  rintro ⟨d, hd, rfl⟩
  rw [Exclusion.excludes_effective _ (ClassName.ne_nil_of_isValid hd.isValid)]

theorem mem_candidates_iff (h : IsOf w request styles components a)
    (hroot : w.files.get? styles = some .directory) :
  name ∈ a.tally.candidates
    ↔ (∃ d, w.Defines styles d ∧ d.name = name ∧ d.confidence.meets request.threshold = true)
      ∧ Exclusion.excludes request.patterns name = false
  := by
  rw [h.tally, (Tally.enters_gather _ _ {} (w.sheetsBelow styles)).candidates]
  simp only [← World.defines_iff hroot]
  rw [or_iff_right List.not_mem_nil, and_comm, and_congr_right_iff]
  rintro ⟨d, hd, rfl, -⟩
  rw [Exclusion.excludes_effective _ (ClassName.ne_nil_of_isValid hd.isValid)]

/-! ### Use -/

theorem mem_used_iff (h : IsOf w request styles components a) :
  name ∈ a.reconciliation.used ↔ name ∈ a.tally.candidates ∧ w.Uses components name
  := by
  rw [h.reconciliation, Reconciliation.of, List.mem_filter, List.contains_iff_mem, h.seen]
  exact and_congr_right fun hname => and_iff_right hname

theorem mem_unused_iff (h : IsOf w request styles components a) :
  name ∈ a.reconciliation.unused ↔ name ∈ a.tally.candidates ∧ ¬ w.Uses components name
  := by
  rw [h.reconciliation, Reconciliation.of, List.mem_filter, Bool.not_eq_true',
    ← Bool.not_eq_true, List.contains_iff_mem, h.seen]
  exact and_congr_right fun hname => not_congr (and_iff_right hname)

/-! ### Definitions -/

theorem definitions_tally (h : IsOf w request styles components a) (named : w.files.IsNamed)
    (hroot : w.files.get? styles = some .directory) :
  a.tally.definitions
    = (w.sheetsBelow styles).flatMap fun sheet =>
      Tally.kept (Exclusion.effective request.patterns) sheet.2
  := by
  rw [h.tally, Tally.definitions_gather]
  · rfl
  · exact World.nodup_files_sheetsBelow named hroot

/-- The unused definitions are those of the unused names. -/
theorem mem_unusedDefinitions_iff (h : IsOf w request styles components a)
    (named : w.files.IsNamed) (hroot : w.files.get? styles = some .directory) :
  d ∈ a.reconciliation.unusedDefinitions
    ↔ w.Defines styles d ∧ d.name ∈ a.reconciliation.unused
  := by
  have hunused : d ∈ a.reconciliation.unusedDefinitions
      ↔ d ∈ a.tally.definitions ∧ d.name ∈ a.reconciliation.unused := by
    rw [h.reconciliation, Reconciliation.of, List.mem_filter, List.contains_iff_mem]
  rw [hunused, and_congr_left_iff]
  intro hname
  have hcandidate := ((h.mem_candidates_iff hroot).mp (h.mem_unused_iff.mp hname).1).2
  rw [h.definitions_tally named hroot, List.mem_flatMap, World.defines_iff hroot]
  apply exists_congr
  intro sheet
  rw [and_congr_right_iff]
  intro hsheet
  rw [Tally.kept, List.mem_filter, Bool.not_eq_true']
  apply and_iff_left_of_imp
  intro hd
  have hdefines : w.Defines styles d := (World.defines_iff hroot).mpr ⟨sheet, hsheet, hd⟩
  rw [Exclusion.excludes_effective _ (ClassName.ne_nil_of_isValid hdefines.isValid)]
  exact hcandidate

/-- No stylesheet has two unused definitions of one name. -/
theorem nodup_unusedDefinitions (h : IsOf w request styles components a)
    (named : w.files.IsNamed) (hroot : w.files.get? styles = some .directory) :
  (a.reconciliation.unusedDefinitions.map fun d => (d.file, d.name)).Nodup
  := by
  have hsublist : a.reconciliation.unusedDefinitions.Sublist a.tally.definitions := by
    rw [h.reconciliation, Reconciliation.of]
    exact List.filter_sublist
  refine List.Nodup.sublist (hsublist.map _) ?_
  rw [h.definitions_tally named hroot, List.Nodup, List.pairwise_map, List.pairwise_flatMap]
  constructor
  · intro sheet hsheet
    have hnames := List.pairwise_map.mp (World.of_mem_sheetsBelow hroot hsheet).1
    refine (hnames.sublist List.filter_sublist).imp ?_
    intro d e hne heq
    exact hne (Prod.mk.inj heq).2
  · have hfiles := List.pairwise_map.mp (World.nodup_files_sheetsBelow named hroot)
    apply hfiles.imp_of_mem
    intro sheet sheet' hsheet hsheet' hne d hd e he heq
    apply hne
    rw [← (World.of_mem_sheetsBelow hroot hsheet).2 d (List.mem_of_mem_filter hd),
      ← (World.of_mem_sheetsBelow hroot hsheet').2 e (List.mem_of_mem_filter he)]
    exact (Prod.mk.inj heq).1

/-- The planned definitions are those of the unused names that meet the threshold. -/
theorem mem_plan_iff (h : IsOf w request styles components a) (named : w.files.IsNamed)
    (hroot : w.files.get? styles = some .directory) :
  (∃ entry ∈ a.plan, d ∈ entry.2)
    ↔ w.Defines styles d ∧ d.confidence.meets request.threshold = true
      ∧ d.name ∈ a.reconciliation.unused
  := by
  rw [← List.mem_flatMap, a.perm_flatMap_plan.mem_iff, List.mem_filter, h.threshold,
    h.mem_unusedDefinitions_iff named hroot, and_assoc, and_congr_right_iff]
  intro _
  exact and_comm

/-- The planned names are the unused ones. -/
theorem exists_mem_plan_iff (h : IsOf w request styles components a) (named : w.files.IsNamed)
    (hroot : w.files.get? styles = some .directory) :
  (∃ entry ∈ a.plan, ∃ d ∈ entry.2, d.name = name) ↔ name ∈ a.reconciliation.unused
  := by
  constructor
  · rintro ⟨entry, hentry, d, hd, rfl⟩
    exact ((h.mem_plan_iff named hroot).mp ⟨entry, hentry, hd⟩).2.2
  · intro hname
    obtain ⟨⟨d, hd, rfl, hmeets⟩, -⟩ :=
      (h.mem_candidates_iff hroot).mp (h.mem_unused_iff.mp hname).1
    obtain ⟨entry, hentry, hplanned⟩ := (h.mem_plan_iff named hroot).mpr ⟨hd, hmeets, hname⟩
    exact ⟨entry, hentry, d, hplanned, rfl⟩

/-- What an entry of the plan holds. -/
theorem mem_entry_iff (h : IsOf w request styles components a) (named : w.files.IsNamed)
    (hroot : w.files.get? styles = some .directory) {entry : String × List ClassDefinition}
    (hentry : entry ∈ a.plan) :
  d ∈ entry.2 ↔ (w.Defines styles d ∧ d.confidence.meets request.threshold = true
    ∧ d.name ∈ a.reconciliation.unused) ∧ d.file = entry.1
  := by
  rw [(of_mem_plan hentry).2, h.mem_unusedDefinitions_iff named hroot, h.threshold]
  apply and_congr_left
  intro _
  rw [and_right_comm, and_assoc]

/-- The file of an entry is a stylesheet below the root of the styles, and the entry holds what of its
definitions is planned. -/
theorem exists_source_of_mem_plan (h : IsOf w request styles components a)
    (named : w.files.IsNamed) (hroot : w.files.get? styles = some .directory)
    {entry : String × List ClassDefinition} (hentry : entry ∈ a.plan) :
  ∃ names t, w.HasSource styles Files.stylesheetSuffixes names t
    ∧ entry.1 = (Path.fromRoot (styles ++ names)).toString
    ∧ ∀ d, d ∈ entry.2 ↔ d ∈ Stylesheet.definitionsOf t entry.1 ⟨.relative, names⟩
      ∧ d.confidence.meets request.threshold = true ∧ d.name ∈ a.reconciliation.unused
  := by
  obtain ⟨d, hd⟩ := List.exists_mem_of_ne_nil _ (of_mem_plan hentry).1
  obtain ⟨⟨hdefines, -⟩, hfile⟩ := (h.mem_entry_iff named hroot hentry).mp hd
  obtain ⟨names, t, hsource, hpath, -⟩ := hdefines.exists_source
  rw [hfile] at hpath
  refine ⟨names, t, hsource, hpath, ?_⟩
  intro e
  rw [h.mem_entry_iff named hroot hentry, hpath, World.mem_definitionsOf_iff named hsource,
    and_right_comm]

end IsOf

/-! ### A whole run -/

/-- How an analysis of the sources below two roots divides names and definitions. -/
structure Divides (w : World) (request : AnalysisRequest) (styles components : Place) (a : Analysis) :
    Prop where
  names : ∀ name, name ∈ a.tally.names ↔ ∃ d, w.Defines styles d ∧ d.name = name
  excluded : ∀ name, name ∈ a.tally.excluded
    ↔ name ∈ a.tally.names ∧ Exclusion.excludes request.patterns name = true
  candidates : ∀ name, name ∈ a.tally.candidates
    ↔ (∃ d, w.Defines styles d ∧ d.name = name ∧ d.confidence.meets request.threshold = true)
      ∧ Exclusion.excludes request.patterns name = false
  disjoint : a.reconciliation.used.Disjoint a.reconciliation.unused
  union : ∀ name, name ∈ a.tally.candidates
    ↔ name ∈ a.reconciliation.used ∨ name ∈ a.reconciliation.unused
  used : ∀ name ∈ a.tally.candidates, name ∈ a.reconciliation.used ↔ w.Uses components name
  planned : ∀ name, (∃ entry ∈ a.plan, ∃ d ∈ entry.2, d.name = name)
    ↔ name ∈ a.reconciliation.unused
  entries : ∀ entry ∈ a.plan, entry.2 ≠ [] ∧ (entry.2.Pairwise fun d e => d.name < e.name)
    ∧ ∃ names t, w.HasSource styles Files.stylesheetSuffixes names t
      ∧ entry.1 = (Path.fromRoot (styles ++ names)).toString
      ∧ ∀ d, d ∈ entry.2 ↔ d ∈ Stylesheet.definitionsOf t entry.1 ⟨.relative, names⟩
        ∧ d.confidence.meets request.threshold = true ∧ d.name ∈ a.reconciliation.unused
  complete : ∀ d, w.Defines styles d → d.confidence.meets request.threshold = true →
    d.name ∈ a.reconciliation.unused → ∃ entry ∈ a.plan, d ∈ entry.2
  files : (a.plan.map Prod.fst).Nodup
  breakdown : (a.breakdown.map Prod.snd).sum = (a.plan.flatMap Prod.snd).length

variable {σ : Type} {stops : σ → Bool} {report : Progress → Overseer σ Unit}
    {request : AnalysisRequest} {a : Analysis} {w : World} {s : σ}

/-- An analysis that answers divides the names and definitions below its roots. -/
theorem divides_run (tree : w.files.IsTree) (named : w.files.IsNamed) {ws : World × σ}
    (h : run stops report request (w, s) = .ok a ws) :
  a.Divides w request (w.files.placeOf request.styles) (w.files.placeOf request.components)
  := by
  obtain ⟨hroot, -, hof⟩ := of_run tree named h
  constructor
  case names => exact fun name => hof.mem_names_iff hroot
  case excluded => exact fun name => hof.mem_excluded_iff hroot
  case candidates => exact fun name => hof.mem_candidates_iff hroot
  case disjoint =>
    intro name hused hunused
    exact (hof.mem_unused_iff.mp hunused).2 (hof.mem_used_iff.mp hused).2
  case union =>
    intro name
    rw [hof.mem_used_iff, hof.mem_unused_iff, ← and_or_left]
    exact (and_iff_left (Classical.em _)).symm
  case used =>
    intro name hname
    rw [hof.mem_used_iff]
    exact and_iff_right hname
  case planned => exact fun name => hof.exists_mem_plan_iff named hroot
  case entries =>
    intro entry hentry
    exact ⟨(of_mem_plan hentry).1,
      pairwise_lt_of_mem_plan (hof.nodup_unusedDefinitions named hroot) hentry,
      hof.exists_source_of_mem_plan named hroot hentry⟩
  case complete =>
    intro d hd hmeets hname
    exact (hof.mem_plan_iff named hroot).mpr ⟨hd, hmeets, hname⟩
  case files => exact nodup_files_groupByFile _
  case breakdown => exact a.sum_breakdown

/-- The first of two stylesheets. -/
def firstSheet : Text :=
  ".used \x7b &__part \x7b \x7d \x7d\n.is-gone \x7b \x7d\n.gone \x7b \x7d\n".toList

/-- A component source. -/
def component : Text := "className=\"used__part\"".toList

/-- Two stylesheets and a component source in two directories, which lie in some others. -/
def projectAt (around : List Place) (styles components : Place) : World :=
  let entries : List (Place × Entry) := around.map (·, .directory) ++
    [(styles, .directory), (components, .directory),
      (styles ++ ["a.scss"], .file (Text.Utf8.encode firstSheet)),
      (styles ++ ["b.css"], .file (Text.Utf8.encode
        ".gone \x7b \x7d\n.x1 \x7b \x7d\n.old-name \x7b \x7d\n".toList)),
      (components ++ ["x.js"], .file (Text.Utf8.encode component))]
  { files := entries.foldl (fun fs (place, e) => fs.put place e) {}
    now := { year := 2024, month := 1, day := 1 }
    tokens := fun i => String.ofList (Text.hex 6 i) }

/-- The project right below the root. -/
def project : World := projectAt [] ["s"] ["c"]

/-- The request to analyse the project, but for one family of names. -/
def projectRequest (threshold : Confidence) : AnalysisRequest :=
  { styles := Path.ofString "s", components := Path.ofString "c", patterns := ["is-*".toList], threshold }

theorem isTree_project :
  project.files.IsTree
  := by
  apply Files.isTree_of_entries
  all_goals decide +kernel

theorem isNamed_project :
  project.files.IsNamed
  := by
  apply Files.isNamed_of_entries
  decide +kernel

theorem hasSource_project :
  project.HasSource ["s"] Files.stylesheetSuffixes ["a.scss"] firstSheet
  := by
  refine ⟨⟨?_, ?_⟩, ?_⟩
  all_goals decide +kernel

/-- Nothing keeps an analysis of the project from answering. -/
theorem exists_answer?_project (threshold : Confidence) :
  ∃ a, answer? (projectRequest threshold) project = some a
  := by
  have hstyles : project.files.get? ["s"] = some .directory := by decide +kernel
  have hcomponents : project.files.get? ["c"] = some .directory := by decide +kernel
  exact exists_answer?_of_entries isTree_project isNamed_project (by decide +kernel) rfl rfl hstyles
    hcomponents hasSource_project.finds

/-- A name that is defined in two stylesheets and used in no component source is unused. -/
theorem divides_run_project :
  project.files.IsTree ∧ project.files.IsNamed
    ∧ ∃ a, answer? (projectRequest .medium) project = some a
      ∧ a.Divides project (projectRequest .medium) ["s"] ["c"]
      ∧ "gone".toList ∈ a.reconciliation.unused
  := by
  obtain ⟨a, ha⟩ := exists_answer?_project .medium
  obtain ⟨ws, hrun⟩ := answer?_eq_some_iff.mp ha
  have hdivides : a.Divides project (projectRequest .medium) ["s"] ["c"] :=
    divides_run isTree_project isNamed_project hrun
  refine ⟨isTree_project, isNamed_project, a, ha, hdivides, ?_⟩
  have hcandidate : "gone".toList ∈ a.tally.candidates := by
    refine (hdivides.candidates _).mpr ⟨⟨⟨"gone".toList, .high, .direct, "/s/a.scss"⟩, ?_, rfl, rfl⟩, ?_⟩
    · exact ⟨["a.scss"], firstSheet, hasSource_project, by decide +kernel⟩
    · decide +kernel
  have hnowhere : ∀ x ∈ project.files.entries,
      ((Job.content? (Path.fromRoot x.1) project).any fun t => Usage.isUsed "gone".toList t) = false := by
    decide +kernel
  apply ((hdivides.union _).mp hcandidate).resolve_left
  rw [hdivides.used _ hcandidate]
  rintro ⟨names, t, hsource, hused⟩
  obtain ⟨bytes, hbytes⟩ := Option.ne_none_iff_exists'.mp hsource.finds.there
  have hmem := Files.mem_entries_of_get? (List.cons_ne_nil "c" names)
    (Files.bytesAt?_eq_some_iff.mp hbytes)
  have hnone := hnowhere _ hmem
  rw [show Path.fromRoot ("c" :: names) = Path.fromRoot (["c"] ++ names) from rfl, hsource.content,
    Option.any_some, hused] at hnone
  cases hnone

end Analysis

end StylePrune
