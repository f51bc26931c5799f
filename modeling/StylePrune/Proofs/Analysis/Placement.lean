import StylePrune.Proofs.Analysis.Partition

/-!
# Where the roots lie

An analysis depends on what lies below its roots and on nothing else: where the same lies below two
other directories, it answers the same there, but for the heading of the paths
(`Analysis.exchanges_run`).  The paths are in the same order under every heading, so that the plan is
as well.
-/

namespace StylePrune

/-! ### Headings -/

namespace Path

/-- How the paths below a directory begin. -/
def heading (root : Place) : Text := '/' :: root.flatMap fun name => name.toList ++ ['/']

/-- A path below a directory as it is below another one. -/
def exchanged (root root' : Place) (file : String) : String :=
  String.ofList (heading root' ++ file.toList.drop (heading root).length)

variable {root root' names names' : Place}

theorem joinWith_append (h : names ≠ []) :
  Text.joinWith '/' ((root ++ names).map String.toList)
    = (root.flatMap fun name => name.toList ++ ['/']) ++ Text.joinWith '/' (names.map String.toList)
  := by
  induction root with
  | nil => rfl
  | cons name root ih =>
      obtain ⟨next, rest, hrest⟩ := List.exists_cons_of_ne_nil (List.append_ne_nil_of_right_ne_nil root h)
      rw [hrest] at ih
      rw [List.cons_append, hrest, List.flatMap_cons, List.append_assoc, ← ih]
      simp [Text.joinWith]

/-- Paths below a directory begin with its heading. -/
theorem toList_toString_fromRoot_append (h : names ≠ []) :
  (fromRoot (root ++ names)).toString.toList
    = heading root ++ Text.joinWith '/' (names.map String.toList)
  := by
  rw [toList_toString_fromRoot, joinWith_append h, heading, List.cons_append]

theorem exchanged_fromRoot (h : names ≠ []) :
  exchanged root root' (fromRoot (root ++ names)).toString = (fromRoot (root' ++ names)).toString
  := by
  apply String.toList_injective
  rw [exchanged, String.toList_ofList, toList_toString_fromRoot_append h,
    toList_toString_fromRoot_append h, List.drop_left]

theorem append_lt_append_iff (front t u : Text) :
  front ++ t < front ++ u ↔ t < u
  := by
  induction front with
  | nil => exact Iff.rfl
  | cons c front ih => exact List.cons_lt_cons_self.trans ih

/-- Paths below a directory are in the same order as below every other one. -/
theorem fromRoot_lt_iff (h : names ≠ []) (h' : names' ≠ []) :
  (fromRoot (root ++ names)).toString < (fromRoot (root ++ names')).toString
    ↔ (fromRoot (root' ++ names)).toString < (fromRoot (root' ++ names')).toString
  := by
  simp only [String.lt_iff, toList_toString_fromRoot_append h, toList_toString_fromRoot_append h',
    append_lt_append_iff]

end Path

/-! ### Definitions under other paths -/

/-- A definition whose stylesheet has another path. -/
def ClassDefinition.moved (f : String → String) (d : ClassDefinition) : ClassDefinition :=
  { d with file := f d.file }

/-- A stylesheet with its definitions under another path. -/
def movedSheet (f : String → String) (sheet : String × List ClassDefinition) :
    String × List ClassDefinition :=
  (f sheet.1, sheet.2.map (ClassDefinition.moved f))

section Moved

variable {f : String → String} {patterns : List Text} {threshold : Confidence} {file : String}
    {definitions : List ClassDefinition}

namespace Tally

/-- A tally whose stylesheets have other paths. -/
def moved (f : String → String) (tally : Tally) : Tally :=
  { tally with byFile := tally.byFile.map (movedSheet f) }

theorem addNames_moved (tally : Tally) :
  addNames patterns threshold (tally.moved f) (definitions.map (ClassDefinition.moved f))
    = (addNames patterns threshold tally definitions).moved f
  := by
  induction definitions generalizing tally with
  | nil => rfl
  | cons d rest ih =>
      have hfirst : addNames patterns threshold (tally.moved f) [d.moved f]
          = (addNames patterns threshold tally [d]).moved f := by
        rw [addNames_singleton, addNames_singleton]
        rfl
      have hsplit : ∀ (tally : Tally) d rest, addNames patterns threshold tally (d :: rest)
          = addNames patterns threshold (addNames patterns threshold tally [d]) rest :=
        fun _ _ _ => rfl
      rw [List.map_cons, hsplit, hfirst, ih, ← hsplit]

theorem setFile_moved {byFile : List (String × List ClassDefinition)}
    (hf : ∀ sheet ∈ byFile, f sheet.1 = f file → sheet.1 = file) :
  setFile (byFile.map (movedSheet f)) (f file) (definitions.map (ClassDefinition.moved f))
    = (setFile byFile file definitions).map (movedSheet f)
  := by
  induction byFile with
  | nil => rfl
  | cons sheet rest ih =>
      obtain ⟨hsheet, hrest⟩ := List.forall_mem_cons.mp hf
      rw [List.map_cons, setFile, setFile.eq_def (_ :: _)]
      by_cases h : sheet.1 = file
      · simp [movedSheet, h]
      · have hne : f sheet.1 ≠ f file := mt hsheet h
        simp only [movedSheet, beq_iff_eq, h, hne, ↓reduceIte, List.map_cons]
        exact congrArg _ (ih hrest)

theorem kept_moved :
  kept patterns (definitions.map (ClassDefinition.moved f))
    = (kept patterns definitions).map (ClassDefinition.moved f)
  := List.filter_map

theorem addFile_moved {tally : Tally}
    (hf : ∀ sheet ∈ tally.byFile, f sheet.1 = f file → sheet.1 = file) :
  addFile patterns threshold (tally.moved f) (f file) (definitions.map (ClassDefinition.moved f))
    = (addFile patterns threshold tally file definitions).moved f
  := by
  have hset := @setFile_moved f file (kept patterns definitions) tally.byFile hf
  rw [addFile_eq, addFile_eq, kept_moved, addNames_moved]
  by_cases h : kept patterns definitions = []
  · rw [if_pos h, if_pos (List.map_eq_nil_iff.mpr h)]
  · rw [if_neg h, if_neg (mt List.map_eq_nil_iff.mp h)]
    simp only [moved, byFile_addNames, hset]

/-- Stylesheets that all have other paths are gathered under these. -/
theorem gather_moved {tally : Tally} {sheets : List (String × List ClassDefinition)}
    (hnodup : (tally.byFile.map Prod.fst ++ sheets.map Prod.fst).Nodup)
    (hf : ∀ file ∈ tally.byFile.map Prod.fst ++ sheets.map Prod.fst,
      ∀ file' ∈ tally.byFile.map Prod.fst ++ sheets.map Prod.fst, f file = f file' → file = file') :
  gather patterns threshold (tally.moved f) (sheets.map (movedSheet f))
    = (gather patterns threshold tally sheets).moved f
  := by
  induction sheets generalizing tally with
  | nil => rfl
  | cons sheet rest ih =>
      rw [List.map_cons, List.append_cons] at hnodup hf
      have hnew : sheet.1 ∉ tally.byFile.map Prod.fst := by
        intro hmem
        exact (List.nodup_append.mp hnodup.of_append_left).2.2 _ hmem _ List.mem_cons_self rfl
      have hsublist : ((addFile patterns threshold tally sheet.1 sheet.2).byFile.map Prod.fst
          ++ rest.map Prod.fst).Sublist (tally.byFile.map Prod.fst ++ [sheet.1] ++ rest.map Prod.fst) :=
        (sublist_files_addFile hnew).append_right _
      have hfirst := @addFile_moved f patterns threshold sheet.1 sheet.2 tally fun other hother h =>
        hf _ (by simp [List.mem_map_of_mem hother]) _ (by simp) h
      rw [List.map_cons, gather, List.foldl_cons, movedSheet, hfirst]
      exact ih (hnodup.sublist hsublist)
        fun file hfile file' hfile' => hf file (hsublist.mem hfile) file' (hsublist.mem hfile')

end Tally

/-! ### Plans under other paths -/

/-- Whether other paths are in the same order. -/
def KeepsOrder (f : String → String) (files : List String) : Prop :=
  ∀ file ∈ files, ∀ file' ∈ files, f file < f file' ↔ file < file'

namespace KeepsOrder

variable {files : List String}

theorem mono {files' : List String} (h : KeepsOrder f files) (hsubset : files' ⊆ files) :
  KeepsOrder f files'
  := fun file hfile file' hfile' => h file (hsubset hfile) file' (hsubset hfile')

theorem eq_iff (h : KeepsOrder f files) {file' : String} (hfile : file ∈ files)
    (hfile' : file' ∈ files) :
  f file = f file' ↔ file = file'
  := by
  constructor
  · intro heq
    apply String.le_antisymm
    · rw [← String.not_lt, ← h file' hfile' file hfile, heq]
      exact String.lt_irrefl _
    · rw [← String.not_lt, ← h file hfile file' hfile', heq]
      exact String.lt_irrefl _
  · exact congrArg f

/-- Definitions are sorted under other paths as they were. -/
theorem mergeSort_moved (h : KeepsOrder f (definitions.map ClassDefinition.file)) :
  (definitions.map (ClassDefinition.moved f)).mergeSort ClassDefinition.notAfter
    = (definitions.mergeSort ClassDefinition.notAfter).map (ClassDefinition.moved f)
  := by
  refine (List.map_mergeSort ?_).symm
  intro d hd e he
  have hfile := List.mem_map_of_mem (f := ClassDefinition.file) hd
  have hfile' := List.mem_map_of_mem (f := ClassDefinition.file) he
  rw [Bool.eq_iff_iff, ClassDefinition.notAfter_iff, ClassDefinition.notAfter_iff]
  exact (or_congr (h _ hfile _ hfile') (and_congr_left fun _ => h.eq_iff hfile hfile')).symm

end KeepsOrder

/-- A reconciliation whose definitions stand under other paths. -/
def Reconciliation.moved (f : String → String) (r : Reconciliation) : Reconciliation :=
  { r with unusedDefinitions := r.unusedDefinitions.map (ClassDefinition.moved f) }

theorem Reconciliation.meeting_moved {r : Reconciliation}
    (h : KeepsOrder f (r.unusedDefinitions.map ClassDefinition.file)) :
  (r.moved f).meeting threshold = (r.meeting threshold).map (ClassDefinition.moved f)
  := by
  have htier : ∀ tier, (r.moved f).ofTier tier = (r.ofTier tier).map (ClassDefinition.moved f) := by
    intro tier
    rw [ofTier, ofTier, moved, List.filter_map,
      ← (h.mono (List.map_subset _ (List.filter_subset_self _))).mergeSort_moved]
    rfl
  have htiers : (Confidence.all.filter (·.meets threshold)).flatMap r.ofTier
      ⊆ r.unusedDefinitions := by
    intro d hd
    obtain ⟨tier, -, hd⟩ := List.mem_flatMap.mp hd
    exact List.mem_of_mem_filter (List.mem_mergeSort.mp hd)
  rw [meeting, meeting, ← (h.mono (List.map_subset _ htiers)).mergeSort_moved, List.map_flatMap, ← funext htier]

theorem eraseDups_map {κ μ : Type} [BEq κ] [LawfulBEq κ] [BEq μ] [LawfulBEq μ] {g : κ → μ} (l : List κ)
    (hg : ∀ a ∈ l, ∀ b ∈ l, g a = g b → a = b) :
  (l.map g).eraseDups = l.eraseDups.map g
  := by
  match l with
  | [] => rfl
  | a :: l =>
    obtain ⟨ha, hrest⟩ := List.forall_mem_cons.mp hg
    have hfilter : (l.map g).filter (fun b => !(b == g a)) = (l.filter fun b => !(b == a)).map g := by
      rw [List.filter_map]
      congr 1
      apply List.filter_congr
      intro b hb
      have hiff : g b = g a ↔ b = a :=
        ⟨fun h => (ha b (List.mem_cons_of_mem a hb) h.symm).symm, congrArg g⟩
      simp [hiff]
    rw [List.map_cons, List.eraseDups_cons, List.eraseDups_cons, List.map_cons, hfilter]
    congr 1
    apply eraseDups_map
    intro b hb c hc
    exact hg b (List.mem_cons_of_mem a (List.mem_of_mem_filter hb)) c
      (List.mem_cons_of_mem a (List.mem_of_mem_filter hc))
  termination_by l.length
  decreasing_by
    rw [List.length_cons]
    exact Nat.lt_succ_of_le (List.length_filter_le _ _)

theorem Analysis.groupByFile_moved (h : KeepsOrder f (definitions.map ClassDefinition.file)) :
  groupByFile (definitions.map (ClassDefinition.moved f)) = (groupByFile definitions).map (movedSheet f)
  := by
  have hfiles : ((definitions.map (ClassDefinition.moved f)).map ClassDefinition.file).eraseDups
      = ((definitions.map ClassDefinition.file).eraseDups).map f := by
    rw [← eraseDups_map, List.map_map, List.map_map]
    · rfl
    · intro file hfile file' hfile'
      exact (h.eq_iff hfile hfile').mp
  rw [groupByFile, groupByFile, hfiles, List.map_map, List.map_map]
  apply List.map_congr_left
  intro file hfile
  rw [List.mem_eraseDups] at hfile
  simp only [Function.comp_apply, movedSheet, List.filter_map]
  congr 2
  apply List.filter_congr
  intro d hd
  rw [Bool.eq_iff_iff, beq_iff_eq, Function.comp_apply, beq_iff_eq]
  exact h.eq_iff (List.mem_map_of_mem hd) hfile

end Moved

/-! ### The same below other directories -/

/-- Whether the same lies below two directories. -/
def Files.SameBelow (fs fs' : Files) (root root' : Place) : Prop :=
  ∀ names, fs'.get? (root' ++ names) = fs.get? (root ++ names)

/-- What is listed below a directory tells what lies there. -/
theorem Files.sameBelow_of_below {fs fs' : Files} {root root' : Place}
    (hroot : fs.get? root = some .directory) (hroot' : fs'.get? root' = some .directory)
    (h : fs'.below root' = fs.below root) :
  fs.SameBelow fs' root root'
  := by
  intro names
  by_cases hnames : names = []
  · rw [hnames, List.append_nil, List.append_nil, hroot, hroot']
  · apply Option.ext
    intro e
    have hlisted := @mem_below_iff fs root names e
    rw [← h, mem_below_iff] at hlisted
    exact (and_congr_right_iff.mp hlisted) hnames

namespace World

variable {w w' : World} {p p' : Path} {suffixes : List String} {names : Place}

theorem HasSource.ne_nil {root : Place} (hroot : w.files.get? root = some .directory) {t : Text}
    (h : w.HasSource root suffixes names t) :
  names ≠ []
  := by
  rintro rfl
  apply h.finds.there
  rw [List.append_nil]
  exact Files.bytesAt?_of_directory hroot

section

variable (tree : w.files.IsTree) (named : w.files.IsNamed) (tree' : w'.files.IsTree)
    (named' : w'.files.IsNamed)
    (hsame : w.files.SameBelow w'.files (w.files.placeOf p) (w'.files.placeOf p'))
    (hreads : w.ReadsAt p suffixes) (hreads' : w'.ReadsAt p' suffixes)

include tree named hsame hreads

theorem discover_of_sameBelow :
  w'.files.discover (w'.files.placeOf p') suffixes = w.files.discover (w.files.placeOf p) suffixes
  := Files.discover_congr (get?_of_isDirectory tree named hreads.directory).1 hsame suffixes

include tree' named' hreads'

/-- A file has the same text below another directory. -/
theorem content?_of_sameBelow (hnames : names ∈ w.files.discover (w.files.placeOf p) suffixes) :
  Job.content? (Path.fromRoot (w'.files.placeOf p' ++ names)) w'
    = Job.content? (Path.fromRoot (w.files.placeOf p ++ names)) w
  := by
  have hnames' := hnames
  rw [← discover_of_sameBelow tree named hsame hreads] at hnames'
  have htext : Job.text? (Path.fromRoot (w'.files.placeOf p' ++ names)) w'
      = Job.text? (Path.fromRoot (w.files.placeOf p ++ names)) w := by
    apply Job.text?_congr
    intro bytes
    rw [hreads.holds_iff tree named hnames, hreads'.holds_iff tree' named' hnames',
      Files.bytesAt?_congr (hsame names)]
  rw [Job.content?, htext, Job.content?]

end

/-- What a stylesheet defines under another path. -/
theorem definitionsOf_moved (t : Text) (file : String) (place : Path) (f : String → String) :
  (Stylesheet.definitionsOf t file place).map (ClassDefinition.moved f)
    = Stylesheet.definitionsOf t (f file) place
  := by
  rw [Stylesheet.definitionsOf, Stylesheet.definitionsOf, List.map_map]
  rfl

section

variable (tree : w.files.IsTree) (named : w.files.IsNamed) (tree' : w'.files.IsTree)
    (named' : w'.files.IsNamed)

include tree named tree' named'

/-- The stylesheets are the same below another directory, but for the heading of their paths. -/
theorem sheetsBelow_of_sameBelow
    (hsame : w.files.SameBelow w'.files (w.files.placeOf p) (w'.files.placeOf p'))
    (hreads : w.ReadsAt p Files.stylesheetSuffixes) (hreads' : w'.ReadsAt p' Files.stylesheetSuffixes) :
  w'.sheetsBelow (w'.files.placeOf p')
    = (w.sheetsBelow (w.files.placeOf p)).map
      (movedSheet (Path.exchanged (w.files.placeOf p) (w'.files.placeOf p')))
  := by
  have hroot := (get?_of_isDirectory tree named hreads.directory).1
  rw [sheetsBelow, sheetsBelow, discover_of_sameBelow tree named hsame hreads, List.map_filterMap]
  apply List.filterMap_congr
  intro names hnames
  have hne : names ≠ [] := by
    rintro rfl
    apply ((Files.mem_discover_iff hroot).mp hnames).there
    rw [List.append_nil]
    exact Files.bytesAt?_of_directory hroot
  rw [sheetAt?, sheetAt?, content?_of_sameBelow tree named tree' named' hsame hreads hreads' hnames,
    Option.map_map]
  congr 1
  funext t
  rw [Function.comp_apply, movedSheet, definitionsOf_moved, Path.exchanged_fromRoot hne]

/-- A name is used below another directory if the same lies there. -/
theorem uses_iff_of_sameBelow
    (hsame : w.files.SameBelow w'.files (w.files.placeOf p) (w'.files.placeOf p'))
    (hreads : w.ReadsAt p Files.componentSuffixes) (hreads' : w'.ReadsAt p' Files.componentSuffixes)
    (name : Text) :
  w'.Uses (w'.files.placeOf p') name ↔ w.Uses (w.files.placeOf p) name
  := by
  rw [uses_iff (get?_of_isDirectory tree named hreads.directory).1,
    uses_iff (get?_of_isDirectory tree' named' hreads'.directory).1,
    discover_of_sameBelow tree named hsame hreads]
  apply exists_congr
  intro names
  rw [and_congr_right_iff]
  intro hnames
  rw [content?_of_sameBelow tree named tree' named' hsame hreads hreads' hnames]

end

/-- The paths of stylesheets below a directory are in the same order below every other one. -/
theorem keepsOrder_exchanged {root : Place} (hroot : w.files.get? root = some .directory)
    (root' : Place) :
  KeepsOrder (Path.exchanged root root') ((w.sheetsBelow root).map Prod.fst)
  := by
  have hsheet : ∀ file ∈ (w.sheetsBelow root).map Prod.fst,
      ∃ names, names ≠ [] ∧ file = (Path.fromRoot (root ++ names)).toString := by
    intro file hfile
    obtain ⟨sheet, hsheet, rfl⟩ := List.mem_map.mp hfile
    obtain ⟨names, t, hsource, rfl⟩ := (mem_sheetsBelow_iff hroot).mp hsheet
    exact ⟨names, hsource.ne_nil hroot, rfl⟩
  intro file hfile file' hfile'
  obtain ⟨names, hne, rfl⟩ := hsheet file hfile
  obtain ⟨names', hne', rfl⟩ := hsheet file' hfile'
  rw [Path.exchanged_fromRoot hne, Path.exchanged_fromRoot hne']
  exact Path.fromRoot_lt_iff hne hne'

end World

/-! ### Two runs -/

namespace Analysis

/-- Whether an analysis is another one with the paths of its stylesheets exchanged. -/
structure Exchanges (f : String → String) (a a' : Analysis) : Prop where
  names : a'.tally.names = a.tally.names
  excluded : a'.tally.excluded = a.tally.excluded
  candidates : a'.tally.candidates = a.tally.candidates
  definitions : a'.tally.byFile = a.tally.byFile.map (movedSheet f)
  used : a'.reconciliation.used = a.reconciliation.used
  unused : a'.reconciliation.unused = a.reconciliation.unused
  plan : a'.plan = a.plan.map (movedSheet f)

variable {w w' : World} {request request' : AnalysisRequest} {styles components : Place}
    {a a' : Analysis} {f : String → String}

theorem of_moved {candidates : List Text} {records records' : List Usage.Record}
    {definitions : List ClassDefinition}
    (hseen : ∀ name, name ∈ records'.map Usage.Record.name ↔ name ∈ records.map Usage.Record.name) :
  Reconciliation.of candidates records' (definitions.map (ClassDefinition.moved f))
    = (Reconciliation.of candidates records definitions).moved f
  := by
  have hcontains : (records'.map Usage.Record.name).contains
      = (records.map Usage.Record.name).contains := by
    funext name
    rw [Bool.eq_iff_iff, List.contains_iff_mem, List.contains_iff_mem]
    exact hseen name
  rw [Reconciliation.of, Reconciliation.of, Reconciliation.moved, hcontains, List.filter_map]
  rfl

theorem definitions_moved (tally : Tally) :
  (tally.moved f).definitions = tally.definitions.map (ClassDefinition.moved f)
  := by
  rw [Tally.definitions, Tally.definitions, Tally.moved, List.flatMap_map, List.map_flatMap]
  rfl

/-- An analysis of the same sources under other paths, which are in the same order. -/
theorem exchanges_of_isOf {styles' components' : Place} (h : IsOf w request styles components a)
    (h' : IsOf w' request' styles' components' a') (named : w.files.IsNamed)
    (hroot : w.files.get? styles = some .directory)
    (hpatterns : request'.patterns = request.patterns)
    (hthreshold : request'.threshold = request.threshold)
    (hsheets : w'.sheetsBelow styles' = (w.sheetsBelow styles).map (movedSheet f))
    (huses : ∀ name, w'.Uses components' name ↔ w.Uses components name)
    (horder : KeepsOrder f ((w.sheetsBelow styles).map Prod.fst)) :
  a.Exchanges f a'
  := by
  have htally : a'.tally = a.tally.moved f := by
    rw [h'.tally, h.tally, hpatterns, hthreshold, hsheets]
    exact @Tally.gather_moved f _ _ {} _ (World.nodup_files_sheetsBelow named hroot)
      fun file hfile file' hfile' => (horder.eq_iff hfile hfile').mp
  have hcandidates : a'.tally.candidates = a.tally.candidates := by rw [htally]; rfl
  have hreconciliation : a'.reconciliation = a.reconciliation.moved f := by
    rw [h'.reconciliation, h.reconciliation, hcandidates, htally, definitions_moved]
    apply of_moved
    intro name
    rw [h'.seen, h.seen, huses, hcandidates]
  have hfiles : a.reconciliation.unusedDefinitions.map ClassDefinition.file
      ⊆ (w.sheetsBelow styles).map Prod.fst := by
    intro file hfile
    obtain ⟨d, hd, rfl⟩ := List.mem_map.mp hfile
    obtain ⟨sheet, hsheet, hmem⟩ :=
      (World.defines_iff hroot).mp ((h.mem_unusedDefinitions_iff named hroot).mp hd).1
    rw [(World.of_mem_sheetsBelow hroot hsheet).2 d hmem]
    exact List.mem_map_of_mem hsheet
  have hfindings : a'.findings = a.findings.map (ClassDefinition.moved f) := by
    rw [findings, findings, h'.threshold, h.threshold, hthreshold, hreconciliation]
    exact Reconciliation.meeting_moved (horder.mono hfiles)
  have hplanned : a.findings.map ClassDefinition.file ⊆ (w.sheetsBelow styles).map Prod.fst := by
    refine List.Subset.trans (List.map_subset _ ?_) hfiles
    intro d hd
    rw [findings, (a.reconciliation.perm_meeting a.threshold).mem_iff] at hd
    exact List.mem_of_mem_filter hd
  constructor
  case names => rw [htally]; rfl
  case excluded => rw [htally]; rfl
  case candidates => exact hcandidates
  case definitions => rw [htally]; rfl
  case used => rw [hreconciliation]; rfl
  case unused => rw [hreconciliation]; rfl
  case plan => rw [plan, plan, hfindings, groupByFile_moved (horder.mono hplanned)]

variable {σ : Type} {stops : σ → Bool} {report : Progress → Overseer σ Unit} {s : σ}

/-- Where the same lies below two other roots, an analysis answers as well, if the files there can be
looked for, and it answers the same but for the heading of the paths. -/
theorem exchanges_run (tree : w.files.IsTree) (named : w.files.IsNamed) (tree' : w'.files.IsTree)
    (named' : w'.files.IsNamed) (hpatterns : request'.patterns = request.patterns)
    (hthreshold : request'.threshold = request.threshold)
    (hstyles : w.files.SameBelow w'.files (w.files.placeOf request.styles)
      (w'.files.placeOf request'.styles))
    (hcomponents : w.files.SameBelow w'.files (w.files.placeOf request.components)
      (w'.files.placeOf request'.components)) :
  (∀ s', (∃ a w₁, run stops report request (w, s) = .ok a (w₁, s')) →
      w'.OpensAt request'.styles Files.stylesheetSuffixes →
      w'.OpensAt request'.components Files.componentSuffixes →
      ∃ a' w₁, run stops report request' (w', s) = .ok a' (w₁, s'))
    ∧ ∀ a a' ws ws', run stops report request (w, s) = .ok a ws →
      run stops report request' (w', s) = .ok a' ws' →
      a.Exchanges (Path.exchanged (w.files.placeOf request.styles) (w'.files.placeOf request'.styles)) a'
  := by
  constructor
  · intro s' hanswers hopens hopens'
    obtain ⟨hreads, hreads', hsome, s₁, hafter, hafter'⟩ := (exists_run_iff tree named).mp hanswers
    have hsheets := World.discover_of_sameBelow tree named hstyles hreads
    have hsources := World.discover_of_sameBelow tree named hcomponents hreads'
    have hcount : (w'.filesAt request'.styles Files.stylesheetSuffixes).length
        = (w.filesAt request.styles Files.stylesheetSuffixes).length := by
      rw [World.filesAt, World.filesAt, List.length_map, List.length_map, hsheets]
    have hcount' : (w'.filesAt request'.components Files.componentSuffixes).length
        = (w.filesAt request.components Files.componentSuffixes).length := by
      rw [World.filesAt, World.filesAt, List.length_map, List.length_map, hsources]
    apply (exists_run_iff tree' named').mpr
    refine ⟨World.readsAt_iff.mpr ⟨hopens, ?_⟩, World.readsAt_iff.mpr ⟨hopens', ?_⟩, ?_, s₁, ?_⟩
    · rw [hsheets]
      exact (World.readsAt_iff.mp hreads).2
    · rw [hsources]
      exact (World.readsAt_iff.mp hreads').2
    · rw [← List.length_pos_iff, hcount, List.length_pos_iff]
      exact hsome
    · rw [hcount, hcount']
      exact ⟨hafter, hafter'⟩
  · rintro a a' ⟨w₁, s₁⟩ ⟨w₁', s₁'⟩ h h'
    obtain ⟨hreads, hreads', -⟩ := (exists_run_iff tree named).mp ⟨a, w₁, h⟩
    obtain ⟨hopens, hopens', -⟩ := (exists_run_iff tree' named').mp ⟨a', w₁', h'⟩
    obtain ⟨hroot, -, hof⟩ := of_run tree named h
    obtain ⟨-, -, hof'⟩ := of_run tree' named' h'
    apply exchanges_of_isOf hof hof' named hroot hpatterns hthreshold
    · exact World.sheetsBelow_of_sameBelow tree named tree' named' hstyles hreads hopens
    · exact World.uses_iff_of_sameBelow tree named tree' named' hcomponents hreads' hopens'
    · exact World.keepsOrder_exchanged hroot _

/-- The project in directories whose names would count below the roots. -/
def placedProject : World := projectAt [["components"], ["build"]] ["components", "s"] ["build", "c"]

/-- The request to analyse the project there. -/
def placedRequest : AnalysisRequest :=
  { projectRequest .medium with
    styles := Path.ofString "components/s", components := Path.ofString "build/c" }

/-- The project is analysed the same in directories with other names. -/
theorem exchanges_run_project :
  project.files.SameBelow placedProject.files ["s"] ["components", "s"]
    ∧ project.files.SameBelow placedProject.files ["c"] ["build", "c"]
    ∧ ∃ a a', answer? (projectRequest .medium) project = some a
      ∧ answer? placedRequest placedProject = some a'
      ∧ a.Exchanges (Path.exchanged ["s"] ["components", "s"]) a'
  := by
  have tree : placedProject.files.IsTree := by
    apply Files.isTree_of_entries
    all_goals decide +kernel
  have named : placedProject.files.IsNamed := by
    apply Files.isNamed_of_entries
    decide +kernel
  have hentries : ∀ x ∈ placedProject.files.entries, Job.hasNull (Path.fromRoot x.1) = false
      ∧ placedProject.files.entry (Path.fromRoot x.1) = .ok x.2 := by
    decide +kernel
  have hstylesRoot : placedProject.files.get? ["components", "s"] = some .directory := by
    decide +kernel
  have hcomponentsRoot : placedProject.files.get? ["build", "c"] = some .directory := by
    decide +kernel
  have hstyles : project.files.SameBelow placedProject.files ["s"] ["components", "s"] := by
    apply Files.sameBelow_of_below
    all_goals decide +kernel
  have hcomponents : project.files.SameBelow placedProject.files ["c"] ["build", "c"] := by
    apply Files.sameBelow_of_below
    all_goals decide +kernel
  obtain ⟨hanswers, hexchanges⟩ := @exchanges_run project placedProject (projectRequest .medium)
    placedRequest Unit (fun _ => false) (fun _ => pure ()) () isTree_project isNamed_project tree named
    rfl rfl hstyles hcomponents
  obtain ⟨a, ha⟩ := exists_answer?_project .medium
  obtain ⟨⟨w₁, ⟨⟩⟩, hrun⟩ := answer?_eq_some_iff.mp ha
  obtain ⟨a', w₁', hrun'⟩ := hanswers () ⟨a, w₁, hrun⟩
    (World.readsAt_of_entries rfl hstylesRoot hentries).toOpensAt
    (World.readsAt_of_entries rfl hcomponentsRoot hentries).toOpensAt
  exact ⟨hstyles, hcomponents, a, a', ha, answer?_eq_some_iff.mpr ⟨_, hrun'⟩,
    hexchanges a a' _ _ hrun hrun'⟩

end Analysis

end StylePrune
