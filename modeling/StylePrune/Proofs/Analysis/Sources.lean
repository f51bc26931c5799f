import StylePrune.Analysis.Run
import StylePrune.Proofs.Analysis.Tally
import StylePrune.Proofs.Stylesheet.Naming
import StylePrune.Proofs.Usage.Scanning

/-!
# The sources of an analysis

An analysis that ends with an answer has entered all stylesheets that were found below the root of the
styles and have a text, each under a path of its own (`World.sheetsBelow`), and has looked for the
candidates in all component sources below the other root (`Analysis.of_run`).
-/

namespace StylePrune

namespace World

/-- Whether the source file that some names lead to from a root is found there and has a text. -/
structure HasSource (w : World) (root : Place) (suffixes : List String) (names : Place) (t : Text) :
    Prop where
  finds : w.files.Finds root suffixes names
  content : Job.content? (Path.fromRoot (root ++ names)) w = some t

/-- Whether a stylesheet below a root defines a class name. -/
def Defines (w : World) (root : Place) (d : ClassDefinition) : Prop :=
  ∃ names t, w.HasSource root Files.stylesheetSuffixes names t
    ∧ d ∈ Stylesheet.definitionsOf t (Path.fromRoot (root ++ names)).toString ⟨.relative, names⟩

/-- Whether a component source below a root uses a class name. -/
def Uses (w : World) (root : Place) (name : Text) : Prop :=
  ∃ names t, w.HasSource root Files.componentSuffixes names t ∧ Usage.isUsed name t = true

/-- What is entered for the stylesheet that some names lead to from a root, if it has a text. -/
def sheetAt? (w : World) (root names : Place) : Option (String × List ClassDefinition) :=
  let file := Path.fromRoot (root ++ names)
  (Job.content? file w).map fun t =>
    (file.toString, Stylesheet.definitionsOf t file.toString ⟨.relative, names⟩)

/-- What is entered for the stylesheets below a root. -/
def sheetsBelow (w : World) (root : Place) : List (String × List ClassDefinition) :=
  (w.files.discover root Files.stylesheetSuffixes).filterMap (w.sheetAt? root)

variable {w w' : World} {root : Place} {sheet : String × List ClassDefinition}

/-- Whether the files below the root that a path leads to can be looked for. -/
structure OpensAt (w : World) (p : Path) (suffixes : List String) : Prop where
  noNull : Job.hasNull p = false
  directory : Job.isDirectory (Path.fromRoot (w.files.placeOf p)) w = .ok true w
  lookedAt : w.CanBeLookedAt (w.files.placeOf p) suffixes

/-- The paths of the files below the root that a path leads to. -/
def filesAt (w : World) (p : Path) (suffixes : List String) : List Path :=
  (w.files.discover (w.files.placeOf p) suffixes).map fun names =>
    Path.fromRoot (w.files.placeOf p ++ names)

/-- The place of a root directory. -/
theorem get?_of_isDirectory (tree : w.files.IsTree) (named : w.files.IsNamed) {p : Path}
    (h : Job.isDirectory (Path.fromRoot (w.files.placeOf p)) w = .ok true w') :
  w.files.get? (w.files.placeOf p) = some .directory ∧ Files.IsProper (w.files.placeOf p)
  := by
  have hdirectory := (Job.isDirectory_eq_true_iff.mp h).2.2.1
  rw [Files.placeOf_fromRoot_placeOf tree named] at hdirectory
  exact ⟨hdirectory, named.of_eq_some hdirectory⟩

/-- What is found below a root directory, if it can be looked for. -/
theorem filesBelow_eq_ok_iff (tree : w.files.IsTree) (named : w.files.IsNamed) {p : Path}
    {suffixes : List String} {files : List Path}
    (h : Job.isDirectory (Path.fromRoot (w.files.placeOf p)) w = .ok true w) :
  Job.filesBelow (Path.fromRoot (w.files.placeOf p)) suffixes w = .ok files w'
    ↔ w.CanBeLookedAt (w.files.placeOf p) suffixes ∧ files = w.filesAt p suffixes ∧ w' = w
  := Job.filesBelow_eq_ok_iff (get?_of_isDirectory tree named h).2 h

theorem sheetAt?_of_logs (root : Place) (h : w.Logs w') :
  w'.sheetAt? root = w.sheetAt? root
  := by
  funext names
  rw [sheetAt?, Job.content?_of_logs _ h, sheetAt?]

/-- The stylesheets below a directory are those that are found there and have a text. -/
theorem mem_sheetsBelow_iff (hroot : w.files.get? root = some .directory) :
  sheet ∈ w.sheetsBelow root
    ↔ ∃ names t, w.HasSource root Files.stylesheetSuffixes names t
      ∧ sheet = ((Path.fromRoot (root ++ names)).toString,
        Stylesheet.definitionsOf t (Path.fromRoot (root ++ names)).toString ⟨.relative, names⟩)
  := by
  have hsuffixes : Files.stylesheetSuffixes.map Text.lowerString = Files.stylesheetSuffixes := by
    decide
  rw [sheetsBelow, List.mem_filterMap]
  constructor
  · rintro ⟨names, hnames, hsheet⟩
    rw [Files.mem_discover_iff hroot, hsuffixes] at hnames
    obtain ⟨t, ht, rfl⟩ := Option.map_eq_some_iff.mp hsheet
    exact ⟨names, t, ⟨hnames, ht⟩, rfl⟩
  · rintro ⟨names, t, ⟨hfinds, ht⟩, rfl⟩
    refine ⟨names, ?_, Option.map_eq_some_iff.mpr ⟨t, ht, rfl⟩⟩
    rw [Files.mem_discover_iff hroot, hsuffixes]
    exact hfinds

/-- What is entered for a stylesheet are definitions of its own, no two of one name. -/
theorem of_mem_sheetsBelow (hroot : w.files.get? root = some .directory)
    (h : sheet ∈ w.sheetsBelow root) :
  (sheet.2.map ClassDefinition.name).Nodup ∧ ∀ d ∈ sheet.2, d.file = sheet.1
  := by
  obtain ⟨names, t, -, rfl⟩ := (mem_sheetsBelow_iff hroot).mp h
  dsimp only
  exact ⟨Stylesheet.nodup_map_name_definitionsOf _ _ _,
    fun d hd => (Stylesheet.of_mem_definitionsOf hd).1⟩

theorem defines_iff (hroot : w.files.get? root = some .directory) {d : ClassDefinition} :
  w.Defines root d ↔ ∃ sheet ∈ w.sheetsBelow root, d ∈ sheet.2
  := by
  constructor
  · rintro ⟨names, t, hsource, hd⟩
    refine ⟨_, (mem_sheetsBelow_iff hroot).mpr ⟨names, t, hsource, rfl⟩, ?_⟩
    dsimp only
    exact hd
  · rintro ⟨sheet, hsheet, hd⟩
    obtain ⟨names, t, hsource, rfl⟩ := (mem_sheetsBelow_iff hroot).mp hsheet
    refine ⟨names, t, hsource, ?_⟩
    dsimp only at hd
    exact hd

/-- The component sources that use a name are among those that are found. -/
theorem uses_iff (hroot : w.files.get? root = some .directory) {name : Text} :
  w.Uses root name ↔ ∃ names ∈ w.files.discover root Files.componentSuffixes,
    ∃ t, Job.content? (Path.fromRoot (root ++ names)) w = some t ∧ Usage.isUsed name t = true
  := by
  have hsuffixes : Files.componentSuffixes.map Text.lowerString = Files.componentSuffixes := by
    decide
  have hfinds : ∀ names, names ∈ w.files.discover root Files.componentSuffixes
      ↔ w.files.Finds root Files.componentSuffixes names := by
    intro names
    rw [Files.mem_discover_iff hroot, hsuffixes]
  constructor
  · rintro ⟨names, t, ⟨hfound, ht⟩, hused⟩
    exact ⟨names, (hfinds names).mpr hfound, t, ht, hused⟩
  · rintro ⟨names, hfound, t, ht, hused⟩
    exact ⟨names, t, ⟨(hfinds names).mp hfound, ht⟩, hused⟩

/-- No two stylesheets are entered under one path. -/
theorem nodup_files_sheetsBelow (named : w.files.IsNamed)
    (hroot : w.files.get? root = some .directory) :
  ((w.sheetsBelow root).map Prod.fst).Nodup
  := by
  rw [sheetsBelow, List.Nodup, List.pairwise_map, List.pairwise_filterMap]
  apply (Files.nodup_discover w.files root Files.stylesheetSuffixes).imp_of_mem
  intro names names' hnames hnames' hne sheet hsheet sheet' hsheet' heq
  obtain ⟨t, -, rfl⟩ := Option.map_eq_some_iff.mp hsheet
  obtain ⟨t', -, rfl⟩ := Option.map_eq_some_iff.mp hsheet'
  have hproper := ((Files.mem_discover_iff hroot).mp hnames).isProper named
  have hproper' := ((Files.mem_discover_iff hroot).mp hnames').isProper named
  exact hne (List.append_cancel_left (Files.eq_of_toString_eq hproper hproper' heq))

end World

namespace Analysis

variable {σ : Type} {stops : σ → Bool} {report : Progress → Overseer σ Unit}
    {request : AnalysisRequest} {a : Analysis} {w w' : World} {s s' : σ}

/-! ### Reading the stylesheets -/

/-- What is gathered when a stylesheet was read that has a text, or was passed over. -/
def adding (request : AnalysisRequest) (styles file : Path) (tally : Tally) : Option Text → Tally
  | none => tally
  | some t =>
    tally.addFile (Exclusion.effective request.patterns) request.threshold file.toString
      (Stylesheet.definitionsOf t file.toString ((file.relativeTo? styles).getD file))

/-- Reading stylesheets is reading one and then the others. -/
theorem readStylesheets_cons (stops : σ → Bool) (report : Progress → Overseer σ Unit)
    (request : AnalysisRequest) (styles : Path) (total done : Nat) (file : Path) (files : List Path)
    (tally : Tally) :
  readStylesheets stops report request styles total done (file :: files) tally
    = Overseen.checkpoint stops .analysis >>= fun _ =>
      Overseen.job (Job.readSource file) >>= fun content =>
        Overseen.overseer (report ⟨.stylesheets, done + 1, total⟩) >>= fun _ =>
          readStylesheets stops report request styles total (done + 1) files
            (adding request styles file tally content)
  := by
  rw [readStylesheets]
  refine congrArg (_ >>= ·) (funext fun _ => congrArg (_ >>= ·) (funext fun content => ?_))
  cases content <;> rfl

/-- What is gathered after a stylesheet is the tally with what was entered for it. -/
theorem gather_adding (request : AnalysisRequest) (w : World) (root names : Place) (tally : Tally)
    (sheets : List (String × List ClassDefinition)) :
  Tally.gather (Exclusion.effective request.patterns) request.threshold
      (adding request (Path.fromRoot root) (Path.fromRoot (root ++ names)) tally
        (Job.content? (Path.fromRoot (root ++ names)) w)) sheets
    = Tally.gather (Exclusion.effective request.patterns) request.threshold tally
      ((w.sheetAt? root names).toList ++ sheets)
  := by
  have hrelative : (Path.fromRoot (root ++ names)).relativeTo? (Path.fromRoot root)
      = some ⟨.relative, names⟩ := Path.relativeTo?_append (Path.fromRoot root) names
  rw [World.sheetAt?]
  cases Job.content? (Path.fromRoot (root ++ names)) w with
  | none => rfl
  | some t =>
      simp only [adding, hrelative, Option.getD_some, Option.map_some, Option.toList_some,
        List.singleton_append, Tally.gather, List.foldl_cons]

/-- Reading that ends with an answer has entered each stylesheet that has a text. -/
theorem of_readStylesheets {root : Place} {total done : Nat} {places : List Place}
    {tally tally' : Tally}
    (h : readStylesheets stops report request (Path.fromRoot root) total done
      (places.map fun names => Path.fromRoot (root ++ names)) tally (w, s) = .ok tally' (w', s')) :
  w.Logs w' ∧ tally' = Tally.gather (Exclusion.effective request.patterns) request.threshold tally
    (places.filterMap (w.sheetAt? root))
  := by
  induction places generalizing done tally w s with
  | nil =>
      obtain ⟨rfl, heq⟩ := EStateM.Result.ok.inj h
      obtain ⟨rfl, -⟩ := Prod.mk.inj heq
      exact ⟨.refl w, rfl⟩
  | cons names places ih =>
      rw [List.map_cons, readStylesheets_cons] at h
      obtain ⟨w₁, s₁, hlogs, hrest⟩ := Overseen.of_reading h
      obtain ⟨hlogs', htally⟩ := ih hrest
      refine ⟨hlogs.trans hlogs', ?_⟩
      rw [htally, gather_adding, World.sheetAt?_of_logs root hlogs]
      cases hsheet : w.sheetAt? root names with
      | none => rw [List.filterMap_cons_none hsheet, Option.toList_none, List.nil_append]
      | some sheet => rw [List.filterMap_cons_some hsheet, Option.toList_some, List.singleton_append]

/-! ### A whole run -/

theorem rootDirectory_eq_ok_iff {kind : RootKind} {p q : Path} :
  rootDirectory kind p w = .ok q w' ↔ Job.isDirectory p w = .ok true w ∧ q = p ∧ w' = w
  := by
  rw [rootDirectory, Job.bind_eq_ok_iff]
  constructor
  · rintro ⟨found, w₁, hfound, h⟩
    cases found with
    | true =>
        obtain rfl := (Job.isDirectory_eq_true_iff.mp hfound).2.2.2
        obtain ⟨rfl, rfl⟩ := EStateM.Result.ok.inj h
        exact ⟨hfound, rfl, rfl⟩
    | false => cases h
  · rintro ⟨hdirectory, rfl, rfl⟩
    exact ⟨true, w', hdirectory, rfl⟩

/-- What an analysis answers from what it has gathered and found. -/
def answer (request : AnalysisRequest) (w : World) (tally : Tally) (found : Usage.Findings) : Analysis :=
  { styles := Path.fromRoot (w.files.placeOf request.styles)
    components := Path.fromRoot (w.files.placeOf request.components)
    threshold := request.threshold
    tally
    records := found.records
    reconciliation := Reconciliation.of tally.candidates found.records tally.definitions
    stylesheetCount := (w.filesAt request.styles Files.stylesheetSuffixes).length
    componentCount := (w.filesAt request.components Files.componentSuffixes).length }

/-- A run answers if the files below both roots can be looked for, some of them are stylesheets, and
reading these and then scanning the component sources ends with an answer. -/
theorem run_eq_ok_iff (tree : w.files.IsTree) (named : w.files.IsNamed) {ws : World × σ} :
  run stops report request (w, s) = .ok a ws
    ↔ w.OpensAt request.styles Files.stylesheetSuffixes
      ∧ w.OpensAt request.components Files.componentSuffixes
      ∧ w.filesAt request.styles Files.stylesheetSuffixes ≠ []
      ∧ ∃ tally w₁ s₁ found,
        readStylesheets stops report request (Path.fromRoot (w.files.placeOf request.styles))
            (w.filesAt request.styles Files.stylesheetSuffixes).length 0
            (w.filesAt request.styles Files.stylesheetSuffixes) {} (w, s) = .ok tally (w₁, s₁)
          ∧ Usage.scanFiles stops (fun done _ => report ⟨.components, done,
              (w.filesAt request.components Files.componentSuffixes).length⟩)
            (Usage.searched tally.candidates) 0
            (w.filesAt request.components Files.componentSuffixes) {} (w₁, s₁) = .ok found ws
          ∧ a = answer request w tally found
  := by
  constructor
  · intro h
    rw [run] at h
    obtain ⟨styles, w₁, hstyles, h⟩ := Overseen.job_bind_eq_ok_iff.mp h
    obtain ⟨hnull, rfl, rfl⟩ := Job.resolve_eq_ok_iff.mp hstyles
    obtain ⟨components, w₂, hcomponents, h⟩ := Overseen.job_bind_eq_ok_iff.mp h
    obtain ⟨hnull', rfl, rfl⟩ := Job.resolve_eq_ok_iff.mp hcomponents
    obtain ⟨styles, w₃, hstyles', h⟩ := Overseen.job_bind_eq_ok_iff.mp h
    obtain ⟨hdirectory, rfl, rfl⟩ := rootDirectory_eq_ok_iff.mp hstyles'
    obtain ⟨components, w₄, hcomponents', h⟩ := Overseen.job_bind_eq_ok_iff.mp h
    obtain ⟨hdirectory', rfl, rfl⟩ := rootDirectory_eq_ok_iff.mp hcomponents'
    obtain ⟨stylesheets, w₅, hsheets, h⟩ := Overseen.job_bind_eq_ok_iff.mp h
    obtain ⟨hlooked, rfl, rfl⟩ := (World.filesBelow_eq_ok_iff tree named hdirectory).mp hsheets
    split at h
    · cases h
    · next hsome =>
      obtain ⟨tally, ⟨w₆, s₁⟩, hread, h⟩ := Job.bind_eq_ok_iff.mp h
      have hlogs := (of_readStylesheets hread).1
      obtain ⟨sources, w₇, hsources, h⟩ := Overseen.job_bind_eq_ok_iff.mp h
      obtain ⟨log, rfl⟩ := hlogs
      obtain ⟨hlooked', rfl, rfl⟩ := (World.filesBelow_eq_ok_iff (w := { w₅ with log }) tree named
        (Job.isDirectory_of_logs hdirectory' ⟨log, rfl⟩)).mp hsources
      obtain ⟨found, ws₁, hscan, h⟩ := Job.bind_eq_ok_iff.mp h
      obtain ⟨rfl, rfl⟩ := EStateM.Result.ok.inj h
      exact ⟨⟨hnull, hdirectory, hlooked⟩, ⟨hnull', hdirectory', hlooked'.of_logs ⟨w₅.log, rfl⟩⟩, hsome,
        tally, _, s₁, found, hread, hscan, rfl⟩
  · rintro ⟨hstyles, hcomponents, hsome, tally, w₁, s₁, found, hread, hscan, rfl⟩
    have hlogs := (of_readStylesheets hread).1
    obtain ⟨log, rfl⟩ := hlogs
    have hsheets := (World.filesBelow_eq_ok_iff tree named hstyles.directory).mpr
      ⟨hstyles.lookedAt, rfl, rfl⟩
    have hsources := (World.filesBelow_eq_ok_iff (w := { w with log }) tree named
      (Job.isDirectory_of_logs hcomponents.directory ⟨log, rfl⟩)).mpr
        ⟨hcomponents.lookedAt.of_logs ⟨log, rfl⟩, rfl, rfl⟩
    rw [run]
    refine Overseen.job_bind_eq_ok_iff.mpr
      ⟨_, w, Job.resolve_eq_ok_iff.mpr ⟨hstyles.noNull, rfl, rfl⟩, ?_⟩
    refine Overseen.job_bind_eq_ok_iff.mpr
      ⟨_, w, Job.resolve_eq_ok_iff.mpr ⟨hcomponents.noNull, rfl, rfl⟩, ?_⟩
    refine Overseen.job_bind_eq_ok_iff.mpr
      ⟨_, w, rootDirectory_eq_ok_iff.mpr ⟨hstyles.directory, rfl, rfl⟩, ?_⟩
    refine Overseen.job_bind_eq_ok_iff.mpr
      ⟨_, w, rootDirectory_eq_ok_iff.mpr ⟨hcomponents.directory, rfl, rfl⟩, ?_⟩
    refine Overseen.job_bind_eq_ok_iff.mpr ⟨_, w, hsheets, ?_⟩
    rw [if_neg hsome]
    refine Job.bind_eq_ok_iff.mpr ⟨tally, _, hread, ?_⟩
    refine Overseen.job_bind_eq_ok_iff.mpr ⟨_, _, hsources, ?_⟩
    exact Job.bind_eq_ok_iff.mpr ⟨found, ws, hscan, rfl⟩

/-- Whether an analysis is that of the stylesheets and the component sources below two roots. -/
structure IsOf (w : World) (request : AnalysisRequest) (styles components : Place) (a : Analysis) :
    Prop where
  threshold : a.threshold = request.threshold
  tally : a.tally = Tally.gather (Exclusion.effective request.patterns) request.threshold {}
    (w.sheetsBelow styles)
  seen : ∀ name, name ∈ a.records.map Usage.Record.name
    ↔ name ∈ a.tally.candidates ∧ w.Uses components name
  reconciliation : a.reconciliation
    = Reconciliation.of a.tally.candidates a.records a.tally.definitions

/-- A run that answers gives the analysis of the sources below its roots, which are directories. -/
theorem of_run (tree : w.files.IsTree) (named : w.files.IsNamed) {ws : World × σ}
    (h : run stops report request (w, s) = .ok a ws) :
  w.files.get? (w.files.placeOf request.styles) = some .directory
    ∧ w.files.get? (w.files.placeOf request.components) = some .directory
    ∧ IsOf w request (w.files.placeOf request.styles) (w.files.placeOf request.components) a
  := by
  obtain ⟨hstyles, hcomponents, -, tally, w₁, s₁, found, hread, hscan, rfl⟩ :=
    (run_eq_ok_iff tree named).mp h
  have hstylesRoot := (World.get?_of_isDirectory tree named hstyles.directory).1
  have hcomponentsRoot := (World.get?_of_isDirectory tree named hcomponents.directory).1
  obtain ⟨hlogs, htally⟩ := of_readStylesheets hread
  obtain ⟨-, hrecords⟩ := Usage.mem_records_of_scanFiles hscan
  refine ⟨hstylesRoot, hcomponentsRoot, rfl, htally, ?_, rfl⟩
  intro name
  rw [List.mem_map, World.uses_iff hcomponentsRoot]
  constructor
  · rintro ⟨r, hr, rfl⟩
    obtain ⟨p, hp, t, ht, hrecord⟩ := ((hrecords r).mp hr).resolve_left List.not_mem_nil
    obtain ⟨names, hnames, rfl⟩ := List.mem_map.mp hp
    obtain ⟨hname, hused, -⟩ := Usage.mem_recordsIn_iff.mp hrecord
    rw [Job.content?_of_logs _ hlogs] at ht
    exact ⟨Usage.mem_searched_iff.mp hname, names, hnames, t, ht, hused⟩
  · rintro ⟨hname, names, hnames, t, ht, hused⟩
    refine ⟨⟨name, (Path.fromRoot (w.files.placeOf request.components ++ names)).toString⟩, ?_, rfl⟩
    rw [← Job.content?_of_logs _ hlogs] at ht
    exact (hrecords _).mpr (.inr ⟨_, List.mem_map_of_mem hnames, t, ht,
      Usage.mem_recordsIn_iff.mpr ⟨Usage.mem_searched_iff.mpr hname, hused, rfl⟩⟩)

end Analysis

end StylePrune
