import StylePrune.Proofs.Files.Discovery
import StylePrune.Proofs.Prune.Answering

/-!
# A dry run predicts a live run

What the outcome for a stylesheet says of the removal (`Outcome.finding`) is read off its text alone
(`Plan.finding_of_pruneFile`).  A live run changes no text but of the stylesheets that it has done, so
what it finds was there at first (`Plan.map_finding_of_run`), and a dry run, which changes nothing but
the log, finds the same (`Plan.predicts_run`).  The exception is a path that leads through a directory
that is made for the manifest on the way, and out of it again (`Plan.not_predicts_run`).
-/

namespace StylePrune.Prune

open Job BackupStore

/-- What is said of a removal, whether it was carried out or not. -/
structure Finding where
  file : Path
  removed : List Text := []
  blocks : Nat := 0
  changed : Bool := false
  anomalies : List Anomaly := []
  deriving DecidableEq, Repr

/-- What an outcome says of the removal. -/
def Outcome.finding (o : Outcome) : Finding :=
  { file := o.file, removed := o.removed, blocks := o.blocks, changed := o.changed
    anomalies := o.anomalies }

namespace Plan

variable {σ : Type} {m : BackupStore} {options : Options} {supervisor : Supervisor σ} {file : Path}
    {names : List Text} {plan : Plan} {outcome o : Outcome} {outcomes : List Outcome} {t : Text}
    {touched : Set Place} {w w' : World} {s : σ}

/-! ### What is found in a stylesheet -/

/-- What there is to say of a removal, given the text of the stylesheet if it could be read. -/
def findingOf (file : Path) (names : List Text) : Option Text → Finding
  | some t => (outcomeOf {} file names t).finding
  | none => { file }

/-- What there is to say of the removals of a plan as the stylesheets are. -/
def findingsOf (plan : Plan) (w : World) : List Finding :=
  (plan.filter fun entry => entry.2 ≠ []).map fun entry =>
    findingOf (fileOf entry) (namesOf entry) (text? (fileOf entry) w)

theorem findingsOf_cons_of_nil {entry : String × List ClassDefinition} (hnil : entry.2 = [])
    (rest : Plan) (w : World) :
  findingsOf (entry :: rest) w = findingsOf rest w
  := by
  rw [findingsOf, List.filter_cons_of_neg, findingsOf]
  simp [hnil]

theorem findingsOf_cons_of_ne_nil {entry : String × List ClassDefinition} (hne : entry.2 ≠ [])
    (rest : Plan) (w : World) :
  findingsOf (entry :: rest) w
    = findingOf (fileOf entry) (namesOf entry) (text? (fileOf entry) w) :: findingsOf rest w
  := by
  rw [findingsOf, List.filter_cons_of_pos, List.map_cons, findingsOf]
  simp [hne]

theorem findingsOf_congr (h : ∀ entry ∈ plan, entry.2 ≠ [] →
    text? (fileOf entry) w' = text? (fileOf entry) w) :
  findingsOf plan w' = findingsOf plan w
  := by
  apply List.map_congr_left
  intro entry hentry
  obtain ⟨hmem, hne⟩ := List.mem_filter.mp hentry
  rw [h entry hmem (of_decide_eq_true hne)]

theorem finding_of_changing (h : changing m options outcome t w = .ok o w') :
  o.finding = outcome.finding
  := by
  rw [changing] at h
  split at h
  · obtain ⟨copy, w₁, -, hrest⟩ := bind_eq_ok_iff.mp h
    cases copy with
    | error cause =>
        obtain ⟨rfl, -⟩ := EStateM.Result.ok.inj hrest
        rfl
    | ok b =>
        obtain ⟨written, error, rfl⟩ := exists_of_replace hrest
        rfl
  · obtain ⟨written, error, rfl⟩ := exists_of_replace h
    rfl

/-- What an outcome says of the removal is read off the text of the stylesheet. -/
theorem finding_of_pruneFile (h : pruneFile m options file names w = .ok o w') :
  o.finding = findingOf file names (text? file w)
  := by
  cases hread : readText file w with
  | error fault w₁ =>
      rw [text?, hread]
      rcases pruneFile_of_readText_eq_error m options names hread with
        ⟨-, error, log, hprune⟩ | ⟨-, hprune⟩
      · rw [hprune] at h
        obtain ⟨rfl, -⟩ := EStateM.Result.ok.inj h
        rfl
      · rw [hprune] at h
        cases h
  | ok t w₁ =>
      obtain ⟨-, -, -, rfl⟩ := readText_eq_ok_iff.mp hread
      rw [text?_eq_some_iff.mpr hread]
      obtain ⟨log, hprune⟩ := pruneFile_of_readText m options names hread
      rw [hprune] at h
      split at h
      · obtain ⟨rfl, -⟩ := EStateM.Result.ok.inj h
        rfl
      · have hchanged : o.finding = (outcomeOf options file names t).finding := finding_of_changing h
        exact hchanged

/-- The path of a stylesheet that is answered has none of the characters that end names. -/
theorem hasNull_of_pruneFile (h : pruneFile m options file names w = .ok o w') :
  hasNull file = false
  := by
  cases hread : readText file w with
  | error fault w₁ =>
      rcases pruneFile_of_readText_eq_error m options names hread with ⟨hnull, -⟩ | ⟨-, hprune⟩
      · exact hnull
      · rw [hprune] at h
        cases h
  | ok t w₁ =>
      obtain ⟨bytes, hholds, -⟩ := readText_eq_ok_iff.mp hread
      exact hholds.noNull

/-! ### A dry run -/

/-- A dry run leaves all as it is but the log. -/
theorem left_pruneFile_dryRun (hdry : options.dryRun = true) (m : BackupStore) (file : Path)
    (names : List Text) (w : World) :
  ∃ log, left (pruneFile m options file names w) = { w with log }
  := by
  cases hread : readText file w with
  | error fault w₁ =>
      rcases pruneFile_of_readText_eq_error m options names hread with
        ⟨-, error, log, hprune⟩ | ⟨-, hprune⟩
      · exact ⟨log, by rw [hprune]; rfl⟩
      · exact ⟨w.log, by rw [hprune]; rfl⟩
  | ok t w₁ =>
      obtain ⟨-, -, -, rfl⟩ := readText_eq_ok_iff.mp hread
      obtain ⟨log, hprune⟩ := pruneFile_of_readText m options names hread
      rw [if_pos (.inr hdry)] at hprune
      exact ⟨log, by rw [hprune]; rfl⟩

/-- A dry run answers for every path that has none of the characters that end names. -/
theorem exists_pruneFile_dryRun (hdry : options.dryRun = true) (hnull : hasNull file = false)
    (m : BackupStore) (names : List Text) (w : World) :
  ∃ o log, pruneFile m options file names w = .ok o { w with log }
  := by
  cases hread : readText file w with
  | error fault w₁ =>
      rcases pruneFile_of_readText_eq_error m options names hread with
        ⟨-, error, log, hprune⟩ | ⟨hnull', -⟩
      · exact ⟨_, log, hprune⟩
      · rw [hnull] at hnull'
        cases hnull'
  | ok t w₁ =>
      obtain ⟨-, -, -, rfl⟩ := readText_eq_ok_iff.mp hread
      obtain ⟨log, hprune⟩ := pruneFile_of_readText m options names hread
      rw [if_pos (.inr hdry)] at hprune
      exact ⟨_, log, hprune⟩

theorem permits_of_dryRun (hdry : options.dryRun = true) (supervisor : Supervisor σ) (file : Path)
    (definitions : List ClassDefinition) :
  permits supervisor options file definitions = pure true
  := by
  rw [permits]
  split
  · rw [if_pos hdry]
  · rfl

/-- A dry run asks nobody. -/
theorem run_dryRun_eq (hdry : options.dryRun = true) (m : BackupStore) (supervisor : Supervisor σ)
    (plan : Plan) :
  run m options supervisor plan = run m options { supervisor with confirm := none } plan
  := by
  induction plan with
  | nil => rfl
  | cons entry rest ih =>
      rw [run_cons, run_cons, ih, visit, visit, permits_of_dryRun hdry, permits_of_dryRun hdry]

theorem worldOf_visit_dryRun (hdry : options.dryRun = true) (m : BackupStore)
    (supervisor : Supervisor σ) (entry : String × List ClassDefinition) (w : World) (s : σ) :
  ∃ log, worldOf (visit m options supervisor entry (w, s)) = { w with log }
  := by
  rcases visit_cases m options supervisor entry w s with ⟨-, hworld, -⟩ | ⟨-, hworld, -⟩
  · exact ⟨w.log, hworld⟩
  · rw [hworld]
    exact left_pruneFile_dryRun hdry m (fileOf entry) (namesOf entry) w

/-- However a dry run ends, it leaves all as it was but the log. -/
theorem worldOf_run_dryRun (hdry : options.dryRun = true) (m : BackupStore)
    (supervisor : Supervisor σ) (plan : Plan) (w : World) (s : σ) :
  ∃ log, worldOf (run m options supervisor plan (w, s)) = { w with log }
  := by
  induction plan generalizing w s with
  | nil => exact ⟨w.log, rfl⟩
  | cons entry rest ih =>
      rw [run_cons]
      obtain ⟨log, hvisit⟩ := worldOf_visit_dryRun hdry m supervisor entry w s
      rcases worldOf_bind (visit m options supervisor entry) _ w s with
        ⟨first, w₁, s₁, -, hworld, h⟩ | ⟨h, -⟩
      · obtain rfl := hworld.symm.trans hvisit
        rw [h, worldOf_bind_pure]
        exact ih _ s₁
      · rw [h]
        exact ⟨log, hvisit⟩

/-- A dry run that nobody stops answers with what there is to say of the removals. -/
theorem exists_run_dryRun (hdry : options.dryRun = true) (m : BackupStore)
    (confirm : Option (Path → List ClassDefinition → Overseer σ Bool)) (w : World) (s : σ)
    (hnull : ∀ entry ∈ plan, entry.2 ≠ [] → hasNull (fileOf entry) = false) :
  ∃ outcomes log, run m options { stops := fun _ => false, confirm } plan (w, s)
      = .ok outcomes ({ w with log }, s)
    ∧ outcomes.map Outcome.finding = findingsOf plan w
  := by
  induction plan generalizing w with
  | nil => exact ⟨[], w.log, rfl, rfl⟩
  | cons entry rest ih =>
      obtain ⟨hentry, hrest⟩ := List.forall_mem_cons.mp hnull
      by_cases hnil : entry.2 = []
      · obtain ⟨outcomes, log, hrun, hfindings⟩ := ih w hrest
        refine ⟨outcomes, log, ?_, ?_⟩
        · rw [run_cons]
          exact bind_eq_ok_iff.mpr ⟨[], (w, s), visit_of_nil rfl hnil,
            bind_eq_ok_iff.mpr ⟨outcomes, _, hrun, rfl⟩⟩
        · rw [hfindings, findingsOf_cons_of_nil hnil]
      · obtain ⟨o, log, hprune⟩ := exists_pruneFile_dryRun hdry (hentry hnil) m (namesOf entry) w
        obtain ⟨outcomes, log', hrun, hfindings⟩ := ih { w with log } hrest
        refine ⟨o :: outcomes, log', ?_, ?_⟩
        · rw [run_cons]
          refine bind_eq_ok_iff.mpr ⟨[o], _, visit_eq_ok_of_permits rfl hnil ?_ rfl hprune,
            bind_eq_ok_iff.mpr ⟨outcomes, _, hrun, rfl⟩⟩
          rw [permits_of_dryRun hdry]
          rfl
        · rw [List.map_cons, finding_of_pruneFile hprune, hfindings, findingsOf_cons_of_ne_nil hnil,
            findingsOf_congr fun e _ _ => text?_of_logs (fileOf e) ⟨log, rfl⟩]

/-! ### A live run -/

/-- Whether a path with double dots leads through no directory that has yet to be made for the
manifest. -/
def IsWayKept (m : BackupStore) (options : Options) (file : Path) (w : World) : Prop :=
  ".." ∈ file.names → ∀ place ∈ w.files.onTheWay file.parent, place ∈ madeFor m options w →
    w.files.get? place = some .directory

theorem IsWayKept.of_becomes {made : Set Place} (h : IsWayKept m options file w)
    (hw : w.Becomes touched made w') :
  IsWayKept m options file w'
  := by
  intro hdots place hplace hmade
  rw [Files.onTheWay_congr hw.files.here] at hplace
  rw [madeFor_congr hw.files.here] at hmade
  exact hw.files.stay place (h hdots place hplace hmade)

/-- A path that leads somewhere has done so before, if it does not lead through a directory that was
made on the way. -/
theorem IsWayKept.reaches (h : IsWayKept m options file w) (hdots : ".." ∈ file.names)
    (hw : w.Becomes touched (madeFor m options w) w') (hreach : w'.files.Reaches file) :
  w.files.Reaches file
  := by
  rw [Files.reaches_iff] at hreach ⊢
  obtain ⟨hsize, hsizes, hdirectories⟩ := hreach
  refine ⟨hsize, hsizes, ?_⟩
  intro names hinitial hne
  have hdirectory := hdirectories names hinitial hne
  rw [hw.placeOf] at hdirectory
  rcases hw.files.directory _ hdirectory with hdirectory | hmade
  · exact hdirectory
  · exact h hdots _ ⟨names, Files.isPrefix_dropLast hinitial hne, rfl⟩ hmade

/-- Pruning a stylesheet makes no difference to the text of another one. -/
theorem text?_of_pruneFile {other : Path} (tree : w.files.IsTree) (hother : other.IsStylesheet)
    (hfile : file.IsStylesheet) (hne : w.files.placeOf file ≠ w.files.placeOf other)
    (hkept : IsWayKept m options file w) (h : pruneFile m options other names w = .ok o w') :
  text? file w' = text? file w
  := by
  have hbecomes := (ending_of_pruneFile tree hother h).becomes tree hother.names_ne
  have hnot : w.files.placeOf file ∉ touchedFor m other w := by
    intro htouched
    rcases touchedFor_subset_insert m other w htouched with heq | hplace
    · exact hne heq
    · exact hplace (Files.isStylesheetAt_placeOf w.files hfile)
  apply text?_congr
  intro bytes
  apply holds_iff_of_becomes hbecomes hnot
  intro hholds
  by_cases hdots : ".." ∈ file.names
  · exact hkept.reaches hdots hbecomes hholds.reaches
  · exact reaches_of_holds tree hbecomes hnot hdots hholds

/-- The outcomes of a run say what there was to say of the removals at first. -/
theorem map_finding_of_run {ws : World × Unit} (tree : w.files.IsTree)
    (hfiles : ∀ entry ∈ plan, (fileOf entry).IsStylesheet) (hdistinct : IsDistinct plan w.files)
    (hkept : ∀ entry ∈ plan, entry.2 ≠ [] → IsWayKept m options (fileOf entry) w)
    (h : run m options unattended plan (w, ()) = .ok outcomes ws) :
  outcomes.map Outcome.finding = findingsOf plan w
    ∧ ∀ entry ∈ plan, entry.2 ≠ [] → hasNull (fileOf entry) = false
  := by
  induction plan generalizing w outcomes with
  | nil =>
      obtain ⟨rfl, -⟩ := EStateM.Result.ok.inj h
      refine ⟨rfl, ?_⟩
      rintro entry ⟨⟩
  | cons entry rest ih =>
      obtain ⟨hentry, hrest⟩ := List.forall_mem_cons.mp hfiles
      obtain ⟨hkeptEntry, hkeptRest⟩ := List.forall_mem_cons.mp hkept
      obtain ⟨hnotin, hdistinctRest⟩ := List.nodup_cons.mp hdistinct
      obtain ⟨first, others, ⟨w₁, ⟨⟩⟩, hvisit, hrun, rfl⟩ := run_cons_eq_ok h
      by_cases hnil : entry.2 = []
      · rw [visit_of_nil rfl hnil] at hvisit
        obtain ⟨rfl, heq⟩ := EStateM.Result.ok.inj hvisit
        obtain ⟨rfl, -⟩ := Prod.mk.inj heq
        obtain ⟨hfindings, hnull⟩ := ih tree hrest hdistinctRest hkeptRest hrun
        refine ⟨?_, List.forall_mem_cons.mpr ⟨fun hne => absurd hnil hne, hnull⟩⟩
        rw [List.nil_append, hfindings, findingsOf_cons_of_nil hnil]
      · rcases visit_cases m options unattended entry w () with ⟨hdeclined, -⟩ | ⟨-, -, hpruned⟩
        · exact absurd ⟨rfl, hnil, (), rfl⟩ hdeclined
        · obtain ⟨o, hprune, rfl⟩ := hpruned first _ hvisit
          have hbecomes := (ending_of_pruneFile tree hentry hprune).becomes tree hentry.names_ne
          have hdistinct₁ : IsDistinct rest w₁.files := by
            rw [IsDistinct]
            simp only [hbecomes.placeOf]
            exact hdistinctRest
          obtain ⟨hfindings, hnull⟩ := ih hbecomes.files.tree hrest hdistinct₁
            (fun e he hne => (hkeptRest e he hne).of_becomes hbecomes) hrun
          refine ⟨?_, List.forall_mem_cons.mpr ⟨fun _ => hasNull_of_pruneFile hprune, hnull⟩⟩
          -- the first visit leaves the texts of the other stylesheets as they are
          have hothers : findingsOf rest w₁ = findingsOf rest w := by
            apply findingsOf_congr
            intro e he hne
            apply text?_of_pruneFile tree hentry (hrest e he) _ (hkeptRest e he hne) hprune
            exact fun heq => hnotin (List.mem_map.mpr ⟨e, he, heq⟩)
          rw [List.singleton_append, List.map_cons, finding_of_pruneFile hprune, hfindings, hothers,
            findingsOf_cons_of_ne_nil hnil]

/-- A dry run changes nothing but the log and asks nobody, and it says of the removals of a plan what a
live run says that answers. -/
theorem predicts_run (m : BackupStore) (backups backups' : Bool) (plan : Plan) (w : World) :
  (∀ (supervisor : Supervisor σ) s,
      (∃ log, worldOf (run m ⟨true, backups⟩ supervisor plan (w, s)) = { w with log })
      ∧ run m ⟨true, backups⟩ supervisor plan (w, s)
        = run m ⟨true, backups⟩ { supervisor with confirm := none } plan (w, s))
    ∧ (w.files.IsTree → (∀ entry ∈ plan, (fileOf entry).IsStylesheet) → IsDistinct plan w.files →
      (∀ entry ∈ plan, entry.2 ≠ [] → IsWayKept m ⟨false, backups'⟩ (fileOf entry) w) →
      ∀ outcomes ws, run m ⟨false, backups'⟩ unattended plan (w, ()) = .ok outcomes ws →
        ∀ confirm (s : σ), ∃ predicted log,
          run m ⟨true, backups⟩ { stops := fun _ => false, confirm } plan (w, s)
            = .ok predicted ({ w with log }, s)
          ∧ predicted.map Outcome.finding = outcomes.map Outcome.finding)
  := by
  constructor
  · intro supervisor s
    refine ⟨worldOf_run_dryRun rfl m supervisor plan w s, ?_⟩
    rw [run_dryRun_eq rfl]
  · intro tree hfiles hdistinct hkept outcomes ws hlive confirm s
    obtain ⟨hfindings, hnull⟩ := map_finding_of_run tree hfiles hdistinct hkept hlive
    obtain ⟨predicted, log, hrun, hpredicted⟩ :=
      @exists_run_dryRun σ ⟨true, backups⟩ plan rfl m confirm w s hnull
    exact ⟨predicted, log, hrun, hpredicted.trans hfindings.symm⟩

/-- The removal of a name from a stylesheet of its own, one block. -/
def removalOf (name path : String) : Finding :=
  { file := Path.ofString path, removed := [name.toList], blocks := 1, changed := true }

/-- What the answer of a run says of the removals. -/
def findingsIn (answer : EStateM.Result Fault (World × Unit) (List Outcome)) : Option (List Finding) :=
  (answerOf answer).map fun outcomes => outcomes.map Outcome.finding

/-- Where the directory of the manifest is there at first, a stylesheet that is reached through it is
found by a dry run as well. -/
theorem predicts_run_through :
  let m := storeAt "m";
  let w := obstructed [["m"]];
  let plan := [removing "b" "b.css", removing "a" "m/../a.css"];
  w.files.IsTree ∧ (∀ entry ∈ plan, (fileOf entry).IsStylesheet) ∧ IsDistinct plan w.files
    ∧ (∀ entry ∈ plan, entry.2 ≠ [] → IsWayKept m ⟨false, true⟩ (fileOf entry) w)
    ∧ ∃ predicted log, run m ⟨true, true⟩ unattended plan (w, ()) = .ok predicted ({ w with log }, ())
      ∧ predicted.map Outcome.finding = [removalOf "b" "b.css", removalOf "a" "m/../a.css"]
  := by
  intro m w plan
  have tree : w.files.IsTree := by
    apply Files.IsTree.put isTree_twoSheets
    all_goals decide
  have hdecided : (∀ entry ∈ plan, (fileOf entry).IsStylesheet) ∧ IsDistinct plan w.files
      ∧ findingsIn (run m ⟨false, true⟩ unattended plan (w, ()))
        = some [removalOf "b" "b.css", removalOf "a" "m/../a.css"] := by
    decide +kernel
  obtain ⟨hfiles, hdistinct, hlive⟩ := hdecided
  have hkept : ∀ entry ∈ plan, entry.2 ≠ [] → IsWayKept m ⟨false, true⟩ (fileOf entry) w := by
    rintro entry hentry - hdots place ⟨names, hinitial, rfl⟩ -
    have hall : ∀ entry ∈ plan, ".." ∈ (fileOf entry).names →
        ∀ names ∈ (fileOf entry).parent.names.inits,
          w.files.get? (w.files.placeOf { (fileOf entry).parent with names }) = some .directory := by
      decide +kernel
    exact hall entry hentry hdots names (List.mem_inits _ _ |>.mpr hinitial)
  refine ⟨tree, hfiles, hdistinct, hkept, ?_⟩
  cases hrun : run m ⟨false, true⟩ unattended plan (w, ()) with
  | error fault ws =>
      rw [hrun] at hlive
      cases hlive
  | ok outcomes ws =>
      rw [hrun] at hlive
      obtain ⟨predicted, log, hdry, hsame⟩ :=
        (predicts_run m true true plan w).2 tree hfiles hdistinct hkept outcomes ws hrun none ()
      exact ⟨predicted, log, hdry, hsame.trans (Option.some.inj hlive)⟩

/-- A dry run does not find a stylesheet that is reached through the directory of the manifest, where
that has yet to be made; but the live run does, which makes it before. -/
theorem not_predicts_run :
  let m := storeAt "m";
  let plan := [removing "b" "b.css", removing "a" "m/../a.css"];
  twoSheets.files.IsTree ∧ (∀ entry ∈ plan, (fileOf entry).IsStylesheet)
    ∧ IsDistinct plan twoSheets.files
    ∧ findingsIn (run m ⟨true, true⟩ unattended plan (twoSheets, ()))
      = some [removalOf "b" "b.css", { file := Path.ofString "m/../a.css" }]
    ∧ findingsIn (run m ⟨false, true⟩ unattended plan (twoSheets, ()))
      = some [removalOf "b" "b.css", removalOf "a" "m/../a.css"]
  := by
  refine ⟨isTree_twoSheets, ?_⟩
  decide +kernel

end Plan

end StylePrune.Prune
