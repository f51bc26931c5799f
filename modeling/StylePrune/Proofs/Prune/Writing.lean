import StylePrune.Proofs.Backup.Restoring
import StylePrune.Prune.Plan

/-!
# Changing a stylesheet

A stylesheet that is read is left as it is, or changed (`pruneFile_cases`).  The change goes through
(`Plan.GoesThrough`) if the copy is taken, where one is to be, and the new text is written; then the
stylesheet has the new text.  Otherwise it has the contents it had, whatever else fails.
-/

namespace StylePrune.Prune

open Job

variable {w w' : World} {file : Path} {t : Text} {touched made : Set Place} {fault : Fault}

/-! ### Writing a text in the place of a file -/

/-- The path at which the new text is written before it takes the place of the old one. -/
def draftPath (file : Path) : Path := file.besides ".stylesweep.tmp"

/-- Writing the draft and giving it the name of the file. -/
def drafting (file : Path) (t : Text) : Job Unit :=
  Job.writeText (draftPath file) t >>= fun _ => Job.rename (draftPath file) file

/-- What is done when the draft could not be written or renamed. -/
def discard (file : Path) : Fault → Job Unit
  | .system error => do
    Job.removeIfPresent (draftPath file)
    throw (.system error)
  | fault => throw fault

theorem writeInPlace_apply (hfile : file.names ≠ []) (t : Text) (w : World) :
  writeInPlace file t w = tryCatch (drafting file t) (discard file) w
  := by
  rw [writeInPlace, bind_of_ok (withName_apply hfile _ w)]
  rfl

theorem placeOf_draftPath_mem (fs : Files) (file : Path) :
  fs.placeOf (draftPath file) ∈ Files.temporaries
  := fs.placeOf_besides_mem_temporaries file (.inr rfl)

theorem writeInPlace_eq_ok_iff (hfile : file.names ≠ []) :
  writeInPlace file t w = .ok () w' ↔ drafting file t w = .ok () w'
  := by
  rw [writeInPlace_apply hfile, tryCatch_eq_ok_iff, or_iff_left]
  rintro ⟨fault, w₁, -, hdiscard⟩
  cases fault with
  | system error =>
      obtain ⟨_, w₂, -, hthrow⟩ := bind_eq_ok_iff.mp hdiscard
      cases hthrow
  | _ => cases hdiscard

/-- A text that was written is in the file. -/
theorem of_writeInPlace (tree : w.files.IsTree) (hfile : file.names ≠ [])
    (h : writeInPlace file t w = .ok () w') :
  w'.Holds file (Text.Utf8.encode t)
    ∧ w.Becomes (insert (w.files.placeOf file) Files.temporaries) ∅ w'
  := by
  rw [writeInPlace_eq_ok_iff hfile] at h
  constructor
  · exact holds_of_writeBytes_rename tree h
  · apply (within_writeBytes_rename tree _ _).of_ok h
    · exact Set.mem_insert_of_mem _ (placeOf_draftPath_mem w.files file)
    · exact Set.mem_insert _ _

theorem within_discard (tree : w.files.IsTree) (fault : Fault) :
  Within Files.temporaries ∅ (discard file fault) w
  := by
  rw [discard.eq_def]
  split
  · apply Within.bind (within_removeIfPresent tree (placeOf_draftPath_mem w.files file))
    rintro _ w₁ - h₁
    exact .throw h₁.files.tree _
  · exact .throw tree _

/-- Where a text could not be written, the file is as it was. -/
theorem becomes_of_writeInPlace_eq_error (tree : w.files.IsTree) (hfile : file.names ≠ [])
    (h : writeInPlace file t w = .error fault w') :
  w.Becomes Files.temporaries ∅ w'
  := by
  rw [writeInPlace_apply hfile] at h
  obtain ⟨fault₁, w₁, hdrafting, hdiscard⟩ := tryCatch_eq_error_iff.mp h
  have hwrite : Within Files.temporaries ∅ (Job.writeText (draftPath file) t) w :=
    within_writeBytes tree (placeOf_draftPath_mem w.files file)
  have h₁ : w.Becomes Files.temporaries ∅ w₁ := by
    rcases bind_eq_error_iff.mp hdrafting with hwritten | ⟨_, w₂, hwritten, hrename⟩
    · exact hwrite.of_error hwritten
    · obtain rfl := eq_of_rename_eq_error hrename
      exact hwrite.of_ok hwritten
  exact h₁.trans ((within_discard h₁.files.tree fault₁).of_error hdiscard)

namespace Plan

/-! ### Changing a stylesheet that was read -/

variable {m : BackupStore} {options : Options} {names : List Text} {outcome : Outcome}
    {bytes : List UInt8}

/-- The outcome for a stylesheet that was read, before it is changed. -/
def outcomeOf (options : Options) (file : Path) (names : List Text) (t : Text) : Outcome :=
  { file, dryRun := options.dryRun, removed := (remove t names).removed
    blocks := (remove t names).blocks, anomalies := (remove t names).anomalies
    changed := (remove t names).text != t }

/-- Changing a stylesheet that was read: copying it aside, if this is to be done, and writing. -/
def changing (m : BackupStore) (options : Options) (outcome : Outcome) (t : Text) : Job Outcome :=
  if options.createBackup then
    tryBackup m outcome.file >>= fun
      | .error fault => fail outcome "backup" (.notBackedUp fault)
      | .ok copy => replace m { outcome with backup := some copy } t
  else replace m outcome t

theorem fail_apply (outcome : Outcome) (category : String) (error : PruneError) (w : World) :
  ∃ log, fail outcome category error w
    = .ok { outcome with error := some error } { w with log }
  := ⟨_, rfl⟩

theorem exists_log (file : Path) (anomalies : List Anomaly) (rest : Job Outcome) (w : World) :
  ∃ log, (forIn anomalies PUnit.unit (fun anomaly _ => do
      Job.warn "parse" anomaly.message (some file)
      pure (ForInStep.yield PUnit.unit)) >>= fun _ => rest) w = rest { w with log }
  := by
  induction anomalies generalizing w with
  | nil => exact ⟨w.log, rfl⟩
  | cons anomaly anomalies ih =>
      obtain ⟨log, hlog⟩ := ih
        { w with log := w.log ++ [⟨"parse", anomaly.message, some file⟩] }
      use log
      rw [List.forIn_cons, bind_assoc, bind_assoc]
      exact hlog

theorem readStylesheet_of_readText (h : readText file w = .ok t w) :
  readStylesheet file w = .ok (.ok t) w
  := by
  simp only [readStylesheet, bind, EStateM.bind, tryCatch, tryCatchThe,
    MonadExceptOf.tryCatch, EStateM.tryCatch, h]
  rfl

/-- What is done with a stylesheet that was read. -/
theorem pruneFile_of_readText (m : BackupStore) (options : Options) (names : List Text)
    (h : readText file w = .ok t w) :
  ∃ log, pruneFile m options file names w
    = if (remove t names).text = t ∨ options.dryRun = true then
        .ok (outcomeOf options file names t) { w with log }
      else changing m options (outcomeOf options file names t) (remove t names).text
        { w with log }
  := by
  have hread := readStylesheet_of_readText h
  obtain ⟨log, hlog⟩ := exists_log file (remove t names).anomalies
    (if !((remove t names).text != t) || options.dryRun then
        pure (outcomeOf options file names t)
      else changing m options (outcomeOf options file names t) (remove t names).text) w
  use log
  rw [pruneFile, bind_of_ok hread]
  refine Eq.trans ?_ (hlog.trans ?_)
  · rfl
  · by_cases hsame : (remove t names).text = t
    · simp [hsame]
      rfl
    · cases options.dryRun
      · simp [hsame]
      · simp
        rfl

theorem readStylesheet_of_readText_eq_error (h : readText file w = .error fault w') :
  readStylesheet file w = match fault with
    | .system error => .ok (.error error.message) w'
    | .undecodable fault => .ok (.error fault.message) w'
    | fault => .error fault w'
  := by
  simp only [readStylesheet, bind, EStateM.bind, tryCatch, tryCatchThe,
    MonadExceptOf.tryCatch, EStateM.tryCatch, h]
  cases fault <;> rfl

/-- What becomes of a stylesheet that cannot be read. -/
theorem pruneFile_of_readText_eq_error (m : BackupStore) (options : Options) (names : List Text)
    (h : readText file w = .error fault w') :
  (hasNull file = false
      ∧ ∃ error log, pruneFile m options file names w
        = .ok { file, dryRun := options.dryRun, error := some error } { w with log })
    ∨ hasNull file = true ∧ pruneFile m options file names w = .error fault w
  := by
  obtain ⟨rfl, hfault⟩ := readText_eq_error h
  have hread := readStylesheet_of_readText_eq_error h
  rw [pruneFile]
  change (_ ∧ ∃ error log, EStateM.bind (readStylesheet file) _ w' = _)
    ∨ _ ∧ EStateM.bind (readStylesheet file) _ w' = _
  rcases hfault with ⟨error, rfl, hnull⟩ | ⟨rfl, hnull⟩ | ⟨bytes, cause, hholds, _, rfl⟩
  · rw [EStateM.bind, hread]
    exact .inl ⟨hnull, _, _, rfl⟩
  · rw [EStateM.bind, hread]
    exact .inr ⟨hnull, rfl⟩
  · rw [EStateM.bind, hread]
    exact .inl ⟨hholds.noNull, _, _, rfl⟩

/-! ### Taking copies and putting them back -/

theorem tryBackup_apply (m : BackupStore) (file : Path) (w : World) :
  tryBackup m file w
    = match m.take file w with
      | .ok copy w' => .ok (.ok copy) w'
      | .error (.backup cause) w' => .ok (.error cause) w'
      | .error fault w' => .error fault w'
  := by
  cases h : m.take file w with
  | ok copy w' =>
      simp only [tryBackup, bind, EStateM.bind, tryCatch, tryCatchThe, MonadExceptOf.tryCatch,
        EStateM.tryCatch, h]
      rfl
  | error fault w' =>
      simp only [tryBackup, bind, EStateM.bind, tryCatch, tryCatchThe, MonadExceptOf.tryCatch,
        EStateM.tryCatch, h]
      cases fault <;> rfl

theorem tryRollback_apply (m : BackupStore) (copy : Backup) (w : World) :
  tryRollback m (some copy) w
    = match m.rollback copy w with
      | .ok _ w' => .ok none w'
      | .error (.backup cause) w' => .ok (some cause) w'
      | .error fault w' => .error fault w'
  := by
  cases h : m.rollback copy w with
  | ok _ w' =>
      simp only [tryRollback, bind, EStateM.bind, tryCatch, tryCatchThe, MonadExceptOf.tryCatch,
        EStateM.tryCatch, h]
      rfl
  | error fault w' =>
      simp only [tryRollback, bind, EStateM.bind, tryCatch, tryCatchThe, MonadExceptOf.tryCatch,
        EStateM.tryCatch, h]
      cases fault <;> rfl

theorem replace_apply (m : BackupStore) (outcome : Outcome) (t : Text) (w : World) :
  replace m outcome t w
    = match writeInPlace outcome.file t w with
      | .ok _ w' => .ok { outcome with written := true } w'
      | .error (.system error) w' =>
        (tryRollback m outcome.backup >>= fun problem =>
          fail outcome "write" (.notWritten error problem)) w'
      | .error fault w' => .error fault w'
  := by
  cases h : writeInPlace outcome.file t w with
  | ok _ w' =>
      simp only [replace, bind, EStateM.bind, tryCatch, tryCatchThe, MonadExceptOf.tryCatch,
        EStateM.tryCatch, h]
      rfl
  | error fault w' =>
      simp only [replace, bind, EStateM.bind, tryCatch, tryCatchThe, MonadExceptOf.tryCatch,
        EStateM.tryCatch, h]
      cases fault <;> rfl

/-- A replacement only notes on an outcome that it was written, or that something went wrong. -/
theorem exists_of_replace {o : Outcome} (h : replace m outcome t w = .ok o w') :
  ∃ written error, o = { outcome with written, error }
  := by
  rw [replace_apply] at h
  cases hwrite : writeInPlace outcome.file t w with
  | ok _ w₁ =>
      rw [hwrite] at h
      obtain ⟨rfl, -⟩ := EStateM.Result.ok.inj h
      exact ⟨true, outcome.error, rfl⟩
  | error fault w₁ =>
      rw [hwrite] at h
      cases fault with
      | system error =>
          obtain ⟨problem, w₂, -, hfail⟩ := bind_eq_ok_iff.mp h
          obtain ⟨rfl, -⟩ := EStateM.Result.ok.inj hfail
          exact ⟨outcome.written, some (.notWritten error problem), rfl⟩
      | _ => cases h

/-! ### What a stylesheet has in the end -/

open BackupStore

theorem within_fail (tree : w.files.IsTree) (outcome : Outcome) (category : String)
    (error : PruneError) :
  Within touched made (fail outcome category error) w
  := by
  obtain ⟨log, hlog⟩ := fail_apply outcome category error w
  rw [Within, hlog]
  exact .of_log tree log

/-- Whether a copy that there may be is one of a stylesheet as it is. -/
def KeptBy (copy : Option Backup) (file : Path) (w : World) : Prop :=
  ∀ b, copy = some b → ∃ bytes, Keeps b file bytes w

theorem within_tryRollback (tree : w.files.IsTree) (hfile : file.IsStylesheet)
    {copy : Option Backup} (hkept : KeptBy copy file w) :
  Within Files.otherPlaces Set.univ (tryRollback m copy) w
  := by
  cases copy with
  | none => exact .pure tree none
  | some b =>
      obtain ⟨bytes, hkeeps⟩ := hkept b rfl
      have hwithin : Within Files.otherPlaces Set.univ (m.rollback b) w :=
        within_rollback tree hfile hkeeps
      rw [Within, tryRollback_apply]
      cases hrollback : m.rollback b w with
      | ok _ w₁ => exact hwithin.of_ok hrollback
      | error fault w₁ =>
          have h₁ := hwithin.of_error hrollback
          cases fault <;> exact h₁

theorem KeptBy.of_becomes {copy : Option Backup} (hfile : file.IsStylesheet)
    (hkept : KeptBy copy file w) (hw : w.Becomes Files.temporaries made w') :
  KeptBy copy file w'
  := by
  intro b hb
  obtain ⟨bytes, hkeeps⟩ := hkept b hb
  refine ⟨bytes, hkeeps.of_becomes hw ?_ ?_⟩
  · intro htemporary
    exact not_isStylesheetAt_of_mem_temporaries htemporary
      (Files.isStylesheetAt_placeOf w.files hfile)
  · intro htemporary
    have hsuffix : Files.suffixAt _ = Files.temporarySuffix := htemporary
    rw [suffixAt_of_keeps hkeeps] at hsuffix
    exact absurd hsuffix (by decide)

/-- A stylesheet is written and its outcome says so, or all stylesheets are as they were. -/
theorem replace_cases (tree : w.files.IsTree) (hfile : outcome.file.IsStylesheet)
    (hkept : KeptBy outcome.backup outcome.file w) (t : Text) :
  (∃ w', writeInPlace outcome.file t w = .ok () w'
      ∧ replace m outcome t w = .ok { outcome with written := true } w')
    ∨ (∀ w', writeInPlace outcome.file t w ≠ .ok () w')
      ∧ Within Files.otherPlaces Set.univ (replace m outcome t) w
      ∧ ∀ o w', replace m outcome t w = .ok o w' →
        ∃ error, o = { outcome with error := some error }
  := by
  rw [Within, replace_apply]
  cases hwrite : writeInPlace outcome.file t w with
  | ok _ w₁ => exact .inl ⟨w₁, rfl, rfl⟩
  | error fault w₁ =>
      refine .inr ⟨by rintro w' ⟨⟩, ?_⟩
      have hdraft := becomes_of_writeInPlace_eq_error tree hfile.names_ne hwrite
      have h₁ := hdraft.mono temporaries_subset_otherPlaces (Set.empty_subset Set.univ)
      cases fault with
      | system error =>
          have hwithin : Within Files.otherPlaces Set.univ (tryRollback m outcome.backup
              >>= fun problem => fail outcome "write" (.notWritten error problem)) w₁ := by
            apply Within.bind (within_tryRollback h₁.files.tree hfile (hkept.of_becomes hfile hdraft))
            rintro problem w₂ - h₂
            exact within_fail h₂.files.tree _ _ _
          refine ⟨h₁.trans hwithin, ?_⟩
          intro o w' hok
          obtain ⟨problem, w₂, -, hfail⟩ := bind_eq_ok_iff.mp hok
          cases hfail
          exact ⟨_, rfl⟩
      | _ =>
          refine ⟨h₁, ?_⟩
          rintro o w' ⟨⟩

/-! ### Whether a change goes through -/

/-- Whether a stylesheet is ready to be written, its copy taken if one is to be. -/
def Prepares (m : BackupStore) (options : Options) (file : Path) (w : World) (copy : Option Backup)
    (w' : World) : Prop :=
  if options.createBackup then ∃ b, copy = some b ∧ m.take file w = .ok b w'
  else copy = none ∧ w' = w

/-- Whether a change of a stylesheet goes through: it is made ready, and the new text is written. -/
def GoesThrough (m : BackupStore) (options : Options) (file : Path) (t : Text) (w : World) : Prop :=
  ∃ copy w₁, Prepares m options file w copy w₁ ∧ ∃ w', writeInPlace file t w₁ = .ok () w'

variable {copy : Option Backup}

theorem Prepares.unique {copy' : Option Backup} {w'' : World}
    (h : Prepares m options file w copy w') (h' : Prepares m options file w copy' w'') :
  copy' = copy ∧ w'' = w'
  := by
  rw [Prepares] at h h'
  split at h
  · next hcreate =>
    rw [if_pos hcreate] at h'
    obtain ⟨b, rfl, htake⟩ := h
    obtain ⟨b', rfl, htake'⟩ := h'
    rw [htake] at htake'
    obtain ⟨rfl, rfl⟩ := EStateM.Result.ok.inj htake'
    exact ⟨rfl, rfl⟩
  · next hcreate =>
    rw [if_neg hcreate] at h'
    obtain ⟨rfl, rfl⟩ := h
    exact h'

/-- A stylesheet is made ready unless a copy is to be taken and cannot be. -/
theorem exists_prepares_or (m : BackupStore) (options : Options) (file : Path) (w : World) :
  (∃ copy w', Prepares m options file w copy w')
    ∨ options.createBackup = true ∧ ∃ fault w', m.take file w = .error fault w'
  := by
  by_cases hcreate : options.createBackup = true
  · cases htake : m.take file w with
    | ok b w' =>
        refine .inl ⟨some b, w', ?_⟩
        rw [Prepares, if_pos hcreate]
        exact ⟨b, rfl, htake⟩
    | error fault w' => exact .inr ⟨hcreate, fault, w', rfl⟩
  · refine .inl ⟨none, w, ?_⟩
    rw [Prepares, if_neg hcreate]
    exact ⟨rfl, rfl⟩

/-- What a backup touches, the manifest and free places, are no stylesheets. -/
theorem within_take_otherPlaces (tree : w.files.IsTree) (hfile : file.names ≠ []) :
  Within Files.otherPlaces Set.univ (m.take file) w
  := by
  apply within_take tree hfile _ _ (Set.subset_univ _)
  · intro place hplace
    exact Files.not_isStylesheetAt_of_suffixAt (suffixAt_of_mem_spare hplace) (by decide)
  · intro place hplace
    exact not_isStylesheetAt_of_mem_ledger hplace

theorem Prepares.becomes (h : Prepares m options file w copy w') (tree : w.files.IsTree)
    (hfile : file.names ≠ []) :
  w.Becomes Files.otherPlaces Set.univ w'
  := by
  rw [Prepares] at h
  split at h
  · obtain ⟨b, -, htake⟩ := h
    exact (within_take_otherPlaces tree hfile).of_ok htake
  · obtain ⟨-, rfl⟩ := h
    exact .refl tree

theorem Prepares.keptBy (h : Prepares m options file w copy w') (tree : w.files.IsTree)
    (hfile : file.IsStylesheet) :
  KeptBy copy file w'
  := by
  rw [Prepares] at h
  split at h
  · obtain ⟨b, rfl, htake⟩ := h
    rintro b' hb'
    obtain rfl := Option.some.inj hb'
    obtain ⟨bytes, -, hkeeps⟩ := exists_keeps_of_take tree hfile htake
    exact ⟨bytes, hkeeps⟩
  · obtain ⟨rfl, -⟩ := h
    rintro b ⟨⟩

theorem changing_of_prepares (h : Prepares m options outcome.file w copy w')
    (hbackup : outcome.backup = none) (t : Text) :
  changing m options outcome t w = replace m { outcome with backup := copy } t w'
  := by
  rw [Prepares] at h
  rw [changing]
  split at h
  · next hcreate =>
    obtain ⟨b, rfl, htake⟩ := h
    rw [if_pos hcreate]
    change EStateM.bind (tryBackup m outcome.file) _ w = _
    rw [EStateM.bind, tryBackup_apply, htake]
  · next hcreate =>
    obtain ⟨rfl, rfl⟩ := h
    rw [if_neg hcreate, ← hbackup]

theorem changing_of_take_eq_error (hcreate : options.createBackup = true)
    (h : m.take outcome.file w = .error fault w') (t : Text) :
  (∃ cause, fault = .backup cause
      ∧ changing m options outcome t w = fail outcome "backup" (.notBackedUp cause) w')
    ∨ (∀ cause, fault ≠ .backup cause) ∧ changing m options outcome t w = .error fault w'
  := by
  rw [changing, if_pos hcreate]
  change (∃ cause, fault = .backup cause ∧ EStateM.bind (tryBackup m outcome.file) _ w = _)
    ∨ _ ∧ EStateM.bind (tryBackup m outcome.file) _ w = _
  rw [EStateM.bind, tryBackup_apply, h]
  cases fault with
  | backup cause => exact .inl ⟨cause, rfl, rfl⟩
  | _ => exact .inr ⟨by rintro cause ⟨⟩, rfl⟩

/-- Changing a stylesheet: it has the new text and its outcome says so, or all stylesheets are as they
were. -/
theorem changing_cases (tree : w.files.IsTree) (hfile : outcome.file.IsStylesheet)
    (hbackup : outcome.backup = none) (hwritten : outcome.written = false) (t : Text) :
  (GoesThrough m options outcome.file t w
      ∧ ∃ o w', changing m options outcome t w = .ok o w' ∧ o.file = outcome.file ∧ o.written = true
        ∧ w'.Holds outcome.file (Text.Utf8.encode t)
        ∧ w.Becomes (insert (w.files.placeOf outcome.file) Files.otherPlaces) Set.univ w')
    ∨ ¬ GoesThrough m options outcome.file t w
      ∧ Within Files.otherPlaces Set.univ (changing m options outcome t) w
      ∧ ∀ o w', changing m options outcome t w = .ok o w' →
        o.file = outcome.file ∧ o.written = false
  := by
  rcases exists_prepares_or m options outcome.file w with
    ⟨copy, w₁, hprepares⟩ | ⟨hcreate, fault, w₁, htake⟩
  · have h₁ := hprepares.becomes tree hfile.names_ne
    have hkept := hprepares.keptBy tree hfile
    rw [Within, changing_of_prepares hprepares hbackup]
    rcases @replace_cases w₁ m { outcome with backup := copy } h₁.files.tree hfile hkept t with
      ⟨w₂, hwrite, hreplace⟩ | ⟨hwrite, hreplace, hoks⟩
    · obtain ⟨hheld, h₂⟩ := of_writeInPlace h₁.files.tree hfile.names_ne hwrite
      rw [h₁.placeOf] at h₂
      refine .inl ⟨⟨copy, w₁, hprepares, w₂, hwrite⟩, _, w₂, hreplace, rfl, rfl, hheld, ?_⟩
      apply (h₁.mono (Set.subset_insert _ _) (Set.Subset.refl _)).trans
      exact h₂.mono (Set.insert_subset_insert temporaries_subset_otherPlaces) (Set.empty_subset _)
    · refine .inr ⟨?_, h₁.trans hreplace, ?_⟩
      · rintro ⟨copy', w₁', hprepares', w₂, hwrite'⟩
        obtain ⟨-, rfl⟩ := hprepares.unique hprepares'
        exact hwrite w₂ hwrite'
      · intro o w' hok
        obtain ⟨error, rfl⟩ := hoks o w' hok
        exact ⟨rfl, hwritten⟩
  · have h₁ : w.Becomes Files.otherPlaces Set.univ w₁ :=
      (within_take_otherPlaces tree hfile.names_ne).of_error htake
    refine .inr ⟨?_, ?_⟩
    · rintro ⟨copy, w₂, hprepares, -⟩
      rw [Prepares, if_pos hcreate] at hprepares
      obtain ⟨b, -, htake'⟩ := hprepares
      rw [htake] at htake'
      cases htake'
    · rcases changing_of_take_eq_error hcreate htake t with ⟨cause, rfl, hfail⟩ | ⟨-, hraise⟩
      · rw [Within, hfail]
        refine ⟨h₁.trans (within_fail h₁.files.tree _ _ _), ?_⟩
        rintro o w' hok
        cases hok
        exact ⟨rfl, hwritten⟩
      · rw [Within, hraise]
        refine ⟨h₁, ?_⟩
        rintro o w' ⟨⟩

/-! ### Pruning -/

/-- Whether a stylesheet is written when it is pruned: in a live run, if its text is not the same
afterwards and the change goes through. -/
def IsWritten (m : BackupStore) (options : Options) (file : Path) (names : List Text) (t : Text)
    (w : World) : Prop :=
  options.dryRun = false ∧ readText file w = .ok t w ∧ (remove t names).text ≠ t
    ∧ ∃ log, GoesThrough m options file (remove t names).text { w with log }

/-- Pruning a stylesheet: it has the new text and its outcome says so, or all stylesheets are as they
were. -/
theorem pruneFile_cases (tree : w.files.IsTree) (hfile : file.IsStylesheet) :
  (∃ t o w', IsWritten m options file names t w ∧ pruneFile m options file names w = .ok o w'
      ∧ o.file = file ∧ o.written = true
      ∧ w'.Holds file (Text.Utf8.encode (remove t names).text)
      ∧ w.Becomes (insert (w.files.placeOf file) Files.otherPlaces) Set.univ w')
    ∨ (∀ t, options.dryRun = false → readText file w = .ok t w → (remove t names).text ≠ t →
        ∃ log, ¬ GoesThrough m options file (remove t names).text { w with log }
          ∧ pruneFile m options file names w
            = changing m options (outcomeOf options file names t) (remove t names).text
              { w with log })
      ∧ Within Files.otherPlaces Set.univ (pruneFile m options file names) w
      ∧ ∀ o w', pruneFile m options file names w = .ok o w' → o.file = file ∧ o.written = false
  := by
  cases hread : readText file w with
  | error fault w₁ =>
      refine .inr ⟨by rintro t - ⟨⟩, ?_⟩
      rcases pruneFile_of_readText_eq_error m options names hread with
        ⟨-, error, log, hprune⟩ | ⟨-, hprune⟩
      · rw [Within, hprune]
        refine ⟨.of_log tree log, ?_⟩
        rintro o w' ⟨⟩
        exact ⟨rfl, rfl⟩
      · rw [Within, hprune]
        refine ⟨.refl tree, ?_⟩
        rintro o w' ⟨⟩
  | ok t w₁ =>
      obtain ⟨-, -, -, rfl⟩ := readText_eq_ok_iff.mp hread
      obtain ⟨log, hprune⟩ := pruneFile_of_readText m options names hread
      rw [Within, hprune]
      split
      · next hkept =>
        refine .inr ⟨?_, .of_log tree log, ?_⟩
        · intro t' hlive ht' hne
          obtain ⟨rfl, -⟩ := EStateM.Result.ok.inj ht'
          rcases hkept with hsame | hdry
          · exact absurd hsame hne
          · rw [hlive] at hdry
            cases hdry
        · rintro o w' ⟨⟩
          exact ⟨rfl, rfl⟩
      · next hchanged =>
        obtain ⟨hne, hdry⟩ := not_or.mp hchanged
        have hlive : options.dryRun = false := Bool.eq_false_iff.mpr hdry
        have hlog : w₁.Becomes Files.otherPlaces Set.univ { w₁ with log } := .of_log tree log
        rcases @changing_cases { w₁ with log } m options (outcomeOf options file names t) tree hfile
          rfl rfl (remove t names).text with
          ⟨hgoes, o, w', hchanging, hoFile, hoWritten, hheld, hbecomes⟩ | ⟨hgoes, hwithin, hoks⟩
        · refine .inl ⟨t, o, w', ⟨hlive, hread, hne, log, hgoes⟩, hchanging, hoFile, hoWritten, hheld, ?_⟩
          exact (hlog.mono (Set.subset_insert _ _) (Set.Subset.refl _)).trans hbecomes
        · refine .inr ⟨?_, hlog.trans hwithin, hoks⟩
          intro t' _ ht' _
          obtain ⟨rfl, -⟩ := EStateM.Result.ok.inj ht'
          exact ⟨log, hgoes, rfl⟩

/-- What an outcome says: it is about the stylesheet, and if that was not written, all stylesheets are as
they were.  A stylesheet does not go away. -/
theorem of_pruneFile_eq_ok (tree : w.files.IsTree) (hfile : file.IsStylesheet) {o : Outcome}
    (h : pruneFile m options file names w = .ok o w') :
  o.file = file ∧ (o.written = false → w.Becomes Files.otherPlaces Set.univ w')
    ∧ w.Becomes (insert (w.files.placeOf file) Files.otherPlaces) Set.univ w'
    ∧ (w.files.bytesAt? (w.files.placeOf file) ≠ none →
      w'.files.bytesAt? (w.files.placeOf file) ≠ none)
  := by
  rcases @pruneFile_cases w file m options names tree hfile with
    ⟨t, o', w₁, -, hprune, hoFile, hoWritten, hheld, hbecomes⟩ | ⟨-, hwithin, hoks⟩
  · rw [h] at hprune
    obtain ⟨rfl, rfl⟩ := EStateM.Result.ok.inj hprune
    refine ⟨hoFile, ?_, hbecomes, ?_⟩
    · intro hnot
      rw [hoWritten] at hnot
      cases hnot
    · intro _
      rw [← hbecomes.placeOf, hheld.bytes]
      rintro ⟨⟩
  · have hbecomes := hwithin.of_ok h
    refine ⟨(hoks o w' h).1, fun _ => hbecomes,
      hbecomes.mono (Set.subset_insert _ _) (Set.Subset.refl _), ?_⟩
    rw [hbecomes.files.bytes _ fun hother => hother (Files.isStylesheetAt_placeOf w.files hfile)]
    exact id

end Plan

end StylePrune.Prune
