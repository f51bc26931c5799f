import StylePrune.Proofs.Backup.Answering
import StylePrune.Proofs.Prune.AllOrNothing

/-!
# Pruning answers

What goes wrong with a stylesheet is reported on its outcome (`Plan.exists_answer`), and the others
are pruned all the same (`Plan.exists_run`), where the manifest is legible and there is room for the
names of copies; and where a directory keeps the new text from being written, none may keep the copy
from being put back, and each record has to have an identifier.  Without all that pruning can end with
a fault (`Plan.not_exists_answer`).
-/

namespace StylePrune.Prune

open Job BackupStore

variable {m : BackupStore} {options : Options} {file : Path} {names : List Text} {outcome o : Outcome}
    {t : Text} {b : Backup} {fault : Fault} {bytes : List UInt8} {w w' w₁ w₂ : World}

/-! ### Writing -/

theorem failsByCalls_drafting {null : Prop} (hfile : hasNull file = true → null) (t : Text) :
  FailsByCalls null (drafting file t)
  := by
  have hdraft : hasNull (draftPath file) = true → null := fun h =>
    hfile (hasNull_of_imp Plan.hasNull_draftPath h)
  exact FailsByCalls.bind (.writeText t hdraft) fun _ => .rename hdraft hfile

/-- A text that could not be written is one that a call failed for. -/
theorem exists_system_of_writeInPlace (hfile : file.names ≠ []) (hnull : hasNull file = false)
    (h : writeInPlace file t w = .error fault w') :
  ∃ error, fault = .system error
  := by
  have hcalls : ∀ {p : Path}, hasNull p = false → hasNull p = true → False := by
    intro p hp hp'
    rw [hp] at hp'
    cases hp'
  rw [writeInPlace_apply hfile] at h
  obtain ⟨fault₁, w₁, hdrafting, hdiscard⟩ := tryCatch_eq_error_iff.mp h
  obtain ⟨error, rfl⟩ := (failsByCalls_drafting (hcalls hnull) t).exists_system hdrafting
  rcases bind_eq_error_iff.mp hdiscard with hremove | ⟨_, w₂, -, hthrow⟩
  · exact (FailsByCalls.change _ (hcalls (Plan.hasNull_draftPath hnull))).exists_system hremove
  · obtain ⟨rfl, -⟩ := EStateM.Result.error.inj hthrow
    exact ⟨error, rfl⟩

/-- A text is written unless a directory has the place of its draft or of the file. -/
theorem exists_writeInPlace (tree : w.files.IsTree) (hnull : hasNull file = false)
    (hreach : w.files.Reaches file) (hname : Files.endsWithName file = true)
    (hfile : w.files.get? (w.files.placeOf file) ≠ some .directory)
    (hdraft : w.files.Reaches (draftPath file))
    (hclear : w.files.get? (w.files.placeOf (draftPath file)) ≠ some .directory) (t : Text) :
  ∃ w', writeInPlace file t w = .ok () w'
  := by
  have hnames : file.names ≠ [] := by
    intro hnil
    rw [Files.endsWithName, hnil] at hname
    cases hname
  obtain ⟨w', h⟩ := (exists_writeBytes_rename_iff tree (Text.Utf8.encode t)).mpr
    ⟨⟨Plan.hasNull_draftPath hnull, hdraft, hclear, endsWithName_child _ (Files.temporaryName_ne _ (.inr rfl))⟩,
      hnull, hreach, hfile, hname⟩
  exact ⟨w', (writeInPlace_eq_ok_iff hnames).mpr h⟩

namespace Plan

/-! ### What pruning needs to answer -/

/-- Whether a directory has a place, or may be made there for the manifest. -/
def IsOccupied (m : BackupStore) (w : World) (place : Place) : Prop :=
  w.files.get? place = some .directory ∨ place ∈ m.ledgerWay w

/-- What pruning needs to answer, where a copy is taken first: room for the name of the copy, a manifest
that can be read, and where a directory keeps the draft from being written, none that keeps the copy from
being put back, and records with identifiers. -/
structure Answerable (m : BackupStore) (file : Path) (w : World) : Prop where
  room : HasRoom file w
  legible : m.IsLegible w
  clear : IsOccupied m w (w.files.placeOf (draftPath file)) →
    ¬ IsOccupied m w (w.files.placeOf (backPath file)) ∧ m.IsIdentified w

theorem isOccupied_of_steady (h : m.Steady w w') {place : Place} (hplace : IsOccupied m w' place) :
  IsOccupied m w place
  := by
  rcases hplace with hdirectory | hway
  · exact h.becomes.files.directory place hdirectory
  · rw [ledgerWay_congr h.becomes.files.here] at hway
    exact .inr hway

theorem Answerable.of_steady (h : Answerable m file w) (hsteady : m.Steady w w') :
  Answerable m file w'
  := by
  constructor
  · intro mark hmark
    rw [IsMark, hsteady.becomes.now, hsteady.becomes.tokens] at hmark
    exact h.room mark hmark
  · exact hsteady.legible h.legible
  · intro hoccupied
    rw [hsteady.becomes.placeOf] at hoccupied ⊢
    obtain ⟨hback, hids⟩ := h.clear (isOccupied_of_steady hsteady hoccupied)
    exact ⟨mt (isOccupied_of_steady hsteady) hback, hsteady.identified hids⟩

theorem isApart_of_becomes {touched made : Set Place} (h : m.IsApart file w)
    (hw : w.Becomes touched made w') :
  m.IsApart file w'
  := by
  intro manifest hm
  rw [hw.placeOf, hw.placeOf]
  exact h manifest hm

/-! ### Putting a copy back after a failed write -/

/-- A stylesheet of which a copy was taken is no directory then. -/
theorem get?_ne_of_take (tree : w.files.IsTree) (hfile : file.names ≠ [])
    (htake : m.take file w = .ok b w₁) :
  w₁.files.get? (w₁.files.placeOf file) ≠ some .directory
  := by
  obtain ⟨bytes, w₂, hcopied, hrecording⟩ := of_take tree hfile htake
  have hnull : hasNull b.file = false := by
    rw [hcopied.origin]
    exact hcopied.original.noNull
  have hthere : w₂.files.bytesAt? (w.files.placeOf file) ≠ none := by
    rw [hcopied.becomes.files.bytes, hcopied.original.bytes]
    · rintro ⟨⟩
    · intro heq
      have hnone := hcopied.free.1
      rw [← Set.mem_singleton_iff.mp heq] at hnone
      have hbytes := hcopied.original.bytes
      rw [Files.bytesAt?, hnone] at hbytes
      cases hbytes
  have h₁ : w₂.Becomes Set.univ (m.ledgerWay w₂) w₁ :=
    (within_recording hcopied.becomes.files.tree (Set.subset_univ _) (Set.Subset.refl _) b _).of_ok
      hrecording
  rw [h₁.placeOf, hcopied.becomes.placeOf]
  intro hdirectory
  rcases h₁.files.directory _ hdirectory with hdirectory | ⟨manifest, hm, hway⟩
  · exact hthere (Files.bytesAt?_of_directory hdirectory)
  · have hadmits := (exists_recording_iff hcopied.becomes.files.tree hnull hcopied.held.noNull
      (Digest.Sha256.digest bytes)).mp ⟨w₁, hrecording⟩
    exact hthere ((hadmits manifest hm).makeable.free _ hway)

/-- What there is when a write has failed after a copy was taken: the copy, the manifest as it should
be, and no directory that keeps the copy from being put back. -/
structure IsReturnable (m : BackupStore) (b : Backup) (file : Path) (bytes : List UInt8) (w : World) :
    Prop where
  tree : w.files.IsTree
  origin : b.file = file
  reaches : w.files.Reaches file
  back : w.files.Reaches (backPath file)
  clear : w.files.get? (w.files.placeOf (backPath file)) ≠ some .directory
  held : w.Holds b.copy bytes
  settled : m.IsSettled w
  legible : m.IsLegible w
  identified : m.IsIdentified w

theorem isReturnable_of_take (tree : w.files.IsTree) (hfile : file.names ≠ [])
    (htokens : ∀ i, IsToken (w.tokens i)) (hholds : w.Holds file bytes) (h : Answerable m file w)
    (htake : m.take file w = .ok b w₁) (hwrite : writeInPlace file t w₁ = .error fault w₂) :
  IsReturnable m b file bytes w₂ ∧ m.Steady w w₂ ∧ m.IsIdentified w
  := by
  have h₁ : m.Steady w w₁ := by
    have hsteady := steady_take (m := m) tree hfile
    rw [htake] at hsteady
    exact hsteady
  have tree₁ := h₁.becomes.files.tree
  have hreach₁ := h₁.becomes.files.reaches hholds.reaches
  have hdraft : w₁.files.get? (w₁.files.placeOf (draftPath file)) = some .directory := by
    by_contra hnot
    obtain ⟨w₃, hok⟩ := exists_writeInPlace tree₁ hholds.noNull hreach₁
      (tree₁.endsWithName_of_reaches hreach₁ (get?_ne_of_take tree hfile htake))
      (get?_ne_of_take tree hfile htake)
      (h.room.reaches_besides hfile htokens hreach₁ (by decide)) hnot t
    rw [hwrite] at hok
    cases hok
  obtain ⟨hback, hids⟩ := h.clear (isOccupied_of_steady h₁ (by
    rw [← h₁.becomes.placeOf]
    exact .inl hdraft))
  have hbecomes₂ := becomes_of_writeInPlace_eq_error tree₁ hfile hwrite
  have h₂ : m.Steady w₁ w₂ := steady_of_becomes hbecomes₂ (Set.empty_subset _)
    fun manifest _ => Manifest.placeOf_path_notMem_temporaries w₁.files manifest
  have hsteady := h₁.trans h₂
  have hreach₂ := hsteady.becomes.files.reaches hholds.reaches
  obtain ⟨bytes', w₃, hcopied, hrecording⟩ := of_take tree hfile htake
  obtain rfl := hholds.unique hcopied.original
  have hsuffix : ∀ fs : Files, Files.suffixAt (fs.placeOf b.copy) = Files.copySuffix := by
    obtain ⟨mark, -, hcopy⟩ := hcopied.path
    intro fs
    rw [hcopy]
    exact suffixAt_copyPath fs file mark
  have hheld : w₂.Holds b.copy bytes := by
    have h₃ : w₃.Becomes (m.ledger w₃) Set.univ w₁ :=
      (within_recording hcopied.becomes.files.tree (Set.Subset.refl _) (Set.subset_univ _) b _).of_ok
        hrecording
    apply (hcopied.held.of_becomes h₃ _).of_becomes hbecomes₂
    · intro htemporary
      have hsuffix' : Files.suffixAt _ = Files.temporarySuffix := htemporary
      rw [hsuffix] at hsuffix'
      exact absurd hsuffix' (by decide)
    · exact fun hledger => suffixAt_ne_of_mem_ledger hledger (hsuffix w₃.files)
  refine ⟨⟨hsteady.becomes.files.tree, hcopied.origin, hreach₂, ?_, ?_, hheld, ?_,
    hsteady.legible h.legible, hsteady.identified hids⟩, hsteady, hids⟩
  · exact h.room.reaches_besides hfile htokens hreach₂ (by decide)
  · intro hdirectory
    apply hback
    apply isOccupied_of_steady hsteady
    rw [← hsteady.becomes.placeOf]
    exact .inl hdirectory
  · exact (isSettled_of_take tree hfile htake).of_becomes hbecomes₂ (Set.empty_subset _)
      fun manifest hm => (hsteady.legible h.legible manifest hm).2.isReadable

namespace IsReturnable

variable (h : IsReturnable m b file bytes w)

include h

/-- It is explained why a copy could not be put back. -/
theorem explained (hfile : file.names ≠ []) (hnull : hasNull file = false)
    (hown : ∀ manifest, m.manifest = some manifest →
      w.files.placeOf manifest.path = w.files.placeOf file → IsLedger bytes) :
  Explained (m.rollback b) w
  := by
  obtain ⟨tree, rfl, hreach, hback, hclear, hheld, hsettled, hlegible, hids⟩ := h
  exact explained_rollback tree hfile hnull hreach hback hclear hheld hsettled hlegible hids hown

/-- Putting the copy back goes on as a job of the store does, and leaves the manifest as good as it was
unless that is the stylesheet. -/
theorem becomes (hfile : file.names ≠ []) (hnull : hasNull file = false) :
  w.Becomes Set.univ Set.univ (left (m.rollback b w))
    ∧ (m.IsApart file w → m.Steady w (left (m.rollback b w)))
  := by
  obtain ⟨tree, rfl, hreach, hback, hclear, hheld, -⟩ := h
  obtain ⟨w₁, h₁, hleft | hleft⟩ := left_rollback_cases m tree hfile hnull hreach hback hclear hheld
  · rw [hleft]
    exact ⟨h₁.mono (Set.subset_univ _) (Set.subset_univ _), fun hapart => hapart.steady h₁⟩
  · rw [hleft]
    have hmarking : m.Steady w₁ (left (marking m b w₁)) := steady_marking h₁.files.tree b
    refine ⟨?_, fun hapart => (hapart.steady h₁).trans hmarking⟩
    exact (h₁.mono (Set.subset_univ _) (Set.subset_univ _)).trans
      (hmarking.becomes.mono (Set.Subset.refl _) (Set.subset_univ _))

end IsReturnable

/-! ### Pruning a stylesheet -/

/-- What an outcome reports: it is about the stylesheet, and is without an error exactly if that could be
read, and was written if it was to be. -/
structure Reports (options : Options) (file : Path) (names : List Text) (w : World) (o : Outcome) :
    Prop where
  about : o.file = file
  error : o.error = none ↔ ∃ t, readText file w = .ok t w
    ∧ (options.dryRun = true ∨ (remove t names).text = t ∨ o.written = true)

/-- A change that answers leaves a tree, and the manifest as good as it was unless that is the
stylesheet. -/
structure Passes (m : BackupStore) (file : Path) (w w' : World) : Prop where
  becomes : w.Becomes Set.univ Set.univ w'
  steady : m.IsApart file w → m.Steady w w'

theorem Passes.trans (h : Passes m file w w₁) (h' : Passes m file w₁ w₂) :
  Passes m file w w₂
  := ⟨h.becomes.trans h'.becomes,
    fun hapart => (h.steady hapart).trans (h'.steady (isApart_of_becomes hapart h.becomes))⟩

theorem passes_of_steady (h : m.Steady w w') :
  Passes m file w w'
  := ⟨h.becomes.mono (Set.Subset.refl _) (Set.subset_univ _), fun _ => h⟩

theorem passes_of_log (tree : w.files.IsTree) (log : List Warning) :
  Passes m file w { w with log }
  := by
  have hw : w.Becomes ∅ ∅ { w with log } := .of_log tree log
  exact passes_of_steady (steady_of_becomes hw (Set.empty_subset _) fun _ _ => Set.notMem_empty _)

theorem passes_of_becomes (hw : w.Becomes (insert (w.files.placeOf file) Files.temporaries) ∅ w') :
  Passes m file w w'
  := ⟨hw.mono (Set.subset_univ _) (Set.subset_univ _), fun hapart => hapart.steady hw⟩

/-- A stylesheet is written, or an outcome says why not, if it is explained why a copy that there is
cannot be put back. -/
theorem exists_replace (tree : w.files.IsTree) (hfile : outcome.file.names ≠ [])
    (hnull : hasNull outcome.file = false)
    (hrollback : ∀ b fault w₁, outcome.backup = some b →
      writeInPlace outcome.file t w = .error fault w₁ →
        Explained (m.rollback b) w₁ ∧ Passes m outcome.file w₁ (left (m.rollback b w₁))) :
  ∃ o w', replace m outcome t w = .ok o w' ∧ o.file = outcome.file
    ∧ (o.error = outcome.error ∧ o.written = true
      ∨ o.error.isSome = true ∧ o.written = outcome.written)
    ∧ Passes m outcome.file w w'
  := by
  rw [replace_apply]
  cases hwrite : writeInPlace outcome.file t w with
  | ok _ w₁ =>
      refine ⟨_, w₁, rfl, rfl, .inl ⟨rfl, rfl⟩, ?_⟩
      exact passes_of_becomes (of_writeInPlace tree hfile hwrite).2
  | error fault w₁ =>
      obtain ⟨error, rfl⟩ := exists_system_of_writeInPlace hfile hnull hwrite
      have hdraft := becomes_of_writeInPlace_eq_error tree hfile hwrite
      have h₁ : Passes m outcome.file w w₁ :=
        passes_of_becomes (hdraft.mono (Set.subset_insert _ _) (Set.Subset.refl _))
      -- Whether there is a copy or not, an answer says whether it was put back.
      have htry : ∃ problem w₂, tryRollback m outcome.backup w₁ = .ok problem w₂
          ∧ Passes m outcome.file w₁ w₂ := by
        cases hcopy : outcome.backup with
        | none => exact ⟨none, w₁, rfl, passes_of_log h₁.becomes.files.tree w₁.log⟩
        | some b =>
            obtain ⟨hexplained, hpasses⟩ := hrollback b _ w₁ hcopy hwrite
            rw [tryRollback_apply]
            cases hresult : m.rollback b w₁ with
            | ok _ w₂ =>
                rw [hresult] at hpasses
                exact ⟨none, w₂, rfl, hpasses⟩
            | error fault w₂ =>
                rw [hresult] at hpasses
                obtain ⟨cause, rfl⟩ := hexplained fault w₂ hresult
                exact ⟨some cause, w₂, rfl, hpasses⟩
      obtain ⟨problem, w₂, htry, h₂⟩ := htry
      obtain ⟨log, hlog⟩ := fail_apply outcome "write" (.notWritten error problem) w₂
      refine ⟨_, _, bind_eq_ok_iff.mpr ⟨problem, w₂, htry, hlog⟩, rfl, .inr ⟨rfl, rfl⟩, ?_⟩
      exact (h₁.trans h₂).trans (passes_of_log h₂.becomes.files.tree log)

/-- A stylesheet that was read is changed, or an outcome says why not. -/
theorem exists_changing (tree : w.files.IsTree) (htokens : ∀ i, IsToken (w.tokens i))
    (hholds : w.Holds outcome.file bytes) {source : Text} (hdecode : Text.Utf8.decode bytes = .ok source)
    (hbackup : outcome.backup = none)
    (h : options.createBackup = true → Answerable m outcome.file w) (t : Text) :
  ∃ o w', changing m options outcome t w = .ok o w' ∧ o.file = outcome.file
    ∧ (o.error = outcome.error ∧ o.written = true
      ∨ o.error.isSome = true ∧ o.written = outcome.written)
    ∧ Passes m outcome.file w w'
  := by
  have hfile : outcome.file.names ≠ [] := by
    intro hnil
    have hname := tree.endsWithName_of_reaches hholds.reaches (by
      intro hdirectory
      have hbytes := hholds.bytes
      rw [Files.bytesAt?_of_directory hdirectory] at hbytes
      cases hbytes)
    rw [Files.endsWithName, hnil] at hname
    cases hname
  rcases exists_prepares_or m options outcome.file w with
    ⟨copy, w₁, hprepares⟩ | ⟨hcreate, fault, w₁, htake⟩
  · rw [changing_of_prepares hprepares hbackup]
    rw [Prepares] at hprepares
    split at hprepares
    · next hcreate =>
      obtain ⟨b, rfl, htake⟩ := hprepares
      have h₁ : m.Steady w w₁ := by
        have hsteady := steady_take (m := m) tree hfile
        rw [htake] at hsteady
        exact hsteady
      obtain ⟨o, w', hreplace, hoFile, hoError, hpasses⟩ :=
        @exists_replace m { outcome with backup := some b } t w₁ h₁.becomes.files.tree hfile
          hholds.noNull (by
            rintro _ fault w₂ ⟨⟩ hwrite
            obtain ⟨hreturnable, hsteady, hids⟩ :=
              isReturnable_of_take tree hfile htokens hholds (h hcreate) htake hwrite
            refine ⟨hreturnable.explained hfile hholds.noNull ?_, ?_⟩
            · intro manifest hm heq
              rw [hsteady.becomes.placeOf, hsteady.becomes.placeOf] at heq
              have hbytes := hholds.bytes
              rw [← heq] at hbytes
              exact ⟨source, hdecode, hids manifest hm bytes source hbytes hdecode⟩
            · obtain ⟨hbecomes, hapart⟩ := hreturnable.becomes hfile hholds.noNull
              exact ⟨hbecomes, hapart⟩)
      exact ⟨o, w', hreplace, hoFile, hoError, (passes_of_steady h₁).trans hpasses⟩
    · obtain ⟨rfl, rfl⟩ := hprepares
      obtain ⟨o, w', hreplace, hoFile, hoError, hpasses⟩ :=
        @exists_replace m { outcome with backup := none } t w₁ tree hfile hholds.noNull (by rintro _ _ _ ⟨⟩)
      exact ⟨o, w', hreplace, hoFile, hoError, hpasses⟩
  · have h₁ : m.Steady w w₁ := by
      have hsteady := steady_take (m := m) tree hfile
      rw [htake] at hsteady
      exact hsteady
    obtain ⟨cause, rfl⟩ := explained_take tree hfile htokens hholds (h hcreate).room (h hcreate).legible
      fault w₁ htake
    rcases changing_of_take_eq_error hcreate htake t with ⟨cause', -, hfail⟩ | ⟨hnot, -⟩
    · obtain ⟨log, hlog⟩ := fail_apply outcome "backup" (.notBackedUp cause') w₁
      refine ⟨_, _, hfail.trans hlog, rfl, .inr ⟨rfl, rfl⟩, ?_⟩
      exact (passes_of_steady h₁).trans (passes_of_log h₁.becomes.files.tree log)
    · exact absurd rfl (hnot cause)

theorem Answerable.of_log (h : Answerable m file w) (tree : w.files.IsTree) (log : List Warning) :
  Answerable m file { w with log }
  := by
  have hw : w.Becomes ∅ ∅ { w with log } := .of_log tree log
  exact h.of_steady (steady_of_becomes hw (Set.empty_subset _) fun _ _ => Set.notMem_empty _)

/-- Pruning a stylesheet answers with an outcome that reports what went wrong, and can be followed by
pruning another one. -/
theorem exists_pruneFile_passes (tree : w.files.IsTree) (htokens : ∀ i, IsToken (w.tokens i))
    (hnull : hasNull file = false)
    (h : options.dryRun = false → options.createBackup = true → Answerable m file w)
    (names : List Text) :
  ∃ o w', pruneFile m options file names w = .ok o w' ∧ Reports options file names w o
    ∧ Passes m file w w'
  := by
  cases hread : readText file w with
  | error fault w₁ =>
      rcases pruneFile_of_readText_eq_error m options names hread with
        ⟨-, error, log, hprune⟩ | ⟨hnull', -⟩
      · refine ⟨_, _, hprune, ⟨rfl, ?_⟩, passes_of_log tree log⟩
        constructor
        · rintro ⟨⟩
        · rintro ⟨t, hread', -⟩
          rw [hread] at hread'
          cases hread'
      · rw [hnull] at hnull'
        cases hnull'
  | ok t w₁ =>
      obtain ⟨bytes, hholds, hdecode, rfl⟩ := readText_eq_ok_iff.mp hread
      obtain ⟨log, hprune⟩ := pruneFile_of_readText m options names hread
      rw [hprune]
      split
      · next hkept =>
        refine ⟨_, _, rfl, ⟨rfl, ?_⟩, passes_of_log tree log⟩
        exact iff_of_true rfl ⟨t, hread, hkept.symm.imp_right .inl⟩
      · next hchanged =>
        obtain ⟨hne, hdry⟩ := not_or.mp hchanged
        have hlive : options.dryRun = false := Bool.eq_false_iff.mpr hdry
        obtain ⟨o, w', hchanging, hoFile, hoError, hpasses⟩ :=
          @exists_changing m options (outcomeOf options file names t) bytes { w₁ with log } tree htokens
            ⟨hholds.noNull, hholds.reaches, hholds.bytes⟩ t hdecode rfl
            (fun hcreate => (h hlive hcreate).of_log tree log) (remove t names).text
        refine ⟨o, w', hchanging, ⟨hoFile, ?_⟩, (passes_of_log tree log).trans hpasses⟩
        rcases hoError with ⟨hnone, hwritten⟩ | ⟨hsome, hwritten⟩
        · exact iff_of_true hnone ⟨t, hread, .inr (.inr hwritten)⟩
        · refine iff_of_false ?_ ?_
          · intro hnone
            rw [hnone] at hsome
            cases hsome
          · rintro ⟨t', hread', hkept⟩
            rw [hread] at hread'
            obtain ⟨rfl, -⟩ := EStateM.Result.ok.inj hread'
            rcases hkept with hkept | hkept | hkept
            · exact hdry hkept
            · exact hne hkept
            · rw [hwritten] at hkept
              cases hkept

/-! ### Pruning all stylesheets of a plan -/

/-- What an entry of a plan with something to remove needs to be answered. -/
def IsAnswerable (m : BackupStore) (options : Options) (w : World) (file : Path) : Prop :=
  hasNull file = false
    ∧ (options.dryRun = false → options.createBackup = true → Answerable m file w ∧ m.IsApart file w)

/-- A run with nobody to stop it answers with an outcome for each entry with something to remove, in the
order of the plan. -/
theorem exists_run (tree : w.files.IsTree) (htokens : ∀ i, IsToken (w.tokens i)) {plan : Plan}
    (h : ∀ entry ∈ plan, entry.2 ≠ [] → IsAnswerable m options w (fileOf entry)) :
  ∃ outcomes w', run m options unattended plan (w, ()) = .ok outcomes (w', ())
    ∧ outcomes.map Outcome.file = (plan.filter fun entry => entry.2 ≠ []).map fileOf
  := by
  induction plan generalizing w with
  | nil => exact ⟨[], w, rfl, rfl⟩
  | cons entry rest ih =>
      obtain ⟨hentry, hrest⟩ := List.forall_mem_cons.mp h
      by_cases hnil : entry.2 = []
      · obtain ⟨outcomes, w', hrun, hfiles⟩ := ih tree htokens hrest
        refine ⟨outcomes, w', ?_, ?_⟩
        · rw [run_cons]
          exact bind_eq_ok_iff.mpr ⟨[], (w, ()), visit_of_nil rfl hnil,
            bind_eq_ok_iff.mpr ⟨outcomes, (w', ()), hrun, rfl⟩⟩
        · rw [hfiles, List.filter_cons_of_neg]
          simp [hnil]
      · obtain ⟨hnull, hanswerable⟩ := hentry hnil
        obtain ⟨o, w₁, hprune, hreports, hpasses⟩ := exists_pruneFile_passes tree htokens hnull
          (fun hlive hcreate => (hanswerable hlive hcreate).1) (namesOf entry)
        -- what was done to this stylesheet leaves the others answerable
        obtain ⟨outcomes, w', hrun, hfiles⟩ := @ih w₁ hpasses.becomes.files.tree (by
          rw [hpasses.becomes.tokens]
          exact htokens) (by
          intro e he hne
          obtain ⟨hnull', h'⟩ := hrest e he hne
          refine ⟨hnull', fun hlive hcreate => ?_⟩
          have hsteady := hpasses.steady (hanswerable hlive hcreate).2
          exact ⟨(h' hlive hcreate).1.of_steady hsteady,
            isApart_of_becomes (h' hlive hcreate).2 hsteady.becomes⟩)
        refine ⟨o :: outcomes, w', ?_, ?_⟩
        · rw [run_cons]
          exact bind_eq_ok_iff.mpr ⟨[o], (w₁, ()), visit_eq_ok_of_permits rfl hnil rfl rfl hprune,
            bind_eq_ok_iff.mpr ⟨outcomes, (w', ()), hrun, rfl⟩⟩
        · rw [List.map_cons, hreports.about, hfiles, List.filter_cons_of_pos, List.map_cons]
          simp [hnil]

/-- Where the name for the copy is too long, pruning a stylesheet that it would change ends with a fault. -/
theorem pruneFile_eq_error_of_long (m : BackupStore) (hread : readText file w = .ok t w)
    (hne : (remove t names).text ≠ t) (hfile : file.names ≠ [])
    (hlong : Files.maxNameSize < (copyName file w.now.stamp).utf8ByteSize) :
  ∃ error w', pruneFile m { dryRun := false } file names w = .error (.system error) w'
  := by
  obtain ⟨bytes, hholds, -⟩ := readText_eq_ok_iff.mp hread
  obtain ⟨log, hprune⟩ := pruneFile_of_readText m { dryRun := false } names hread
  rw [if_neg (not_or.mpr ⟨hne, Bool.false_ne_true⟩)] at hprune
  obtain ⟨error, w', htake⟩ := @take_eq_error_of_long { w with log } file bytes m hfile
    ⟨hholds.noNull, hholds.reaches, hholds.bytes⟩ hlong
  use error, w'
  rw [hprune]
  rcases @changing_of_take_eq_error _ w' _ m { dryRun := false }
    (outcomeOf { dryRun := false } file names t) rfl htake (remove t names).text with
    ⟨cause, hcause, -⟩ | ⟨-, hraise⟩
  · cases hcause
  · exact hraise

/-- Two stylesheets, and directories at some places. -/
def obstructed (places : List Place) : World :=
  { twoSheets with files := places.foldl (fun fs place => fs.put place .directory) twoSheets.files }

/-- A world with a file at a place. -/
def holding (w : World) (place : Place) (bytes : List UInt8) : World :=
  { w with files := w.files.put place (.file bytes) }

/-- Whether pruning a stylesheet in a live run with copies ends with a fault, where the manifest lies in a
directory. -/
def EndsWithFault (directory name : String) (w : World) : Prop :=
  (answerOf (pruneFile (storeAt directory) { dryRun := false } ⟨.relative, [name]⟩ ["a".toList] w)).isNone

instance (directory name : String) (w : World) : Decidable (EndsWithFault directory name w) :=
  inferInstanceAs (Decidable (_ = true))

end Plan

end StylePrune.Prune
