import StylePrune.Proofs.Backup.RestoringAll
import StylePrune.Proofs.Prune.AllOrNothing

/-!
# There and back

A run with backups leaves a chronicle behind: the manifest lists a snapshot for each copy that was
taken, with what the stylesheet had before the run, and each stylesheet that was changed has one that
is not put back (`Plan.Recorded`).  So putting all copies back undoes the run
(`Plan.restoreAll_run`).
-/

namespace StylePrune.Prune.Plan

open Job BackupStore

variable {σ : Type} {manifest : Manifest} {options : Options} {supervisor : Supervisor σ}
    {file : Path} {names : List Text} {o : Outcome} {outcomes : List Outcome}
    {snapshots added : List Snapshot} {s : Snapshot} {b : Backup} {w₀ w w₁ w' : World}
    {touched made : Set Place}

/-- The store with a manifest. -/
abbrev storeOf (manifest : Manifest) : BackupStore := ⟨some manifest⟩

/-- Whether a snapshot has what was there in a world, and its copy is at a place where nothing was. -/
structure IsOriginal (w₀ : World) (s : Snapshot) : Prop where
  taken : s.taken = w₀.now
  bytes : w₀.files.bytesAt? (s.place w₀) = some s.bytes
  free : w₀.files.get? (s.copyPlace w₀) = none

/-- Whether the manifest of a world lists the snapshots of a run that began in another world and has
come to some outcomes. -/
structure Recorded (manifest : Manifest) (w₀ : World) (outcomes : List Outcome)
    (snapshots : List Snapshot) (w : World) : Prop where
  chronicle : Chronicle manifest snapshots w
  here : w.files.here = w₀.files.here
  now : w.now = w₀.now
  tokens : w.tokens = w₀.tokens
  backups : snapshots.map Snapshot.backup = outcomes.filterMap Outcome.backup
  original : ∀ s ∈ snapshots, IsOriginal w₀ s
  copies : ∀ place, Files.suffixAt place = Files.copySuffix → w₀.files.get? place ≠ none →
    w.files.get? place ≠ none
  changed : ∀ place, Files.IsStylesheetAt place → w.files.bytesAt? place = w₀.files.bytesAt? place
    ∨ ∃ s ∈ snapshots, s.restored = false ∧ s.place w₀ = place
  written : ∀ o ∈ outcomes, o.written = true → ∃ s ∈ snapshots, s.restored = false
    ∧ o.backup = some s.backup ∧ o.file = s.backup.file

theorem here_of_take (tree : w.files.IsTree) (hfile : file.IsStylesheet) {log : List Warning}
    (htake : (storeOf manifest).take file { w with log } = .ok b w₁) :
  w₁.files.here = w.files.here
  := ((within_take_otherPlaces (w := { w with log }) tree hfile.names_ne).of_ok htake).files.here

/-- Replacing a stylesheet keeps what the manifest lists, if the stylesheet is there in the end. -/
theorem chronicle_of_replaced (h : Chronicle manifest snapshots w₁) (hfile : file.IsStylesheet)
    (hhere : w₁.files.here = w.files.here) (hw : w₁.Becomes (replaced file w) ∅ w')
    (hthere : w'.files.bytesAt? (w.files.placeOf file) ≠ none) :
  Chronicle manifest snapshots w'
  := by
  apply h.of_becomes hw (path_notMem_replaced hfile manifest hhere)
  · intro place hplace hcopy
    exact absurd hcopy (suffixAt_ne_of_mem_replaced hfile hplace)
  · intro s hs
    have hsound := h.sound s hs
    by_cases heq : s.place w₁ = w.files.placeOf file
    · rw [heq]
      exact hthere
    · rw [hw.files.bytes]
      · exact hsound.there
      · rintro (heq' | htemporary)
        · exact heq heq'
        · exact not_isStylesheetAt_of_mem_temporaries htemporary hsound.isStylesheetAt

/-- Marking the newest snapshot keeps what the manifest lists, but for the mark. -/
theorem exists_marked (h : Chronicle manifest (snapshots ++ [s]) w)
    (hids : (snapshots.map Snapshot.id ++ [s.id]).Nodup) (horiginal : IsOriginal w₀ s)
    (hmarking : marking (storeOf manifest) s.backup w = .ok () w') :
  ∃ s' : Snapshot, s'.backup = s.backup ∧ IsOriginal w₀ s'
    ∧ Chronicle manifest (snapshots ++ [s']) w'
  := by
  have hdistinct : ((snapshots ++ [s]).map Snapshot.id).Nodup := by
    rw [List.map_append, List.map_singleton]
    exact hids
  have hfresh : s.id ∉ snapshots.map Snapshot.id := by
    intro hmem
    exact (List.nodup_append.mp hids).2.2 _ hmem _ List.mem_cons_self rfl
  rw [marking] at hmarking
  dsimp only at hmarking
  split at hmarking
  · obtain ⟨h', -⟩ := h.of_markRestored hdistinct hmarking
    refine ⟨{ s with restored := true }, rfl, ⟨horiginal.taken, horiginal.bytes, horiginal.free⟩, ?_⟩
    rw [← Snapshot.marking_concat hfresh]
    exact h'
  · obtain ⟨-, rfl⟩ := EStateM.Result.ok.inj hmarking
    exact ⟨s, rfl, horiginal, h⟩

namespace Recorded

/-- Before a run nothing is recorded, if there is no manifest. -/
theorem start (tree : w₀.files.IsTree) (hhere : Files.IsProper w₀.files.here)
    (hmissing : w₀.files.bytesAt? (w₀.files.placeOf manifest.path) = none) :
  Recorded manifest w₀ [] [] w₀
  := by
  constructor
  · exact .of_missing tree hhere hmissing
  · rfl
  · rfl
  · rfl
  · rfl
  · rintro s ⟨⟩
  · exact fun _ _ hne => hne
  · exact fun _ _ => .inl rfl
  · rintro o ⟨⟩

/-- One outcome more, with the snapshot that goes with it, if there is one. -/
theorem concat (h : Recorded manifest w₀ outcomes snapshots w)
    (h' : Chronicle manifest (snapshots ++ added) w') (hw : w.Becomes touched made w')
    (hcopies : ∀ place ∈ touched, Files.suffixAt place = Files.copySuffix → w.files.get? place = none)
    (hbackup : added.map Snapshot.backup = o.backup.toList)
    (horiginal : ∀ s ∈ added, IsOriginal w₀ s)
    (hchanged : ∀ place, Files.IsStylesheetAt place → w'.files.bytesAt? place = w.files.bytesAt? place
      ∨ ∃ s ∈ added, s.restored = false ∧ s.place w₀ = place)
    (hwritten : o.written = true → ∃ s ∈ added, s.restored = false
      ∧ o.backup = some s.backup ∧ o.file = s.backup.file) :
  Recorded manifest w₀ (outcomes ++ [o]) (snapshots ++ added) w'
  := by
  constructor
  · exact h'
  · exact hw.files.here.trans h.here
  · exact hw.now.trans h.now
  · exact hw.tokens.trans h.tokens
  · rw [List.map_append, h.backups, hbackup, List.filterMap_append, List.filterMap_cons,
      List.filterMap_nil]
    cases o.backup <;> rfl
  · intro s hs
    exact (List.mem_append.mp hs).elim (h.original s) (horiginal s)
  · intro place hsuffix hne
    have hthere := h.copies place hsuffix hne
    have hnot : place ∉ touched := fun htouched => hthere (hcopies place htouched hsuffix)
    rcases w.files.get?_cases place with hget | hget | ⟨bytes, hget⟩
    · exact absurd hget hthere
    · rw [hw.files.stay place hget]
      rintro ⟨⟩
    · have hbytes := hw.files.bytes place hnot
      rw [Files.bytesAt?_eq_some_iff.mpr hget] at hbytes
      rw [Files.bytesAt?_eq_some_iff.mp hbytes]
      rintro ⟨⟩
  · intro place hplace
    rcases hchanged place hplace with hsame | ⟨s, hs, hnew⟩
    · rw [hsame]
      apply (h.changed place hplace).imp_right
      rintro ⟨s, hs, hold⟩
      exact ⟨s, List.mem_append_left _ hs, hold⟩
    · exact .inr ⟨s, List.mem_append_right _ hs, hnew⟩
  · intro o' ho' hwritten'
    rcases List.mem_append.mp ho' with ho' | ho'
    · obtain ⟨s, hs, hold⟩ := h.written o' ho' hwritten'
      exact ⟨s, List.mem_append_left _ hs, hold⟩
    · obtain rfl := List.mem_singleton.mp ho'
      obtain ⟨s, hs, hnew⟩ := hwritten hwritten'
      exact ⟨s, List.mem_append_right _ hs, hnew⟩

/-- One outcome more, without a backup and with no stylesheet changed. -/
theorem concat_none (h : Recorded manifest w₀ outcomes snapshots w) (hw : w.Becomes touched made w')
    (hpath : w.files.placeOf manifest.path ∉ touched)
    (hcopies : ∀ place ∈ touched, Files.suffixAt place = Files.copySuffix → w.files.get? place = none)
    (hstylesheets : ∀ place ∈ touched, ¬ Files.IsStylesheetAt place)
    (hbackup : o.backup = none) (hwritten : o.written = false) :
  Recorded manifest w₀ (outcomes ++ [o]) snapshots w'
  := by
  have hsame : ∀ place, Files.IsStylesheetAt place →
      w'.files.bytesAt? place = w.files.bytesAt? place :=
    fun place hplace => hw.files.bytes place fun htouched => hstylesheets place htouched hplace
  have hchronicle : Chronicle manifest (snapshots ++ []) w' := by
    rw [List.append_nil]
    apply h.chronicle.of_becomes hw hpath hcopies
    intro s hs
    rw [hsame _ (h.chronicle.sound s hs).isStylesheetAt]
    exact (h.chronicle.sound s hs).there
  rw [← List.append_nil snapshots]
  apply h.concat hchronicle hw hcopies
  · rw [hbackup]
    rfl
  · rintro s ⟨⟩
  · exact fun place hplace => .inl (hsame place hplace)
  · rw [hwritten]
    rintro ⟨⟩

/-- One outcome more, of a stylesheet no copy of which could be taken. -/
theorem concat_notBackedUp (h : Recorded manifest w₀ outcomes snapshots w)
    (hfile : file.IsStylesheet) {log : List Warning} {cause : BackupFault}
    (htake : (storeOf manifest).take file { w with log } = .error (.backup cause) w₁)
    (hw : w₁.Becomes ∅ ∅ w') (hbackup : o.backup = none) (hwritten : o.written = false) :
  Recorded manifest w₀ (outcomes ++ [o]) snapshots w'
  := by
  have tree := h.chronicle.tree
  have hspared : w.Becomes (spare file w ∪ Files.temporaries) Set.univ w' := by
    apply (World.Becomes.of_log tree log).trans
    apply (becomes_of_take_eq_error (w := { w with log }) tree hfile.names_ne htake).trans
    exact hw.mono (Set.empty_subset _) (Set.empty_subset _)
  apply h.concat_none hspared _ _ _ hbackup hwritten
  · rintro (hspare | htemporary)
    · exact Chronicle.path_ne (.inl (suffixAt_of_mem_spare hspare)) rfl
    · exact Chronicle.path_ne (.inr (.inl htemporary)) rfl
  · rintro place (hspare | htemporary) hsuffix
    · exact hspare.1
    · exact absurd hsuffix (suffixAt_ne_of_mem_temporaries htemporary)
  · rintro place (hspare | htemporary)
    · exact Files.not_isStylesheetAt_of_suffixAt (suffixAt_of_mem_spare hspare) (by decide)
    · exact not_isStylesheetAt_of_mem_temporaries htemporary

/-- One outcome more, with the one snapshot that was taken for it. -/
theorem concat_snapshot (h : Recorded manifest w₀ outcomes snapshots w)
    (h' : Chronicle manifest (snapshots ++ [s]) w')
    (hw : w.Becomes (touchedFor (storeOf manifest) file w) made w') (hfile : file.IsStylesheet)
    (hbackup : o.backup = some s.backup) (horiginal : IsOriginal w₀ s)
    (hchanged : ∀ place, Files.IsStylesheetAt place → w'.files.bytesAt? place = w.files.bytesAt? place
      ∨ s.restored = false ∧ s.place w₀ = place)
    (hwritten : o.written = true → s.restored = false ∧ o.file = s.backup.file) :
  Recorded manifest w₀ (outcomes ++ [o]) (snapshots ++ [s]) w'
  := by
  apply h.concat h' hw fun _ hplace => get?_of_mem_touchedFor hfile hplace
  · rw [hbackup]
    rfl
  · intro t ht
    rw [List.mem_singleton.mp ht]
    exact horiginal
  · intro place hplace
    apply (hchanged place hplace).imp_right
    exact fun hs => ⟨s, List.mem_singleton_self s, hs⟩
  · intro ho
    obtain ⟨hnot, horigin⟩ := hwritten ho
    exact ⟨s, List.mem_singleton_self s, hnot, hbackup, horigin⟩

/-- A backup that is taken during a run adds a snapshot of what was there before the run. -/
theorem exists_snapshot (h : Recorded manifest w₀ outcomes snapshots w)
    (htokens : ∀ i, IsToken (w₀.tokens i)) (hfile : file.IsStylesheet)
    (hnames : ∀ name ∈ file.names, Path.IsName name)
    (hsame : w.files.bytesAt? (w.files.placeOf file) = w₀.files.bytesAt? (w₀.files.placeOf file))
    {log : List Warning} (htake : (storeOf manifest).take file { w with log } = .ok b w₁) :
  ∃ s : Snapshot, s.backup = b ∧ b.file = file ∧ s.restored = false ∧ IsOriginal w₀ s
    ∧ Chronicle manifest (snapshots ++ [s]) w₁
  := by
  have hlog : Chronicle manifest snapshots { w with log } := h.chronicle.of_files_eq rfl
  obtain ⟨bytes, hholds, horigin, hfree, hchronicle⟩ :=
    hlog.of_take (fun i => h.tokens ▸ htokens i) hfile hnames htake
  refine ⟨_, rfl, horigin, rfl, ⟨h.now, ?_, ?_⟩, hchronicle⟩
  · rw [Snapshot.place, horigin, ← hsame]
    exact hholds.bytes
  · rw [Snapshot.copyPlace, ← Files.placeOf_congr h.here]
    by_contra hne
    apply h.copies _ _ hne hfree
    have hsuffix := (hchronicle.sound _ (List.mem_append_right _ List.mem_cons_self)).suffix
    rw [Snapshot.copyPlace, Files.placeOf_congr (here_of_take h.chronicle.tree hfile htake)] at hsuffix
    exact hsuffix

/-- Pruning a stylesheet that is as it was before the run. -/
theorem of_pruneFile (h : Recorded manifest w₀ outcomes snapshots w)
    (hcreate : options.createBackup = true) (htokens : ∀ i, IsToken (w₀.tokens i))
    (hfile : file.IsStylesheet) (hnames : ∀ name ∈ file.names, Path.IsName name)
    (hsame : w.files.bytesAt? (w.files.placeOf file) = w₀.files.bytesAt? (w₀.files.placeOf file))
    (hids : (snapshots.map Snapshot.id ++ o.backup.toList.map Backup.id).Nodup)
    (hprune : pruneFile (storeOf manifest) options file names w = .ok o w') :
  ∃ added, Recorded manifest w₀ (outcomes ++ [o]) (snapshots ++ added) w'
  := by
  have tree := h.chronicle.tree
  have hstylesheet := Files.isStylesheetAt_placeOf w.files hfile
  obtain ⟨hoFile, hunchanged, honly, hstays⟩ := of_pruneFile_eq_ok tree hfile hprune
  have hending := ending_of_pruneFile tree hfile hprune
  have hbecomes := hending.becomes tree hfile.names_ne
  -- a stylesheet of which a copy was taken is there in the end, too
  have hthere : ∀ {s : Snapshot}, s.backup.file = file → IsOriginal w₀ s →
      w'.files.bytesAt? (w.files.placeOf file) ≠ none := by
    intro s horigin horiginal
    have hbytes := horiginal.bytes
    rw [Snapshot.place, horigin, ← hsame] at hbytes
    apply hstays
    rw [hbytes]
    rintro ⟨⟩
  cases hending with
  | idle hbackup hwritten hw =>
      use []
      rw [List.append_nil]
      exact h.concat_none hw (Set.notMem_empty _) (by rintro place ⟨⟩) (by rintro place ⟨⟩) hbackup
        hwritten
  | notBackedUp _ htake hw hbackup hwritten =>
      use []
      rw [List.append_nil]
      exact h.concat_notBackedUp hfile htake hw hbackup hwritten
  | changed hprepares hbackup hw =>
      rw [Prepares, if_pos hcreate] at hprepares
      obtain ⟨b, rfl, htake⟩ := hprepares
      obtain ⟨s, rfl, horigin, hnot, horiginal, h₁⟩ :=
        h.exists_snapshot htokens hfile hnames hsame htake
      have h' := chronicle_of_replaced h₁ hfile (here_of_take tree hfile htake) hw
        (hthere horigin horiginal)
      use [s]
      apply h.concat_snapshot h' hbecomes hfile hbackup horiginal
      · intro place hplace
        by_cases heq : place = w.files.placeOf file
        · right
          use hnot
          rw [Snapshot.place, horigin, heq, Files.placeOf_congr h.here]
        · left
          apply honly.files.bytes
          rintro (heq' | hother)
          · exact heq heq'
          · exact hother hplace
      · exact fun _ => ⟨hnot, hoFile.trans horigin.symm⟩
  | @putBack log b w₁ w₂ w₃ _ _ htake hbackup hwritten hw₁ hmarking hw₃ =>
      obtain ⟨s, rfl, horigin, -, horiginal, h₁⟩ :=
        h.exists_snapshot htokens hfile hnames hsame htake
      have hledger : w₂.Becomes ((storeOf manifest).ledger w₂) Set.univ w₃ :=
        (within_marking hw₁.files.tree (Set.Subset.refl _) (Set.subset_univ _) _).of_ok hmarking
      have hthere₂ : w₂.files.bytesAt? (w.files.placeOf file) ≠ none := by
        have hthere' := hthere horigin horiginal
        rw [hw₃.files.bytes _ (Set.notMem_empty _), hledger.files.bytes] at hthere'
        · exact hthere'
        · exact fun hmem => not_isStylesheetAt_of_mem_ledger hmem hstylesheet
      have h₂ := chronicle_of_replaced h₁ hfile (here_of_take tree hfile htake) hw₁ hthere₂
      rw [hbackup, Option.toList_some, List.map_singleton] at hids
      obtain ⟨s', hs', horiginal', h₃⟩ := exists_marked h₂ hids horiginal hmarking
      have h' : Chronicle manifest (snapshots ++ [s']) w' := by
        apply h₃.of_becomes hw₃ (Set.notMem_empty _)
        · rintro place ⟨⟩
        · intro t ht
          rw [hw₃.files.bytes _ (Set.notMem_empty _)]
          exact (h₃.sound t ht).there
      use [s']
      apply h.concat_snapshot h' hbecomes hfile (hbackup.trans (congrArg some hs'.symm)) horiginal'
      · intro place hplace
        exact .inl ((hunchanged hwritten).files.bytes _ fun hother => hother hplace)
      · rw [hwritten]
        rintro ⟨⟩

/-- Outcomes without a backup, with nothing done. -/
theorem append_skipped (h : Recorded manifest w₀ outcomes snapshots w) {skipped : List Outcome}
    (hskipped : ∀ o ∈ skipped, o.backup = none ∧ o.written = false) :
  Recorded manifest w₀ (outcomes ++ skipped) snapshots w
  := by
  induction skipped generalizing outcomes with
  | nil =>
      rw [List.append_nil]
      exact h
  | cons o skipped ih =>
      obtain ⟨hbackup, hwritten⟩ := hskipped o List.mem_cons_self
      rw [List.append_cons]
      apply ih _ fun o' ho' => hskipped o' (List.mem_cons_of_mem o ho')
      apply h.concat_none (.refl h.chronicle.tree : w.Becomes ∅ ∅ w) (Set.notMem_empty _) _ _ hbackup
        hwritten
      · rintro place ⟨⟩
      · rintro place ⟨⟩

theorem map_id (h : Recorded manifest w₀ outcomes snapshots w) :
  snapshots.map Snapshot.id = (outcomes.filterMap Outcome.backup).map Backup.id
  := by
  rw [← h.backups, List.map_map]
  rfl

/-- A run over stylesheets that are as they were when it began. -/
theorem of_run {plan : Plan} {later : List Outcome} {s s' : σ}
    (h : Recorded manifest w₀ outcomes snapshots w) (hcreate : options.createBackup = true)
    (htokens : ∀ i, IsToken (w₀.tokens i)) (hfiles : ∀ e ∈ plan, (fileOf e).IsStylesheet)
    (hdistinct : IsDistinct plan w₀.files)
    (hsame : ∀ e ∈ plan, w.files.bytesAt? (w₀.files.placeOf (fileOf e))
      = w₀.files.bytesAt? (w₀.files.placeOf (fileOf e)))
    (hids : (((outcomes ++ later).filterMap Outcome.backup).map Backup.id).Nodup)
    (hrun : run (storeOf manifest) options supervisor plan (w, s) = .ok later (w', s')) :
  ∃ snapshots', Recorded manifest w₀ (outcomes ++ later) snapshots' w'
  := by
  -- the stylesheets of the entries to come still have what they had before the run
  induction plan generalizing w s outcomes snapshots later with
  | nil =>
      obtain ⟨rfl, heq⟩ := EStateM.Result.ok.inj hrun
      obtain ⟨rfl, -⟩ := Prod.mk.inj heq
      rw [List.append_nil]
      exact ⟨snapshots, h⟩
  | cons entry rest ih =>
      obtain ⟨first, others, ⟨w₁, s₁⟩, hvisit, hrest, rfl⟩ := run_cons_eq_ok hrun
      have hentry := hfiles entry List.mem_cons_self
      have hplace : ∀ p, w.files.placeOf p = w₀.files.placeOf p := Files.placeOf_congr h.here
      obtain ⟨snapshots₁, h₁⟩ : ∃ snapshots₁, Recorded manifest w₀ (outcomes ++ first) snapshots₁ w₁ := by
        rcases visit_cases (storeOf manifest) options supervisor entry w s with
          ⟨-, hworld, hskipped⟩ | ⟨-, -, hpruned⟩
        · rw [hvisit] at hworld
          obtain rfl : w₁ = w := hworld
          refine ⟨snapshots, h.append_skipped fun o ho => ?_⟩
          rw [hskipped first (w₁, s₁) hvisit o ho]
          exact ⟨rfl, rfl⟩
        · obtain ⟨o, hprune, rfl⟩ := hpruned first (w₁, s₁) hvisit
          have hdistinctIds : (snapshots.map Snapshot.id ++ o.backup.toList.map Backup.id).Nodup := by
            have htoList : o.backup.toList = [o].filterMap Outcome.backup := by
              rw [List.filterMap_cons, List.filterMap_nil]
              cases o.backup <;> rfl
            rw [h.map_id, htoList, ← List.map_append, ← List.filterMap_append]
            refine List.Nodup.sublist ?_ hids
            apply List.Sublist.map
            apply List.Sublist.filterMap
            rw [← List.append_assoc]
            exact List.sublist_append_left _ _
          obtain ⟨added, h₁⟩ := h.of_pruneFile hcreate htokens hentry
            (fun name hname => Path.isName_of_mem_names_ofString hname)
            (by rw [hplace]; exact hsame entry List.mem_cons_self) hdistinctIds hprune
          exact ⟨snapshots ++ added, h₁⟩
      rw [← List.append_assoc] at hids ⊢
      apply ih h₁ (fun e he => hfiles e (List.mem_cons_of_mem entry he))
        (List.nodup_cons.mp hdistinct).2 _ hids hrest
      -- the visit touches no stylesheet but its own
      intro e he
      rw [← hsame e (List.mem_cons_of_mem entry he)]
      have hstep := @within_visit σ (storeOf manifest) options supervisor entry w s h.chronicle.tree
        hentry
      rw [hvisit] at hstep
      apply World.Becomes.files hstep |>.bytes
      intro htouched
      obtain ⟨e', he', heq⟩ := htouched
        (Files.isStylesheetAt_placeOf w₀.files (hfiles e (List.mem_cons_of_mem entry he)))
      obtain rfl := List.mem_singleton.mp he'
      apply (List.nodup_cons.mp hdistinct).1
      rw [hplace] at heq
      exact List.mem_map.mpr ⟨e, he, heq⟩

end Recorded

/-! ### Undoing a run -/

/-- The last of some elements of a list. -/
theorem exists_last_of_mem {α : Type} {p : α → Prop} {l : List α} (h : ∃ a ∈ l, p a) :
  ∃ front a rest, l = front ++ a :: rest ∧ p a ∧ ∀ b ∈ rest, ¬ p b
  := by
  induction l with
  | nil =>
      obtain ⟨a, ha, -⟩ := h
      cases ha
  | cons a l ih =>
      by_cases hl : ∃ b ∈ l, p b
      · obtain ⟨front, b, rest, rfl, hb, hrest⟩ := ih hl
        exact ⟨a :: front, b, rest, rfl, hb, hrest⟩
      · obtain ⟨b, hb, hp⟩ := h
        rcases List.mem_cons.mp hb with rfl | hb
        · exact ⟨[], b, l, rfl, hp, fun c hc hpc => hl ⟨c, hc, hpc⟩⟩
        · exact absurd ⟨b, hb, hp⟩ hl

/-- Where all copies of a run are put back without an error, all stylesheets are as they were before
it. -/
theorem Recorded.bytesAt?_restoreAll (h : Recorded manifest w₀ outcomes snapshots w)
    (hids : ((outcomes.filterMap Outcome.backup).map Backup.id).Nodup) {r : Restoration}
    (hrestore : (storeOf manifest).restoreAll w = .ok r w') (herrors : r.errors = [])
    {place : Place} (hplace : Files.IsStylesheetAt place) :
  w'.files.bytesAt? place = w₀.files.bytesAt? place
  := by
  have hback : PutBack (Snapshot.pending snapshots) w w' := by
    apply h.chronicle.of_restoreAll _ hrestore herrors
    rw [h.map_id]
    exact hids
  have hat : ∀ s : Snapshot, s.place w = s.place w₀ := Snapshot.place_congr h.here
  by_cases hex : ∃ s ∈ Snapshot.pending snapshots, s.place w = place
  · obtain ⟨front, s, rest, heq, rfl, hlast⟩ := exists_last_of_mem hex
    have hs : s ∈ snapshots := by
      apply (Snapshot.mem_pending_iff.mp _).1
      rw [heq]
      exact List.mem_append_right _ List.mem_cons_self
    rw [hback.last front s rest heq hlast, hat]
    exact (h.original s hs).bytes.symm
  · rw [hback.others place hplace fun s hs heq => hex ⟨s, hs, heq⟩]
    apply (h.changed place hplace).resolve_right
    rintro ⟨s, hs, hnot, heq⟩
    exact hex ⟨s, Snapshot.mem_pending_iff.mpr ⟨hs, hnot⟩, (hat s).trans heq⟩

/-- The record of a snapshot that is not put back is found by its identifier. -/
theorem Recorded.find?_id (h : Recorded manifest w₀ outcomes snapshots w)
    (hids : ((outcomes.filterMap Outcome.backup).map Backup.id).Nodup) (hs : s ∈ snapshots) :
  manifest.find? (.str s.id) w = .ok (some (s.record w).toJson) w
  := by
  have hne : snapshots.map (Snapshot.record w) ≠ [] := by
    intro hnil
    rw [List.map_eq_nil_iff.mp hnil] at hs
    cases hs
  have hdistinct : ((snapshots.map (Snapshot.record w)).map Manifest.Record.id).Nodup := by
    rw [← h.map_id] at hids
    rw [List.map_map]
    exact hids
  apply bind_eq_ok_iff.mpr
  refine ⟨_, w, h.chronicle.shows.read hne, ofExcept_eq_ok_iff.mpr ⟨?_, rfl⟩⟩
  rw [Manifest.backups_listing, Manifest.findRecord_map_toJson]
  exact congrArg (fun found => Except.ok (found.map Manifest.Record.toJson))
    (Manifest.find?_id_of_mem (r := s.record w) hdistinct (List.mem_map_of_mem hs))

/-- What is recorded of the backup of a stylesheet at a time. -/
def recordOf (w : World) (b : Backup) (bytes : List UInt8) : Json :=
  Manifest.newRecord b.id (Path.fromRoot (w.files.placeOf b.file)).toString
    (Path.fromRoot (w.files.placeOf b.copy)).toString b.stamp w.now.iso Manifest.defaultReason
    (Digest.Sha256.digest bytes)

end StylePrune.Prune.Plan
