import StylePrune.Proofs.Backup.Records
import StylePrune.Proofs.Files.Kinds
import StylePrune.Proofs.Job.Calls
import StylePrune.Proofs.Text.Utf8

/-!
# The file of the manifest

A manifest that is written is found by the next reader as it was written (`Manifest.Shows`), and
goes on being found as long as its file is left alone.  Reading changes nothing; writing stays at
the place of the manifest, at the one beside it where it is written first, and on the way to its
directory.
-/

namespace StylePrune

namespace Job

variable {w w' : World} {p q : Path} {bytes : List UInt8} {touched made : Set Place}

/-- Writing a file and giving it another name stays at the places of the two names. -/
theorem within_writeBytes_rename (tree : w.files.IsTree) (hp : w.files.placeOf p ∈ touched)
    (hq : w.files.placeOf q ∈ touched) :
  Within touched made (writeBytes p bytes >>= fun _ => rename p q) w
  := by
  apply Within.bind (within_writeBytes tree hp)
  intro _ w₁ hwrite h
  have hholds := holds_of_writeBytes tree hwrite
  apply within_rename h.files.tree
  · rw [h.placeOf]
    exact hp
  · rw [h.placeOf]
    exact hq
  · intro hdirectory
    have hbytes := hholds.bytes
    rw [Files.bytesAt?_of_directory hdirectory] at hbytes
    cases hbytes

/-- A file that was written and renamed is found under its new name. -/
theorem holds_of_writeBytes_rename (tree : w.files.IsTree)
    (h : (writeBytes p bytes >>= fun _ => rename p q) w = .ok () w') :
  w'.Holds q bytes
  := by
  obtain ⟨_, w₁, hwrite, hrename⟩ := bind_eq_ok_iff.mp h
  have hbecomes : w.Becomes {w.files.placeOf p} ∅ w₁ :=
    (within_writeBytes tree (Set.mem_singleton _)).of_ok hwrite
  exact holds_of_rename hbecomes.files.tree (holds_of_writeBytes tree hwrite) hrename

/-- Nothing is left under the name that a file was written with before it was renamed. -/
theorem get?_of_writeBytes_rename (tree : w.files.IsTree)
    (hne : w.files.placeOf p ≠ w.files.placeOf q)
    (h : (writeBytes p bytes >>= fun _ => rename p q) w = .ok () w') :
  w'.files.get? (w.files.placeOf p) = none
  := by
  obtain ⟨_, w₁, hwrite, hrename⟩ := bind_eq_ok_iff.mp h
  have hbecomes : w.Becomes {w.files.placeOf p} ∅ w₁ :=
    (within_writeBytes tree (Set.mem_singleton _)).of_ok hwrite
  rw [← hbecomes.placeOf, ← hbecomes.placeOf q] at hne
  rw [← hbecomes.placeOf]
  exact get?_of_rename hbecomes.files.tree (holds_of_writeBytes tree hwrite) hne hrename

/-- Which faults reading a text can end with. -/
theorem readText_eq_error {fault : Fault} (h : readText p w = .error fault w') :
  w' = w ∧ ((∃ error, fault = .system error ∧ hasNull p = false)
    ∨ fault = .embeddedNull ∧ hasNull p = true
    ∨ ∃ bytes cause, w.Holds p bytes ∧ Text.Utf8.decode bytes = .error cause
      ∧ fault = .undecodable cause)
  := by
  have hleft := left_readText p w
  rw [h] at hleft
  refine ⟨hleft, ?_⟩
  rw [readText, bind_eq_error_iff] at h
  rcases h with h | ⟨bytes, w₁, hread, h⟩
  · rw [readBytes, ask_apply] at h
    cases hnull : hasNull p with
    | true =>
        rw [hnull] at h
        obtain ⟨rfl, -⟩ := EStateM.Result.error.inj h
        exact .inr (.inl ⟨rfl, rfl⟩)
    | false =>
        rw [hnull] at h
        cases hcall : w.files.read p with
        | ok bytes =>
            rw [hcall] at h
            cases h
        | error cause =>
            rw [hcall] at h
            obtain ⟨rfl, -⟩ := EStateM.Result.error.inj h
            exact .inl ⟨_, rfl, rfl⟩
  · obtain ⟨hholds, rfl⟩ := readBytes_eq_ok_iff.mp hread
    cases hdecode : Text.Utf8.decode bytes with
    | ok t =>
        rw [hdecode] at h
        cases h
    | error cause =>
        rw [hdecode] at h
        obtain ⟨rfl, -⟩ := EStateM.Result.error.inj h
        exact .inr (.inr ⟨bytes, cause, hholds, hdecode, rfl⟩)

end Job

namespace Manifest

open Job

variable {m : Manifest} {w w' : World} {c c' : Contents} {touched made : Set Place}

/-! ### Reading -/

/-- A manifest that cannot be opened is empty. -/
theorem read_apply (m : Manifest) (w : World) :
  m.read w
    = match readText m.path w with
      | .ok t w' => .ok (Contents.ofText t) w'
      | .error (.system _) w' => .ok .empty w'
      | .error fault w' => .error fault w'
  := by
  cases h : readText m.path w with
  | ok t w' =>
      simp only [Manifest.read, bind, EStateM.bind, tryCatch, tryCatchThe,
        MonadExceptOf.tryCatch, EStateM.tryCatch, h]
      rfl
  | error fault w' =>
      cases fault <;>
        simp only [Manifest.read, bind, EStateM.bind, tryCatch, tryCatchThe,
          MonadExceptOf.tryCatch, EStateM.tryCatch, h] <;>
        rfl

theorem left_read (m : Manifest) (w : World) :
  left (m.read w) = w
  := by
  have hleft := left_readText m.path w
  rw [read_apply]
  cases h : readText m.path w with
  | ok t w' =>
      rw [h] at hleft
      exact hleft
  | error fault w' =>
      rw [h] at hleft
      cases fault <;> exact hleft

theorem world_of_read (h : m.read w = .ok c w') :
  w' = w
  := by
  have hleft := left_read m w
  rw [h] at hleft
  exact hleft

/-- What is read is what the file has, or empty where it cannot be read. -/
theorem read_cases (h : m.read w = .ok c w') :
  (∃ bytes t, w.Holds m.path bytes ∧ Text.Utf8.decode bytes = .ok t ∧ c = .ofText t) ∨ c = .empty
  := by
  rw [read_apply] at h
  cases hread : readText m.path w with
  | ok t w₁ =>
      rw [hread] at h
      obtain ⟨rfl, -⟩ := EStateM.Result.ok.inj h
      obtain ⟨bytes, hholds, hdecode, -⟩ := readText_eq_ok_iff.mp hread
      exact .inl ⟨bytes, t, hholds, hdecode, rfl⟩
  | error fault w₁ =>
      rw [hread] at h
      cases fault with
      | system error => exact .inr (EStateM.Result.ok.inj h).1.symm
      | _ => cases h

/-- Reading fails on a path that no call takes, and on what is no text. -/
theorem fault_of_read {fault : Fault} (h : m.read w = .error fault w') :
  fault = .embeddedNull ∨ ∃ cause, fault = .undecodable cause
  := by
  rw [read_apply] at h
  cases hread : readText m.path w with
  | ok t w₁ =>
      rw [hread] at h
      cases h
  | error cause w₁ =>
      rw [hread] at h
      obtain ⟨-, ⟨error, rfl, -⟩ | ⟨rfl, -⟩ | ⟨bytes, cause', -, -, rfl⟩⟩ := readText_eq_error hread
      · cases h
      · exact .inl (EStateM.Result.error.inj h).1.symm
      · exact .inr ⟨cause', (EStateM.Result.error.inj h).1.symm⟩

/-- Whether the manifest shows the given contents: its file reads as these, or it is missing and
they are empty. -/
def Shows (m : Manifest) (w : World) (c : Contents) : Prop :=
  w.files.bytesAt? (w.files.placeOf m.path) = none ∧ c = .empty
    ∨ ∃ bytes t, w.Holds m.path bytes ∧ Text.Utf8.decode bytes = .ok t ∧ Contents.ofText t = c

theorem Shows.of_becomes (h : m.Shows w c) (hw : w.Becomes touched made w')
    (hm : w.files.placeOf m.path ∉ touched) :
  m.Shows w' c
  := by
  rcases h with ⟨hnone, hc⟩ | ⟨bytes, t, hholds, hdecode, hc⟩
  · refine .inl ⟨?_, hc⟩
    rw [hw.placeOf, hw.files.bytes _ hm]
    exact hnone
  · exact .inr ⟨bytes, t, hholds.of_becomes hw hm, hdecode, hc⟩

/-- Records that a manifest shows can be read. -/
theorem Shows.read {records : List Record} (h : m.Shows w (listing records)) (hne : records ≠ []) :
  m.read w = .ok (listing records) w
  := by
  rcases h with ⟨-, hempty⟩ | ⟨bytes, t, hholds, hdecode, hc⟩
  · have hbackups := congrArg Contents.backups hempty
    rw [backups_listing] at hbackups
    exact absurd (List.map_eq_nil_iff.mp hbackups) hne
  · rw [read_apply, readText_eq_ok_iff.mpr ⟨bytes, hholds, hdecode, rfl⟩, ← hc]

/-- The records that are read and not marked are answered with, the newest first, if they can be put in
order. -/
theorem unrestored_of_read {pending : List Json} (hread : m.read w = .ok c w)
    (hpending : unrestoredOf c.backups = .ok pending) :
  m.unrestored w
    = if comparable pending then .ok (newestFirst pending) w else .error .incomparable w
  := by
  have hall : m.all w = .ok c.backups w := bind_of_ok hread
  rw [unrestored, bind_of_ok hall, bind_of_ok (ofExcept_eq_ok_iff.mpr ⟨hpending, rfl⟩)]
  cases comparable pending with
  | true => rfl
  | false => rfl

theorem unrestored_of_read_listing {records : List Record}
    (hread : m.read w = .ok (listing records) w) :
  m.unrestored w = .ok ((latestFirst (records.filter (!·.restored))).map Record.toJson) w
  := by
  rw [unrestored_of_read hread (unrestoredOf_map_toJson records), comparable_map_toJson, if_pos rfl,
    newestFirst_map_toJson]

/-- Marking a record writes the contents with the record marked. -/
theorem markRestored_apply {id : Json} {marked : List Json} (hread : m.read w = .ok c w)
    (hmark : markRecords id c.backups = .ok marked) :
  m.markRestored id w = m.write (c.setBackups marked) w
  := by
  rw [markRestored, bind_of_ok hread, bind_of_ok (ofExcept_eq_ok_iff.mpr ⟨hmark, rfl⟩)]

/-- What is read is what the manifest shows. -/
theorem eq_of_read (h : m.read w = .ok c w') (hc' : m.Shows w c') :
  w' = w ∧ c = c'
  := by
  refine ⟨world_of_read h, ?_⟩
  rcases hc' with ⟨hnone, rfl⟩ | ⟨bytes, t, hholds, hdecode, rfl⟩
  · rcases read_cases h with ⟨bytes, t, hholds, -⟩ | hempty
    · rw [hholds.bytes] at hnone
      cases hnone
    · exact hempty
  · rw [read_apply, readText_eq_ok_iff.mpr ⟨bytes, hholds, hdecode, rfl⟩] at h
    exact (EStateM.Result.ok.inj h).1.symm

/-! ### Writing -/

/-- The places of the manifest: its own, and the one where it is written first. -/
def places (m : Manifest) (w : World) : Set Place :=
  {w.files.placeOf m.temporaryPath, w.files.placeOf m.path}

theorem places_congr (h : w'.files.here = w.files.here) (m : Manifest) :
  m.places w' = m.places w
  := by
  rw [places, places, Files.placeOf_congr h, Files.placeOf_congr h]

theorem within_write (tree : w.files.IsTree) (hplaces : m.places w ⊆ touched)
    (hmade : w.files.onTheWay m.directory ⊆ made) (c : Contents) :
  Within touched made (m.write c) w
  := by
  apply Within.bind (within_makeDirs tree hmade)
  rintro _ w₁ - h
  apply within_writeBytes_rename h.files.tree
  · rw [h.placeOf]
    exact hplaces (Set.mem_insert _ _)
  · rw [h.placeOf]
    exact hplaces (Set.mem_insert_of_mem _ rfl)

/-- Where a manifest could not be written, its own file is as it was. -/
theorem becomes_of_write_eq_error (tree : w.files.IsTree) {fault : Fault}
    (h : m.write c w = .error fault w') :
  w.Becomes {w.files.placeOf m.temporaryPath} Set.univ w'
  := by
  have hmake : Within {w.files.placeOf m.temporaryPath} Set.univ (makeDirs m.directory) w :=
    (within_makeDirs tree (Set.subset_univ _)).mono (Set.empty_subset _) (Set.Subset.refl _)
  rcases bind_eq_error_iff.mp h with hfailed | ⟨_, w₁, hmade, hrest⟩
  · exact hmake.of_error hfailed
  · have h₁ := hmake.of_ok hmade
    have hwrite : Within {w.files.placeOf m.temporaryPath} Set.univ
        (Job.writeText m.temporaryPath c.toText) w₁ := by
      apply within_writeBytes h₁.files.tree
      rw [h₁.placeOf]
      exact Set.mem_singleton _
    apply h₁.trans
    rcases bind_eq_error_iff.mp hrest with hfailed | ⟨_, w₂, hwritten, hrename⟩
    · exact hwrite.of_error hfailed
    · obtain rfl := eq_of_rename_eq_error hrename
      exact hwrite.of_ok hwritten

/-- A manifest that was written holds what was written. -/
theorem holds_of_write (tree : w.files.IsTree) (h : m.write c w = .ok () w') :
  w'.Holds m.path (Text.Utf8.encode c.toText)
  := by
  obtain ⟨_, w₁, hmake, hwrite⟩ := bind_eq_ok_iff.mp h
  have hbecomes : w.Becomes ∅ Set.univ w₁ :=
    (within_makeDirs tree (Set.subset_univ _)).of_ok hmake
  exact holds_of_writeBytes_rename hbecomes.files.tree hwrite

theorem suffixAt_placeOf_path (fs : Files) (m : Manifest) :
  Files.suffixAt (fs.placeOf m.path) = ".json"
  := by
  rw [path, Files.placeOf_child _ _ (by decide), Files.suffixAt_concat]
  decide

theorem suffixAt_placeOf_temporaryPath (fs : Files) (m : Manifest) :
  Files.suffixAt (fs.placeOf m.temporaryPath) = Files.temporarySuffix
  := by
  rw [temporaryPath, Files.placeOf_child _ _ (by decide), Files.suffixAt_concat]
  decide

theorem placeOf_path_ne_temporaryPath (fs : Files) (m : Manifest) :
  fs.placeOf m.path ≠ fs.placeOf m.temporaryPath
  := by
  intro heq
  have hsuffix := suffixAt_placeOf_path fs m
  rw [heq, suffixAt_placeOf_temporaryPath] at hsuffix
  exact absurd hsuffix (by decide)

/-- Nothing is left where a manifest was written first. -/
theorem get?_temporaryPath_of_write (tree : w.files.IsTree) (h : m.write c w = .ok () w') :
  w'.files.get? (w.files.placeOf m.temporaryPath) = none
  := by
  obtain ⟨_, w₁, hmake, hwrite⟩ := bind_eq_ok_iff.mp h
  have hbecomes : w.Becomes ∅ Set.univ w₁ :=
    (within_makeDirs tree (Set.subset_univ _)).of_ok hmake
  rw [← hbecomes.placeOf]
  apply get?_of_writeBytes_rename hbecomes.files.tree _ hwrite
  exact (placeOf_path_ne_temporaryPath w₁.files m).symm

/-- A listing that was written is shown. -/
theorem shows_of_write (tree : w.files.IsTree) {records : List Record}
    (h : m.write (listing records) w = .ok () w') :
  m.Shows w' (listing records)
  := .inr ⟨_, _, holds_of_write tree h, Text.Utf8.decode_encode _, ofText_toText records⟩

theorem within_add (tree : w.files.IsTree) (hplaces : m.places w ⊆ touched)
    (hmade : w.files.onTheWay m.directory ⊆ made) (id file copy stamp hash reason : String) :
  Within touched made (m.add id file copy stamp hash reason) w
  := by
  rw [add]
  apply Within.bind (.of_left_eq tree (left_read m w))
  rintro c w₁ - h
  apply Within.get
  change Within touched made (m.write (c.setBackups
    (c.backups ++ [newRecord id file copy stamp w₁.now.iso reason hash]))) w₁
  apply within_write h.files.tree
  · rw [places_congr h.files.here]
    exact hplaces
  · rw [Files.onTheWay_congr h.files.here]
    exact hmade

/-- Where a record could not be added, the file of the manifest is as it was. -/
theorem becomes_of_add_eq_error (tree : w.files.IsTree) {id file copy stamp hash reason : String}
    {fault : Fault} (h : m.add id file copy stamp hash reason w = .error fault w') :
  w.Becomes {w.files.placeOf m.temporaryPath} Set.univ w'
  := by
  have hleft := left_read m w
  rcases bind_eq_error_iff.mp h with hread | ⟨c, w₁, hread, hwrite⟩
  · rw [hread] at hleft
    obtain rfl : w' = w := hleft
    exact .refl tree
  · rw [hread] at hleft
    obtain rfl : w₁ = w := hleft
    exact becomes_of_write_eq_error tree hwrite

/-- Adding a record to a manifest that shows a listing makes it show one record more. -/
theorem shows_of_add (tree : w.files.IsTree) {records : List Record}
    (hshows : m.Shows w (listing records)) {id file copy stamp hash reason : String}
    (h : m.add id file copy stamp hash reason w = .ok () w') :
  m.Shows w' (listing (records
    ++ [{ id, file, copy, stamp, created := w.now.iso, reason, hash }]))
  := by
  obtain ⟨c, w₁, hread, hwrite⟩ := bind_eq_ok_iff.mp h
  obtain ⟨rfl, rfl⟩ := eq_of_read hread hshows
  apply shows_of_write tree
  rw [listing_concat]
  exact hwrite

theorem hasNull_path (h : hasNull m.directory = false) :
  hasNull m.path = false
  := by
  rw [path, hasNull_child, h]
  decide

theorem hasNull_temporaryPath (h : hasNull m.directory = false) :
  hasNull m.temporaryPath = false
  := by
  rw [temporaryPath, hasNull_child, h]
  decide

theorem failsByCalls_write {null : Prop} (hnull : hasNull m.directory = true → null) (c : Contents) :
  FailsByCalls null (m.write c)
  := by
  have htemporary : hasNull m.temporaryPath = true → null := fun h =>
    hnull (hasNull_of_imp hasNull_temporaryPath h)
  apply FailsByCalls.bind (.makeDirsWithin _ hnull)
  intro _
  apply FailsByCalls.bind (.writeText _ htemporary)
  intro _
  exact .rename htemporary fun h => hnull (hasNull_of_imp hasNull_path h)

theorem left_ofExcept {α : Type} (e : Except Fault α) (w : World) :
  left (Job.ofExcept e w) = w
  := by
  cases e <;> rfl

theorem within_markRestored (tree : w.files.IsTree) (hplaces : m.places w ⊆ touched)
    (hmade : w.files.onTheWay m.directory ⊆ made) (id : Json) :
  Within touched made (m.markRestored id) w
  := by
  apply Within.bind (.of_left_eq tree (left_read m w))
  rintro c w₁ - h
  apply Within.bind (.of_left_eq h.files.tree (left_ofExcept _ w₁))
  rintro records w₂ - h₂
  apply within_write h₂.files.tree
  · rw [places_congr (h.trans h₂).files.here]
    exact hplaces
  · rw [Files.onTheWay_congr (h.trans h₂).files.here]
    exact hmade

/-- Adding a record leaves the world alone, or leaves what writing leaves. -/
theorem left_add_cases (m : Manifest) (id file copy stamp hash reason : String) (w : World) :
  left (m.add id file copy stamp hash reason w) = w
    ∨ ∃ c, m.read w = .ok c w ∧ left (m.add id file copy stamp hash reason w)
      = left (m.write (c.setBackups
        (c.backups ++ [newRecord id file copy stamp w.now.iso reason hash])) w)
  := by
  have hleft := left_read m w
  rw [add]
  change left (EStateM.bind m.read _ w) = w ∨ ∃ c, _ ∧ left (EStateM.bind m.read _ w) = _
  rw [EStateM.bind]
  cases hread : m.read w with
  | error fault w' =>
      rw [hread] at hleft
      exact .inl hleft
  | ok c w' =>
      rw [hread] at hleft
      obtain rfl : w' = w := hleft
      exact .inr ⟨c, rfl, rfl⟩

/-- Marking a record leaves the world alone, or leaves what writing leaves. -/
theorem left_markRestored_cases (m : Manifest) (id : Json) (w : World) :
  left (m.markRestored id w) = w
    ∨ ∃ c marked, m.read w = .ok c w ∧ markRecords id c.backups = .ok marked
      ∧ left (m.markRestored id w) = left (m.write (c.setBackups marked) w)
  := by
  have hleft := left_read m w
  rw [markRestored]
  change left (EStateM.bind m.read _ w) = w ∨ ∃ c marked, _ ∧ _ ∧ left (EStateM.bind m.read _ w) = _
  rw [EStateM.bind]
  cases hread : m.read w with
  | error fault w' =>
      rw [hread] at hleft
      exact .inl hleft
  | ok c w' =>
      rw [hread] at hleft
      obtain rfl : w' = w := hleft
      cases hmark : markRecords id c.backups with
      | error fault =>
          left
          change left (EStateM.bind (Job.ofExcept (markRecords id c.backups)) _ w') = w'
          rw [hmark]
          rfl
      | ok marked =>
          refine .inr ⟨c, marked, rfl, hmark, ?_⟩
          change left (EStateM.bind (Job.ofExcept (markRecords id c.backups)) _ w') = _
          rw [hmark]
          rfl

theorem markRecords_ne_error_backup (id : Json) (records : List Json) (cause : BackupFault) :
  markRecords id records ≠ .error (.backup cause)
  := by
  induction records with
  | nil => rintro ⟨⟩
  | cons record rest ih =>
      rw [markRecords]
      cases hneed : need record "id" with
      | error fault =>
          rintro heq
          obtain rfl := Except.error.inj heq
          rw [need.eq_def] at hneed
          split at hneed
          · split at hneed <;> cases hneed
          · cases hneed
      | ok value =>
          change (if value.agrees id then _ else _) ≠ _
          split
          · rintro ⟨⟩
          · cases hrest : markRecords id rest with
            | ok rest' => rintro ⟨⟩
            | error fault =>
                rintro heq
                obtain rfl := Except.error.inj heq
                exact ih hrest

theorem markRestored_ne_error_backup (m : Manifest) (id : Json) (cause : BackupFault) (w w' : World) :
  m.markRestored id w ≠ .error (.backup cause) w'
  := by
  intro h
  rcases bind_eq_error_iff.mp h with h | ⟨c, w₁, -, h⟩
  · obtain heq | ⟨cause', heq⟩ := fault_of_read h
    · cases heq
    · cases heq
  · rcases bind_eq_error_iff.mp h with h | ⟨records, w₂, -, h⟩
    · cases hmark : markRecords id c.backups with
      | ok records =>
          rw [hmark] at h
          cases h
      | error fault =>
          rw [hmark] at h
          obtain ⟨rfl, -⟩ := EStateM.Result.error.inj h
          exact markRecords_ne_error_backup id c.backups cause hmark
    · rcases @failsByCalls_write m True (fun _ => trivial) _ _ _ _ h with
        ⟨error, heq⟩ | ⟨heq, -⟩
      · cases heq
      · cases heq

/-- Marking a record of a manifest that shows a listing makes it show the record marked. -/
theorem shows_of_markRestored (tree : w.files.IsTree) {records : List Record}
    (hshows : m.Shows w (listing records)) (hids : (records.map Record.id).Nodup) {id : String}
    (h : m.markRestored (.str id) w = .ok () w') :
  m.Shows w' (listing (marking id records))
  := by
  obtain ⟨c, w₁, hread, hmark⟩ := bind_eq_ok_iff.mp h
  obtain ⟨rfl, rfl⟩ := eq_of_read hread hshows
  rw [backups_listing, markRecords_map_toJson records id hids] at hmark
  exact shows_of_write tree hmark

end Manifest

end StylePrune
