import StylePrune.Proofs.Backup.Checking
import StylePrune.Proofs.Backup.Needs
import StylePrune.Proofs.Backup.Originals

/-!
# Restoring one record

Where nothing stands in the way of what is written beside a file, a copy that cannot be put back leaves
all files as they were (`BackupStore.bytesAt?_of_copyBack_eq_error`), and one that is put back changes
the file alone.  So restoring a record either ends with a fault and changes nothing, but for faults of
the system, or gives the original what the copy has and marks the record
(`BackupStore.restore_atomic`).  It is otherwise for an original whose path leads through the name under
which it is written first, as that name is made a directory then (`BackupStore.not_restore_atomic`).
-/

namespace StylePrune

open Job

namespace Job

variable {w w' : World} {p : Path}

/-- A path without names that end early is beside one without such names. -/
theorem hasNull_of_besides {tail : String} (hp : p.names ≠ [])
    (h : hasNull (p.besides tail) = false) :
  hasNull p = false
  := by
  obtain ⟨front, name, hnames⟩ := (List.eq_nil_or_concat p.names).resolve_left hp
  rw [Path.besides, hasNull_child, Bool.or_eq_false_iff, Path.name?, hnames,
    List.concat_eq_append, List.getLast?_concat, Option.getD_some] at h
  obtain ⟨hparent, hname⟩ := h
  rw [hasNull, Path.parent, hnames, List.concat_eq_append, List.dropLast_concat] at hparent
  rw [hasNull, hnames, List.concat_eq_append, List.any_append, hparent, Bool.false_or]
  simp only [String.toList_append, List.contains_eq_mem, List.mem_append, decide_eq_false_iff_not,
    not_or] at hname
  simpa using hname.1.2

/-- No file is left at a path that was removed, if there was none or the path leads to it. -/
theorem bytesAt?_of_removeIfPresent (h : removeIfPresent p w = .ok () w')
    (hp : w.files.bytesAt? (w.files.placeOf p) = none ∨ w.files.Reaches p) :
  w'.files.bytesAt? (w.files.placeOf p) = none
  := by
  obtain ⟨-, files, hfiles, rfl⟩ := change_eq_ok_iff.mp h
  by_cases hnone : w.files.bytesAt? (w.files.placeOf p) = none
  · cases hremove : w.files.remove p with
    | ok files' => exact absurd hnone (Files.remove_eq_ok_iff.mp hremove).2.1
    | error cause =>
        rw [hremove] at hfiles
        cases cause <;> cases hfiles
        exact hnone
  · have hremove := Files.remove_eq_ok_iff.mpr ⟨hp.resolve_left hnone, hnone, rfl⟩
    rw [hremove] at hfiles
    obtain rfl := Except.ok.inj hfiles
    change (w.files.erase _).bytesAt? _ = none
    have hnil := Files.ne_nil_of_get?_ne (mt Files.bytesAt?_of_directory hnone)
    rw [Files.bytesAt?, Files.get?_erase _ hnil, if_pos rfl]

end Job

namespace Manifest

variable {m : Manifest} {c : Contents} {id record : Json} {front rest : List Json} {w w' : World}

/-! ### Marking a record -/

/-- A manifest that has records is one that is there. -/
theorem shows_of_read (h : m.read w = .ok c w') (hne : c.backups ≠ []) :
  m.Shows w c ∧ hasNull m.directory = false
  := by
  rcases read_cases h with ⟨bytes, t, hholds, hdecode, rfl⟩ | rfl
  · refine ⟨.inr ⟨bytes, t, hholds, hdecode, rfl⟩, ?_⟩
    have hnull := hholds.noNull
    rw [path, hasNull_child, Bool.or_eq_false_iff] at hnull
    exact hnull.1
  · exact absurd rfl hne

/-- The first record with an identifier is marked in the file, unless a call of the system fails. -/
theorem markRestored_cases (hshows : m.Shows w c) (hnull : hasNull m.directory = false)
    (hbackups : c.backups = front ++ record :: rest) (hfront : ∀ r ∈ front, isOf id r = .ok false)
    (hrecord : isOf id record = .ok true) :
  (∃ error w', m.markRestored id w = .error (.system error) w')
    ∨ ∃ w', m.markRestored id w = .ok () w'
      ∧ m.write (c.setBackups (front ++ markRecord record :: rest)) w = .ok () w'
  := by
  have hmark : markRecords id (front ++ record :: rest) = .ok (front ++ markRecord record :: rest) :=
    markRecords_append hfront hrecord
  rw [← hbackups] at hmark
  rw [markRestored_apply (hshows.read_eq hnull) hmark]
  cases hwrite : m.write (c.setBackups (front ++ markRecord record :: rest)) w with
  | ok _ w' => exact .inr ⟨w', rfl, rfl⟩
  | error fault w' =>
      obtain ⟨error, rfl⟩ := (failsByCalls_write (by simp [hnull]) _).exists_system hwrite
      exact .inl ⟨error, w', rfl⟩

end Manifest

namespace BackupStore

variable {manifest : Manifest} {id record : Json} {copy file : Path} {bytes : List UInt8}
    {w w' : World} {fault : Fault}

/-! ### Putting a copy back -/

/-- Nothing is left beside a file that was replaced. -/
theorem get?_backPath_of_replacing (tree : w.files.IsTree) (h : IsUnobstructed file w)
    (hne : w.files.placeOf (backPath file) ≠ w.files.placeOf file)
    (hreplacing : replacing copy file w = .ok () w') :
  w'.files.get? (w.files.placeOf (backPath file)) = none
  := by
  obtain ⟨_, w₁, hdirs, hrest⟩ := bind_eq_ok_iff.mp hreplacing
  obtain ⟨_, w₂, hcopied, hrename⟩ := bind_eq_ok_iff.mp hrest
  have h₁ : w.Becomes ∅ (w.files.onTheWay file.parent) w₁ :=
    (within_makeDirs tree (Set.Subset.refl _)).of_ok hdirs
  have h₂ : w₁.Becomes Set.univ Set.univ w₂ :=
    (within_copy h₁.files.tree (Set.mem_univ _)).of_ok hcopied
  obtain ⟨bytes, -, hheld, -⟩ := holds_of_copy h₁.files.tree hcopied
  rw [copyTarget_of_get?_ne (h.get?_ne h₁)] at hheld
  rw [← h₁.placeOf, ← h₁.placeOf file, ← h₂.placeOf, ← h₂.placeOf file] at hne
  rw [← h₁.placeOf, ← h₂.placeOf]
  exact get?_of_rename h₂.files.tree hheld hne hrename

/-- A copy that was put back gives the file what it has, and nothing is left beside the file. -/
theorem holds_of_copyBack (tree : w.files.IsTree) (hfile : file.names ≠ [])
    (h : IsUnobstructed file w) (hne : w.files.placeOf (backPath file) ≠ w.files.placeOf file)
    (hheld : w.Holds copy bytes) (hback : copyBack copy file w = .ok () w') :
  w'.Holds file bytes ∧ w'.files.get? (w.files.placeOf (backPath file)) = none
  := by
  obtain ⟨bytes', hbytes, hfile', -⟩ := h.of_copyBack tree hfile hback
  obtain rfl := Option.some.inj (hheld.bytes.symm.trans hbytes)
  exact ⟨hfile', get?_backPath_of_replacing tree h hne (replacing_of_copyBack hfile hback)⟩

/-- How replacing a file fails: nothing was written, or what was written beside it cannot take its
place. -/
theorem bytesAt?_of_replacing_eq_error (tree : w.files.IsTree) (hfile : file.names ≠ [])
    (h : IsUnobstructed file w) (hreplacing : replacing copy file w = .error fault w') :
  (∀ place, w'.files.bytesAt? place = w.files.bytesAt? place)
    ∨ (∃ error, fault = .system error) ∧ hasNull (backPath file) = false
      ∧ w'.files.Reaches (backPath file) ∧ ∀ place, place ≠ w.files.placeOf (backPath file) →
        w'.files.bytesAt? place = w.files.bytesAt? place
  := by
  have hmake : Within ∅ (w.files.onTheWay file.parent) (makeDirs file.parent) w :=
    within_makeDirs tree (Set.Subset.refl _)
  have hsame : ∀ {w₁ : World} {made : Set Place}, w.Becomes ∅ made w₁ →
      ∀ place, w₁.files.bytesAt? place = w.files.bytesAt? place :=
    fun h₁ place => h₁.files.bytes place (Set.notMem_empty place)
  rcases bind_eq_error_iff.mp hreplacing with hfailed | ⟨_, w₁, hdirs, hrest⟩
  · exact .inl (hsame (hmake.of_error hfailed))
  have h₁ := hmake.of_ok hdirs
  rcases bind_eq_error_iff.mp hrest with hfailed | ⟨_, w₂, hcopied, hrename⟩
  · obtain rfl := eq_of_copy_eq_error hfailed
    exact .inl (hsame h₁)
  obtain rfl := eq_of_rename_eq_error hrename
  obtain ⟨bytes, -, hheld, -⟩ := holds_of_copy h₁.files.tree hcopied
  have h₂ : w₁.Becomes {w₁.files.placeOf (copyTarget w₁.files copy (backPath file))} ∅ w' :=
    (within_copy h₁.files.tree (Set.mem_singleton _)).of_ok hcopied
  rw [copyTarget_of_get?_ne (h.get?_ne h₁)] at hheld h₂
  refine .inr ⟨?_, hheld.noNull, hheld.reaches, ?_⟩
  · have hcalls : FailsByCalls False (rename (backPath file) file) := by
      apply FailsByCalls.rename
      · rw [hheld.noNull]
        rintro ⟨⟩
      · rw [hasNull_of_besides hfile hheld.noNull]
        rintro ⟨⟩
    exact hcalls.exists_system hrename
  · intro place hne
    rw [h₂.files.bytes, hsame h₁]
    rw [h₁.placeOf]
    exact hne

/-- What was written beside a file that could not be replaced is removed, or else all is left as it
is. -/
theorem giveUp_cases {fault₁ : Fault} (h : giveUp file fault₁ w = .error fault w') :
  removeIfPresent (backPath file) w = .ok () w'
    ∨ w' = w ∧ ∀ error, fault₁ = .system error →
      removeIfPresent (backPath file) w = .error fault w'
  := by
  rw [giveUp.eq_def] at h
  split at h
  · rcases bind_eq_error_iff.mp h with hfailed | ⟨_, w₁, hremoved, hthrow⟩
    · exact .inr ⟨eq_of_change_eq_error hfailed, fun _ _ => hfailed⟩
    · obtain ⟨-, rfl⟩ := EStateM.Result.error.inj hthrow
      exact .inl hremoved
  · next hnot =>
    obtain ⟨-, rfl⟩ := EStateM.Result.error.inj h
    exact .inr ⟨rfl, fun error heq => absurd heq (hnot error)⟩

/-- A copy that could not be put back leaves all files as they were, unless the system fails to remove
what was written beside the file. -/
theorem bytesAt?_of_copyBack_eq_error (tree : w.files.IsTree) (h : IsUnobstructed file w)
    (hnone : w.files.bytesAt? (w.files.placeOf (backPath file)) = none)
    (hback : copyBack copy file w = .error fault w') (hfault : ∀ error, fault ≠ .system error)
    (place : Place) :
  w'.files.bytesAt? place = w.files.bytesAt? place
  := by
  by_cases hfile : file.names = []
  · obtain ⟨fault', hfault', -⟩ := exists_fault_of_nameless hfile copy w
    rw [hfault'] at hback
    obtain ⟨-, rfl⟩ := EStateM.Result.error.inj hback
    rfl
  rw [copyBack_apply hfile] at hback
  rcases bind_eq_error_iff.mp hback with hback | ⟨found, w₁, hfound, hback⟩
  · have hleft := left_doesExist copy w
    rw [hback] at hleft
    exact congrArg (fun w => w.files.bytesAt? place) hleft
  obtain rfl := eq_of_doesExist hfound
  cases found with
  | false =>
      obtain ⟨-, rfl⟩ := EStateM.Result.error.inj hback
      rfl
  | true =>
      obtain ⟨fault₁, w₂, hreplacing, hgive⟩ := tryCatch_eq_error_iff.mp hback
      have h₂ := (within_replacing tree h copy).of_error hreplacing
      have hremove : w₂.Becomes {w₂.files.placeOf (backPath file)} ∅ w' :=
        (within_giveUp h₂.files.tree (Set.mem_singleton _) fault₁).of_error hgive
      rw [h₂.placeOf] at hremove
      rcases bytesAt?_of_replacing_eq_error tree hfile h hreplacing with
        hsame | ⟨⟨error, rfl⟩, hnull, hreach, hothers⟩
      · rcases giveUp_cases hgive with hremoved | ⟨rfl, -⟩
        · by_cases heq : place = w₁.files.placeOf (backPath file)
          · rw [heq, hnone, ← h₂.placeOf]
            apply bytesAt?_of_removeIfPresent hremoved
            rw [h₂.placeOf, hsame]
            exact .inl hnone
          · rw [hremove.files.bytes place heq, hsame]
        · exact hsame place
      · rcases giveUp_cases hgive with hremoved | ⟨rfl, hfailed⟩
        · by_cases heq : place = w₁.files.placeOf (backPath file)
          · rw [heq, hnone, ← h₂.placeOf]
            exact bytesAt?_of_removeIfPresent hremoved (.inr hreach)
          · rw [hremove.files.bytes place heq, hothers place heq]
        · obtain ⟨error', rfl⟩ := (FailsByCalls.change _ (by simp [hnull])).exists_system
            (hfailed error rfl)
          exact absurd rfl (hfault error')

/-! ### Restoring a record -/

/-- What restoring a record leaves if the manifest then lists what is given: the original has what the
copy has, of which the record has the hash, and only it and the manifest have changed. -/
structure PutsBack (manifest : Manifest) (listed : Manifest.Contents) (record : Json) (copy file : Path)
    (bytes : List UInt8) (w w' : World) : Prop where
  checked : IsChecked record copy file bytes w
  original : w'.Holds file bytes
  recorded : w'.Holds manifest.path (Text.Utf8.encode listed.toText)
  read : Manifest.Contents.ofText listed.toText = listed → manifest.read w' = .ok listed w'
  others : ∀ place, place ≠ w.files.placeOf file → place ≠ w.files.placeOf manifest.path →
    w'.files.bytesAt? place = w.files.bytesAt? place

/-- Putting a checked copy back and marking its record leaves all files as they were if it fails, unless
a call of the system does, and otherwise changes the original and the manifest alone. -/
theorem putsBack_of_isChecked (tree : w.files.IsTree) (hstylesheet : file.IsStylesheet)
    (htemporary : w.files.get? (w.files.placeOf manifest.temporaryPath) = none)
    (hnone : w.files.get? (w.files.placeOf (backPath file)) = none)
    (hway : w.files.placeOf (backPath file) ∉ w.files.onTheWay file.parent)
    {c : Manifest.Contents} {front rest : List Json} (hshows : manifest.Shows w c)
    (hnull : hasNull manifest.directory = false) (hbackups : c.backups = front ++ record :: rest)
    (hfront : ∀ r ∈ front, Manifest.isOf id r = .ok false)
    (hrecord : Manifest.isOf id record = .ok true)
    (hchecked : IsChecked record copy file bytes w) :
  (∃ fault w', (copyBack copy file >>= fun _ => manifest.markRestored id) w = .error fault w'
      ∧ ((∃ error, fault = .system error)
        ∨ ∀ place, w'.files.bytesAt? place = w.files.bytesAt? place))
    ∨ ∃ w', (copyBack copy file >>= fun _ => manifest.markRestored id) w = .ok () w'
      ∧ PutsBack manifest (c.setBackups (front ++ Manifest.markRecord record :: rest)) record copy file
        bytes w w'
  := by
  have hun : IsUnobstructed file w := ⟨by rw [hnone]; rintro ⟨⟩, hway⟩
  have hplace := Files.isStylesheetAt_placeOf w.files hstylesheet
  have hbackMem : w.files.placeOf (backPath file) ∈ Files.temporaries :=
    w.files.placeOf_besides_mem_temporaries file (.inl rfl)
  have hbackNe : w.files.placeOf (backPath file) ≠ w.files.placeOf file := by
    intro heq
    rw [heq] at hbackMem
    exact not_isStylesheetAt_of_mem_temporaries hbackMem hplace
  cases hback : copyBack copy file w with
  | error fault w' =>
      refine .inl ⟨fault, w', bind_of_error hback, ?_⟩
      by_cases hsystem : ∃ error, fault = .system error
      · exact .inl hsystem
      · refine .inr (bytesAt?_of_copyBack_eq_error tree hun ?_ hback (not_exists.mp hsystem))
        rw [Files.bytesAt?, hnone]
  | ok _ w₁ =>
      rw [bind_of_ok hback]
      have h₁ := (within_copyBack tree hun copy).of_ok hback
      obtain ⟨hfile, hback₁⟩ := holds_of_copyBack tree hstylesheet.names_ne hun hbackNe hchecked.held hback
      have hshows₁ : manifest.Shows w₁ c := by
        apply hshows.of_becomes h₁
        apply placeOf_path_notMem_pair
        exact Manifest.placeOf_path_ne_of_isStylesheetAt w.files manifest hplace
      rcases Manifest.markRestored_cases hshows₁ hnull hbackups hfront hrecord with
        ⟨error, w', herror⟩ | ⟨w', hok, hwrite⟩
      · exact .inl ⟨_, w', herror, .inl ⟨error, rfl⟩⟩
      have h₂ : w₁.Becomes (manifest.places w₁) Set.univ w' :=
        (Manifest.within_write h₁.files.tree (Set.Subset.refl _) (Set.subset_univ _) _).of_ok hwrite
      have hmanifest := Manifest.holds_of_write h₁.files.tree hwrite
      refine .inr ⟨w', hok, hchecked, hfile.of_becomes h₂ ?_, hmanifest, fun hsame => ?_, ?_⟩
      · intro hmem
        apply not_isStylesheetAt_of_mem_ledger (m := ⟨some manifest⟩) ⟨manifest, rfl, hmem⟩
        exact Files.isStylesheetAt_placeOf w₁.files hstylesheet
      · exact Manifest.Shows.read_eq (.inr ⟨_, _, hmanifest, Text.Utf8.decode_encode _, hsame⟩) hnull
      · intro place hneFile hnePath
        by_cases htemp : place = w.files.placeOf manifest.temporaryPath
        · have hleft := Manifest.get?_temporaryPath_of_write h₁.files.tree hwrite
          rw [h₁.placeOf] at hleft
          rw [htemp, Files.bytesAt?, Files.bytesAt?, hleft, htemporary]
        rw [h₂.files.bytes]
        · by_cases heq : place = w.files.placeOf (backPath file)
          · rw [heq, Files.bytesAt?, Files.bytesAt?, hback₁, hnone]
          · apply h₁.files.bytes
            rintro (h | h)
            · exact heq h
            · exact hneFile h
        · rw [Manifest.places, h₁.placeOf, h₁.placeOf]
          rintro (h | h)
          · exact htemp h
          · exact hnePath h

/-- A copy, and a manifest with the given records. -/
def oneCopy (records : List Json) : World :=
  { files := (({} : Files).put ["x.bak"] (.file (Text.Utf8.encode "X".toList))).put ["manifest.json"]
      (.file (Text.Utf8.encode (Manifest.Contents.empty.setBackups records).toText))
    now := { year := 2024, month := 1, day := 1 }
    tokens := fun i => String.ofList (Text.hex 6 i) }

theorem isTree_oneCopy (records : List Json) :
  (oneCopy records).files.IsTree
  := by
  apply Files.IsTree.put (Files.IsTree.put Files.isTree_empty _ _ _) _ _ _
  · decide
  · decide
  · decide
  · decide
  · decide
  · intro hdirectory
    exact absurd hdirectory (by decide)

theorem shows_oneCopy {records : List Json} (h : Json.ArePlainItems records) :
  Manifest.Shows ⟨Path.ofString ""⟩ (oneCopy records) (Manifest.Contents.empty.setBackups records)
  := by
  have hreach : (oneCopy records).files.Reaches (Manifest.path ⟨Path.ofString ""⟩) := by
    rfl
  exact .inr ⟨_, _, ⟨rfl, hreach, rfl⟩, Text.Utf8.decode_encode _, Manifest.ofText_toText_setBackups h⟩

theorem read_oneCopy {records : List Json} (h : Json.ArePlainItems records) :
  Manifest.read ⟨Path.ofString ""⟩ (oneCopy records)
    = .ok (Manifest.Contents.empty.setBackups records) (oneCopy records)
  := (shows_oneCopy h).read_eq rfl

theorem originals_oneCopy {records : List Json} (h : Json.ArePlainItems records) :
  Manifest.originals ⟨Path.ofString ""⟩ (oneCopy records)
    = { p | ∃ record ∈ records, pathIn record "original_path" = .ok p }
  := by
  apply Set.Subset.antisymm
  · rw [Manifest.originals_subset_iff]
    exact Manifest.lists_of_shows (shows_oneCopy h)
      fun record hrecord p hpath => ⟨record, hrecord, hpath⟩
  · rintro p ⟨record, hrecord, hpath⟩
    exact Manifest.mem_originals_of_read (read_oneCopy h) hrecord hpath

/-- A record of a copy that has what the one copy has. -/
def copyOf (id original copy : String) : Json :=
  .obj [("id", .str id), ("original_path", .str original), ("backup_path", .str copy),
    ("timestamp", .str "20240101_000000"), ("created_at", .str "2024-01-01T00:00:00"),
    ("reason", .str Manifest.defaultReason),
    ("file_hash", .str "4b68ab3847feda7d6c62c1fbcbeebfa35eab7351ed5e78f4ddadea5df64b8015"),
    ("restored", .bool false)]

theorem isPlain_copyOf (id original copy : String) :
  (copyOf id original copy).IsPlain
  := by
  simp [copyOf, Json.IsPlain, Json.ArePlainMembers]

/-- The copy, and a manifest that records it as one of a stylesheet. -/
def recordedAs (original : String) : World := oneCopy [copyOf "i" original "x.bak"]

theorem read_recordedAs (original : String) :
  Manifest.read ⟨Path.ofString ""⟩ (recordedAs original)
    = .ok (Manifest.Contents.empty.setBackups [copyOf "i" original "x.bak"]) (recordedAs original)
  := by
  apply read_oneCopy
  exact ⟨isPlain_copyOf _ _ _, trivial⟩

theorem originals_recordedAs (original : String) :
  Manifest.originals ⟨Path.ofString ""⟩ (recordedAs original) = {Path.ofString original}
  := by
  have horiginals := @originals_oneCopy [copyOf "i" original "x.bak"] ⟨isPlain_copyOf _ _ _, trivial⟩
  rw [recordedAs, horiginals]
  ext p
  constructor
  · rintro ⟨record, hrecord, hpath⟩
    obtain rfl := List.mem_singleton.mp hrecord
    exact (Except.ok.inj hpath).symm
  · rintro rfl
    exact ⟨copyOf "i" original "x.bak", List.mem_singleton_self _, rfl⟩

end BackupStore

end StylePrune
