import StylePrune.Proofs.Backup.Needs

/-!
# Snapshots

A snapshot is a backup with the time at which it was taken and what the stylesheet had then.  The
manifest of a world may list snapshots (`Chronicle`): it shows their records, in order, and the copies
have what the stylesheets had.  A backup that is taken adds a snapshot, a record that is marked marks
one, and what touches neither the manifest nor the copies leaves all of them.
-/

namespace StylePrune

open Job BackupStore

theorem BackupStore.isName_of_mem_names_copyPath {file : Path} {mark : String}
    (hfile : ∀ name ∈ file.names, Path.IsName name) (hmark : IsMarkText mark) :
  ∀ name ∈ (copyPath file mark).names, Path.IsName name
  := by
  intro name hname
  rcases List.mem_append.mp hname with hname | hname
  · exact hfile name (List.dropLast_subset file.names hname)
  · obtain rfl := List.mem_singleton.mp hname
    have hsuffix := suffixOf_copyName file mark
    constructor
    · intro heq
      rw [heq] at hsuffix
      exact absurd hsuffix (by decide)
    · intro heq
      rw [heq] at hsuffix
      exact absurd hsuffix (by decide)
    · have hlast : '/' ∉ (file.name?.getD "").toList := by
        cases hlast : file.name? with
        | none => decide
        | some last => exact (hfile last (List.mem_of_getLast? hlast)).noSlash
      have hnot := hmark.notMem (c := '/') (by decide)
      simp only [copyName, String.toList_append, List.mem_append, not_or]
      exact ⟨⟨⟨hlast, by decide⟩, hnot⟩, by decide⟩

/-! ### Snapshots and their records -/

/-- A backup with the time at which it was taken, what the stylesheet had then, and whether it was put
back. -/
structure Snapshot where
  backup : Backup
  taken : Instant
  bytes : List UInt8
  restored : Bool := false

namespace Snapshot

/-- The identifier of the backup. -/
def id (s : Snapshot) : String := s.backup.id

/-- The place of the stylesheet. -/
def place (s : Snapshot) (w : World) : Place := w.files.placeOf s.backup.file

/-- The place of the copy. -/
def copyPlace (s : Snapshot) (w : World) : Place := w.files.placeOf s.backup.copy

/-- The record of a snapshot. -/
def record (w : World) (s : Snapshot) : Manifest.Record :=
  { id := s.id, file := (Path.fromRoot (s.place w)).toString
    copy := (Path.fromRoot (s.copyPlace w)).toString, stamp := s.backup.stamp
    created := s.taken.iso, reason := Manifest.defaultReason, hash := Digest.Sha256.digest s.bytes
    restored := s.restored }

/-- The snapshots of which the one with an identifier is put back. -/
def marking (id : String) (snapshots : List Snapshot) : List Snapshot :=
  snapshots.map fun s => if s.id = id then { s with restored := true } else s

/-- Whether a snapshot can be put back: the copy has what the stylesheet had, which is still there. -/
structure IsSound (s : Snapshot) (w : World) : Prop where
  stylesheet : s.backup.file.IsStylesheet
  proper : Files.IsProper (s.place w)
  copyProper : Files.IsProper (s.copyPlace w)
  suffix : Files.suffixAt (s.copyPlace w) = Files.copySuffix
  held : w.files.bytesAt? (s.copyPlace w) = some s.bytes
  there : w.files.bytesAt? (s.place w) ≠ none

variable {s : Snapshot} {snapshots : List Snapshot} {w w' : World} {touched made : Set Place}

theorem place_congr (h : w'.files.here = w.files.here) (s : Snapshot) :
  s.place w' = s.place w
  := Files.placeOf_congr h _

theorem copyPlace_congr (h : w'.files.here = w.files.here) (s : Snapshot) :
  s.copyPlace w' = s.copyPlace w
  := Files.placeOf_congr h _

theorem record_congr (h : w'.files.here = w.files.here) :
  record w' = record w
  := by
  funext s
  rw [record, record, place_congr h, copyPlace_congr h]

theorem map_record_marking (id : String) (snapshots : List Snapshot) (w : World) :
  (marking id snapshots).map (record w) = Manifest.marking id (snapshots.map (record w))
  := by
  rw [marking, Manifest.marking, List.map_map, List.map_map]
  refine List.map_congr_left fun s _ => ?_
  rw [Function.comp, Function.comp]
  split
  · next hid => exact (if_pos (show (record w s).id = id from hid)).symm
  · next hid => exact (if_neg (show ¬ (record w s).id = id from hid)).symm

theorem map_id_marking (id : String) (snapshots : List Snapshot) :
  (marking id snapshots).map Snapshot.id = snapshots.map Snapshot.id
  := by
  rw [marking, List.map_map]
  refine List.map_congr_left fun s _ => ?_
  rw [Function.comp]
  split <;> rfl

theorem mem_marking_of_id_ne {id : String} (hs : s ∈ snapshots) (hid : s.id ≠ id) :
  s ∈ marking id snapshots
  := List.mem_map.mpr ⟨s, hs, if_neg hid⟩

/-- With different identifiers, the last snapshot alone is marked by its own. -/
theorem marking_concat (h : s.id ∉ snapshots.map Snapshot.id) :
  marking s.id (snapshots ++ [s]) = snapshots ++ [{ s with restored := true }]
  := by
  rw [marking, List.map_append, List.map_singleton, if_pos rfl]
  congr 1
  rw [List.map_congr_left (g := fun t => t), List.map_id']
  intro t ht
  rw [if_neg]
  intro heq
  exact h (heq ▸ List.mem_map_of_mem ht)

theorem IsSound.of_becomes (h : s.IsSound w) (hw : w.Becomes touched made w')
    (hcopy : s.copyPlace w ∉ touched) (hfile : w'.files.bytesAt? (s.place w) ≠ none) :
  s.IsSound w'
  := by
  have hhere := hw.files.here
  constructor
  · exact h.stylesheet
  · rw [place_congr hhere]
    exact h.proper
  · rw [copyPlace_congr hhere]
    exact h.copyProper
  · rw [copyPlace_congr hhere]
    exact h.suffix
  · rw [copyPlace_congr hhere, hw.files.bytes _ hcopy]
    exact h.held
  · rw [place_congr hhere]
    exact hfile

theorem IsSound.isStylesheetAt (h : s.IsSound w) :
  Files.IsStylesheetAt (s.place w)
  := w.files.isStylesheetAt_placeOf h.stylesheet

/-- What belongs to the manifest is no stylesheet and no copy. -/
theorem IsSound.of_ledger {m : BackupStore} (h : s.IsSound w) (hw : w.Becomes (m.ledger w) made w') :
  s.IsSound w'
  := by
  apply h.of_becomes hw
  · intro hledger
    exact suffixAt_ne_of_mem_ledger hledger h.suffix
  · rw [hw.files.bytes _ fun hledger => not_isStylesheetAt_of_mem_ledger hledger h.isStylesheetAt]
    exact h.there

end Snapshot

/-! ### Chronicles -/

/-- Whether the manifest of a world lists snapshots that can be put back. -/
structure Chronicle (manifest : Manifest) (snapshots : List Snapshot) (w : World) : Prop where
  tree : w.files.IsTree
  here : Files.IsProper w.files.here
  shows : manifest.Shows w (Manifest.listing (snapshots.map (Snapshot.record w)))
  sound : ∀ s ∈ snapshots, s.IsSound w

namespace Chronicle

variable {manifest : Manifest} {snapshots : List Snapshot} {s : Snapshot} {w w' : World}
    {touched made : Set Place} {file : Path} {b : Backup}

/-- Where there is no manifest, it lists nothing. -/
theorem of_missing (tree : w.files.IsTree) (hhere : Files.IsProper w.files.here)
    (h : w.files.bytesAt? (w.files.placeOf manifest.path) = none) :
  Chronicle manifest [] w
  := by
  refine ⟨tree, hhere, .inl ⟨h, rfl⟩, ?_⟩
  rintro s ⟨⟩

/-- The clock, the tokens and the log do not matter. -/
theorem of_files_eq (h : Chronicle manifest snapshots w) (hfiles : w'.files = w.files) :
  Chronicle manifest snapshots w'
  := by
  refine ⟨hfiles ▸ h.tree, hfiles ▸ h.here, ?_, ?_⟩
  · rw [Snapshot.record_congr (congrArg Files.here hfiles)]
    rcases h.shows with ⟨hnone, hempty⟩ | ⟨bytes, t, hholds, hdecode, ht⟩
    · exact .inl ⟨hfiles ▸ hnone, hempty⟩
    · exact .inr ⟨bytes, t, ⟨hholds.noNull, hfiles ▸ hholds.reaches, hfiles ▸ hholds.bytes⟩,
        hdecode, ht⟩
  · intro s hs
    have hsound := h.sound s hs
    constructor
    · exact hsound.stylesheet
    · rw [Snapshot.place, hfiles]
      exact hsound.proper
    · rw [Snapshot.copyPlace, hfiles]
      exact hsound.copyProper
    · rw [Snapshot.copyPlace, hfiles]
      exact hsound.suffix
    · rw [Snapshot.copyPlace, hfiles]
      exact hsound.held
    · rw [Snapshot.place, hfiles]
      exact hsound.there

/-- What touches neither the manifest nor what has the place of a copy leaves the snapshots, if all
stylesheets stay. -/
theorem of_becomes (h : Chronicle manifest snapshots w) (hw : w.Becomes touched made w')
    (hpath : w.files.placeOf manifest.path ∉ touched)
    (hcopies : ∀ place ∈ touched, Files.suffixAt place = Files.copySuffix →
      w.files.get? place = none)
    (hfiles : ∀ s ∈ snapshots, w'.files.bytesAt? (s.place w) ≠ none) :
  Chronicle manifest snapshots w'
  := by
  refine ⟨hw.files.tree, ?_, ?_, ?_⟩
  · rw [hw.files.here]
    exact h.here
  · rw [Snapshot.record_congr hw.files.here]
    exact h.shows.of_becomes hw hpath
  · intro s hs
    apply (h.sound s hs).of_becomes hw _ (hfiles s hs)
    intro htouched
    have hheld := (h.sound s hs).held
    rw [Files.bytesAt?, hcopies _ htouched (h.sound s hs).suffix] at hheld
    cases hheld

theorem path_ne {place : Place} (hplace : Files.suffixAt place = Files.copySuffix
      ∨ Files.suffixAt place = Files.temporarySuffix ∨ Files.IsStylesheetAt place) :
  w.files.placeOf manifest.path ≠ place
  := by
  rintro rfl
  rcases hplace with hplace | hplace | hplace
  · rw [Manifest.suffixAt_placeOf_path] at hplace
    exact absurd hplace (by decide)
  · exact Manifest.placeOf_path_notMem_temporaries w.files manifest hplace
  · exact Manifest.placeOf_path_ne_of_isStylesheetAt w.files manifest hplace rfl

/-- A backup that was taken adds a snapshot. -/
theorem of_take (h : Chronicle manifest snapshots w) (htokens : ∀ i, IsToken (w.tokens i))
    (hfile : file.IsStylesheet) (hnames : ∀ name ∈ file.names, Path.IsName name)
    (htake : (BackupStore.mk (some manifest)).take file w = .ok b w') :
  ∃ bytes, w.Holds file bytes ∧ b.file = file ∧ w.files.get? (w.files.placeOf b.copy) = none
    ∧ Chronicle manifest (snapshots ++ [{ backup := b, taken := w.now, bytes }]) w'
  := by
  obtain ⟨bytes, w₁, hcopied, hrecording⟩ := BackupStore.of_take h.tree hfile.names_ne htake
  have hsuffix := suffixAt_of_mem_spare hcopied.free
  have hother : ∀ place, Files.IsStylesheetAt place → place ∉ ({w.files.placeOf b.copy} : Set Place) := by
    rintro place hplace rfl
    exact hplace.suffixAt_ne (by decide) hsuffix
  have h₁ : Chronicle manifest snapshots w₁ := by
    apply h.of_becomes hcopied.becomes
    · exact path_ne (.inl hsuffix)
    · rintro place rfl -
      exact hcopied.free.1
    · intro s hs
      rw [hcopied.becomes.files.bytes _ (hother _ (h.sound s hs).isStylesheetAt)]
      exact (h.sound s hs).there
  have hnull : hasNull b.file = false := by
    rw [hcopied.origin]
    exact hcopied.original.noNull
  have hw : w₁.Becomes ((BackupStore.mk (some manifest)).ledger w₁) Set.univ w' :=
    (within_recording h₁.tree (Set.Subset.refl _) (Set.subset_univ _) b _).of_ok hrecording
  have hsound : Snapshot.IsSound { backup := b, taken := w.now, bytes } w₁ := by
    obtain ⟨mark, hmark, hcopy⟩ := hcopied.path
    constructor
    · rw [hcopied.origin]
      exact hfile
    · rw [Snapshot.place, hcopied.origin]
      exact Files.isProper_placeOf h₁.here hnames
    · rw [Snapshot.copyPlace, hcopy]
      exact Files.isProper_placeOf h₁.here
        (isName_of_mem_names_copyPath hnames (hmark.isMarkText htokens))
    · rw [Snapshot.copyPlace, hcopy]
      exact suffixAt_copyPath _ _ _
    · exact hcopied.held.bytes
    · rw [Snapshot.place, hcopied.origin, hcopied.becomes.placeOf,
        hcopied.becomes.files.bytes _ (hother _ (w.files.isStylesheetAt_placeOf hfile)),
        hcopied.original.bytes]
      rintro ⟨⟩
  refine ⟨bytes, hcopied.original, hcopied.origin, hcopied.free.1, hw.files.tree, ?_, ?_, ?_⟩
  · rw [hw.files.here]
    exact h₁.here
  · rw [recording_apply rfl hnull hcopied.held.noNull] at hrecording
    have hshows := Manifest.shows_of_add h₁.tree h₁.shows (explaining_eq_ok_iff.mp hrecording)
    rw [Snapshot.record_congr hw.files.here, List.map_append, List.map_singleton]
    rw [hcopied.becomes.now] at hshows
    exact hshows
  · intro s hs
    rcases List.mem_append.mp hs with hs | hs
    · exact (h₁.sound s hs).of_ledger hw
    · rw [List.mem_singleton.mp hs]
      exact hsound.of_ledger hw

/-- A record that was marked marks a snapshot. -/
theorem of_markRestored (h : Chronicle manifest snapshots w)
    (hids : (snapshots.map Snapshot.id).Nodup) {id : String}
    (hmark : manifest.markRestored (.str id) w = .ok () w') :
  Chronicle manifest (Snapshot.marking id snapshots) w'
    ∧ w.Becomes ((BackupStore.mk (some manifest)).ledger w) Set.univ w'
  := by
  have hw : w.Becomes ((BackupStore.mk (some manifest)).ledger w) Set.univ w' := by
    apply (Manifest.within_markRestored h.tree _ (Set.subset_univ _) _).of_ok hmark
    exact fun place hplace => ⟨manifest, rfl, hplace⟩
  refine ⟨⟨hw.files.tree, ?_, ?_, ?_⟩, hw⟩
  · rw [hw.files.here]
    exact h.here
  · rw [Snapshot.record_congr hw.files.here, Snapshot.map_record_marking]
    apply Manifest.shows_of_markRestored h.tree h.shows _ hmark
    rw [List.map_map]
    exact hids
  · intro s hs
    obtain ⟨t, ht, rfl⟩ := List.mem_map.mp hs
    have hsound := (h.sound t ht).of_ledger hw
    split
    · exact ⟨hsound.stylesheet, hsound.proper, hsound.copyProper, hsound.suffix, hsound.held,
        hsound.there⟩
    · exact hsound

end Chronicle

end StylePrune
