import StylePrune.Proofs.Backup.Names
import StylePrune.Proofs.Backup.Restoring

/-!
# What a backup needs

Whether a backup can be taken is read off the files: the stylesheet is there, a name for the copy is
not too long (`BackupStore.Nameable`), and the manifest admits a record (`Manifest.Admits`).  It does
so where it can be read, its directory is there or can be created, and no directory has the place of
its file or of the file that is written first.
-/

namespace StylePrune

namespace Files

variable {fs : Files} {p : Path} {name : String}

/-- A path that ends with a name leads somewhere if what is in front of the name leads to a directory,
and the name and the path are not too long. -/
theorem reaches_child_iff :
  fs.Reaches (p.child name)
    ↔ fs.Reaches p ∧ fs.get? (fs.placeOf p) = some .directory ∧ name.utf8ByteSize ≤ maxNameSize
      ∧ (p.child name).toString.utf8ByteSize ≤ maxPathSize
  := by
  have hparent : (p.child name).parent = p := by
    simp [Path.child, Path.parent]
  have hnames : (p.child name).names ≠ [] := List.append_ne_nil_of_right_ne_nil _ (List.cons_ne_nil _ _)
  have hlonger : ∀ names, names <+: p.names → names ≠ p.names ++ [name] := by
    rintro names hinitial rfl
    have hlength := hinitial.length_le
    rw [List.length_append, List.length_singleton] at hlength
    omega
  constructor
  · intro h
    obtain ⟨hsize, hsizes, hdirs⟩ := reaches_iff.mp h
    refine ⟨reaches_iff.mpr ⟨?_, ?_, ?_⟩, ?_, ?_, hsize⟩
    · have hle := (p.child name).utf8ByteSize_parent_le
      rw [hparent] at hle
      exact le_trans hle (max_le (by decide) hsize)
    · intro name' hname'
      exact hsizes name' (List.mem_append_left _ hname')
    · intro names hinitial _
      exact hdirs names (hinitial.trans (List.prefix_append _ _)) (hlonger names hinitial)
    · exact hdirs p.names (List.prefix_append _ _) (hlonger p.names List.prefix_rfl)
    · exact hsizes name (List.mem_append_right _ List.mem_cons_self)
  · rintro ⟨h, hdirectory, hname, hsize⟩
    obtain ⟨-, hsizes, hdirs⟩ := reaches_iff.mp h
    refine reaches_iff.mpr ⟨hsize, ?_, ?_⟩
    · intro name' hname'
      rcases List.mem_append.mp hname' with hname' | hname'
      · exact hsizes name' hname'
      · rw [List.mem_singleton.mp hname']
        exact hname
    · intro names hinitial hne
      have hinitial' := (List.prefix_concat_iff.mp hinitial).resolve_left hne
      by_cases heq : names = p.names
      · rw [heq]
        exact hdirectory
      · exact hdirs names hinitial' heq

/-- A name that is too long in a directory that a path leads to. -/
theorem locate_child_eq_nameTooLong (h : fs.Reaches p) (hdirectory : fs.get? (fs.placeOf p) = some .directory)
    (hlong : maxNameSize < name.utf8ByteSize) :
  fs.locate (p.child name) = .error .nameTooLong
  := by
  rw [Reaches, locate] at h
  rw [locate]
  split at h
  · cases h
  · split
    · rfl
    · rw [Path.child, walk_append]
      rw [h]
      change fs.walk (fs.placeOf p) [name] = _
      rw [walk, hdirectory]
      dsimp only
      rw [if_pos hlong]

/-- What a path with names leads to lies in a directory that the path without the last one leads to. -/
theorem Reaches.parent {q : Path} (h : fs.Reaches q) (hq : q.names ≠ []) :
  fs.Reaches q.parent ∧ fs.get? (fs.placeOf q.parent) = some .directory
  := by
  have hchild : ∃ last, q = q.parent.child last := by
    obtain ⟨front, last, hnames⟩ := (List.eq_nil_or_concat q.names).resolve_left hq
    use last
    rw [List.concat_eq_append] at hnames
    rw [Path.child, Path.parent, hnames, List.dropLast_concat, ← hnames]
  obtain ⟨last, hlast⟩ := hchild
  rw [hlast] at h
  obtain ⟨hparent, hdirectory, -⟩ := reaches_child_iff.mp h
  exact ⟨hparent, hdirectory⟩

/-- What stands beside something that a path leads to can be led to, unless its name is too long. -/
theorem reaches_sibling_iff {q : Path} (h : fs.Reaches q) (hq : q.names ≠ []) :
  fs.Reaches (q.parent.child name)
    ↔ name.utf8ByteSize ≤ maxNameSize ∧ (q.parent.child name).toString.utf8ByteSize ≤ maxPathSize
  := by
  obtain ⟨hparent, hdirectory⟩ := h.parent hq
  rw [reaches_child_iff]
  constructor
  · rintro ⟨-, -, hsizes⟩
    exact hsizes
  · intro hsizes
    exact ⟨hparent, hdirectory, hsizes⟩

/-- What stands beside something that a path leads to in two trees can be led to in both or in none. -/
theorem reaches_sibling_congr {fs' : Files} {q : Path} (h : fs.Reaches q) (h' : fs'.Reaches q)
    (hq : q.names ≠ []) (name : String) :
  fs'.Reaches (q.parent.child name) ↔ fs.Reaches (q.parent.child name)
  := by
  rw [reaches_sibling_iff h hq, reaches_sibling_iff h' hq]

/-- A path without double dots leads to the file that has its place, unless it is too long. -/
theorem IsTree.reaches_of_bytesAt? (tree : fs.IsTree) (hdots : ".." ∉ p.names)
    (hsize : p.toString.utf8ByteSize ≤ maxPathSize)
    (hsizes : ∀ name ∈ p.names, name.utf8ByteSize ≤ maxNameSize)
    (hfile : fs.bytesAt? (fs.placeOf p) ≠ none) :
  fs.Reaches p
  := by
  refine reaches_iff.mpr ⟨hsize, hsizes, ?_⟩
  intro names hinitial hne
  by_contra hdirectory
  apply hfile
  have hplace : fs.placeOf { p with names } = fs.startOf p ++ names :=
    placeOf_of_notMem (p := { p with names }) (mt (hinitial.subset ·) hdots)
  rw [hplace] at hdirectory
  rw [placeOf_of_notMem hdots, bytesAt?, tree.get?_of_isPrefix hdirectory]
  · exact List.prefix_append_right_inj _ |>.mpr hinitial
  · exact fun heq => hne (List.append_cancel_left heq).symm

end Files

namespace Job

variable {w : World} {p : Path}

/-- A path that leads somewhere is looked up there. -/
theorem doesExist_of_reaches (hnull : hasNull p = false) (hreach : w.files.Reaches p) :
  doesExist p w = .ok (w.files.get? (w.files.placeOf p)).isSome w
  := by
  apply bind_eq_ok_iff.mpr
  refine ⟨w.files.get? (w.files.placeOf p), w, find?_eq_ok_iff.mpr ⟨rfl, .inr ⟨hnull, ?_⟩⟩, rfl⟩
  cases hget : w.files.get? (w.files.placeOf p) with
  | some e => exact .inl ⟨e, Files.entry_eq_ok_iff.mpr ⟨hreach, hget⟩, rfl⟩
  | none =>
      refine .inr ⟨.inl ?_, rfl⟩
      rw [Files.entry, show w.files.locate p = _ from hreach]
      simp [bind, Except.bind, hget, throw, throwThe, MonadExceptOf.throw]

theorem endsWithName_child (p : Path) {name : String} (h : name ≠ "..") :
  Files.endsWithName (p.child name) = true
  := by
  simp [Files.endsWithName, Path.child, h]

/-- Whether a job that writes a file and gives it another name succeeds does not depend on what it
writes. -/
theorem exists_writeBytes_rename_iff {q : Path} (tree : w.files.IsTree) (bytes : List UInt8) :
  (∃ w', (writeBytes p bytes >>= fun _ => rename p q) w = .ok () w')
    ↔ (hasNull p = false ∧ w.files.Reaches p ∧ w.files.get? (w.files.placeOf p) ≠ some .directory
        ∧ Files.endsWithName p = true)
      ∧ hasNull q = false ∧ w.files.Reaches q ∧ w.files.get? (w.files.placeOf q) ≠ some .directory
      ∧ Files.endsWithName q = true
  := by
  constructor
  · rintro ⟨w', h⟩
    obtain ⟨_, w₁, hwrite, hrename⟩ := bind_eq_ok_iff.mp h
    have hheld := holds_of_writeBytes tree hwrite
    have h₁ : w.Becomes {w.files.placeOf p} ∅ w₁ :=
      (within_writeBytes tree (Set.mem_singleton _)).of_ok hwrite
    obtain ⟨hnull, files, hfiles, -⟩ := change_eq_ok_iff.mp hwrite
    obtain ⟨hreach, hclear, -⟩ := Files.write_eq_ok_iff.mp hfiles
    obtain ⟨-, hnull', files', hfiles', -⟩ := rename_job_eq_ok_iff.mp hrename
    obtain ⟨hname, hname', hreach', hclear', -⟩ :=
      (Files.rename_eq_ok_iff hheld.reaches hheld.bytes).mp hfiles'
    rw [h₁.placeOf, ne_eq, h₁.files.directory_iff] at hclear'
    exact ⟨⟨hnull, hreach, hclear, hname⟩, hnull', h₁.files.reaches_iff.mp hreach', hclear', hname'⟩
  · rintro ⟨⟨hnull, hreach, hclear, hname⟩, hnull', hreach', hclear', hname'⟩
    obtain ⟨w₁, hwrite⟩ : ∃ w₁, writeBytes p bytes w = .ok () w₁ :=
      ⟨_, change_eq_ok_iff.mpr ⟨hnull, _, Files.write_eq_ok_iff.mpr ⟨hreach, hclear, rfl⟩, rfl⟩⟩
    have hheld := holds_of_writeBytes tree hwrite
    have h₁ : w.Becomes {w.files.placeOf p} ∅ w₁ :=
      (within_writeBytes tree (Set.mem_singleton _)).of_ok hwrite
    have hclear₁ : w₁.files.get? (w₁.files.placeOf q) ≠ some .directory := by
      rw [h₁.placeOf, ne_eq, h₁.files.directory_iff]
      exact hclear'
    have hrename := (Files.rename_eq_ok_iff hheld.reaches hheld.bytes).mpr
      ⟨hname, hname', h₁.files.reaches hreach', hclear₁, rfl⟩
    exact ⟨_, bind_eq_ok_iff.mpr
      ⟨(), _, hwrite, rename_job_eq_ok_iff.mpr ⟨hnull, hnull', _, hrename, rfl⟩⟩⟩

end Job

namespace Manifest

open Job

variable {m : Manifest} {w w' : World} {c : Contents} {touched made : Set Place}

/-! ### What a record needs -/

/-- Whether the manifest is no file that is no text. -/
def IsReadable (m : Manifest) (w : World) : Prop :=
  ∀ bytes, w.Holds m.path bytes → ∃ t, Text.Utf8.decode bytes = .ok t

/-- Whether a record can be added to the manifest. -/
structure Admits (m : Manifest) (w : World) : Prop where
  readable : m.IsReadable w
  makeable : w.Makeable m.directory
  sizes : m.temporaryPath.toString.utf8ByteSize ≤ Files.maxPathSize
    ∧ m.path.toString.utf8ByteSize ≤ Files.maxPathSize
  clear : ∀ place ∈ m.places w,
    w.files.get? place ≠ some .directory ∧ place ∉ w.files.onTheWay m.directory

theorem readable_of_read (h : m.read w = .ok c w') :
  m.IsReadable w
  := by
  intro bytes hholds
  cases hdecode : Text.Utf8.decode bytes with
  | ok t => exact ⟨t, rfl⟩
  | error cause =>
      have hread : readText m.path w = .error (.undecodable cause) w := by
        rw [readText, bind_of_ok (readBytes_eq_ok_iff.mpr ⟨hholds, rfl⟩), hdecode]
        rfl
      rw [read_apply, hread] at h
      cases h

theorem exists_read (hnull : hasNull m.directory = false) (h : m.IsReadable w) :
  ∃ c, m.read w = .ok c w
  := by
  have hpath : hasNull m.path = false := by
    rw [Manifest.path, hasNull_child, hnull]
    decide
  rw [read_apply]
  cases hread : readText m.path w with
  | ok t w' =>
      obtain ⟨-, -, -, rfl⟩ := readText_eq_ok_iff.mp hread
      exact ⟨_, rfl⟩
  | error fault w' =>
      obtain ⟨rfl, ⟨error, rfl, -⟩ | ⟨-, hnull'⟩ | ⟨bytes, cause, hholds, hdecode, -⟩⟩ :=
        readText_eq_error hread
      · exact ⟨_, rfl⟩
      · rw [hpath] at hnull'
        cases hnull'
      · obtain ⟨t, ht⟩ := h bytes hholds
        rw [ht] at hdecode
        cases hdecode

theorem Shows.isReadable {c : Contents} (h : m.Shows w c) :
  m.IsReadable w
  := by
  intro bytes hholds
  rcases h with ⟨hnone, -⟩ | ⟨bytes', t, hholds', hdecode, -⟩
  · rw [hholds.bytes] at hnone
    cases hnone
  · rw [hholds.unique hholds']
    exact ⟨t, hdecode⟩

/-- What a manifest shows is read. -/
theorem Shows.read_eq {c : Contents} (h : m.Shows w c) (hnull : hasNull m.directory = false) :
  m.read w = .ok c w
  := by
  obtain ⟨c', hread⟩ := exists_read hnull h.isReadable
  rw [hread, (eq_of_read hread h).2]

/-- A manifest can be written exactly if it admits records, what it holds aside. -/
theorem exists_write_iff (tree : w.files.IsTree) (hreadable : m.IsReadable w) (c : Contents) :
  (∃ w', m.write c w = .ok () w') ↔ m.Admits w
  := by
  constructor
  · rintro ⟨w', h⟩
    obtain ⟨_, w₁, hmake, h⟩ := bind_eq_ok_iff.mp h
    have h₁ : w.Becomes ∅ Set.univ w₁ := (within_makeDirs tree (Set.subset_univ _)).of_ok hmake
    obtain ⟨hmakeable, hdirs⟩ := makeable_of_makeDirs tree hmake
    obtain ⟨⟨-, hdraft, hdraftClear, -⟩, -, hplace, hplaceClear, -⟩ :=
      (exists_writeBytes_rename_iff h₁.files.tree _).mp ⟨w', h⟩
    rw [h₁.placeOf] at hdraftClear hplaceClear
    refine ⟨hreadable, hmakeable,
      ⟨(Files.reaches_iff.mp hdraft).1, (Files.reaches_iff.mp hplace).1⟩, ?_⟩
    rintro place (rfl | rfl)
    · exact ⟨mt (h₁.files.stay _) hdraftClear, mt (hdirs _) hdraftClear⟩
    · exact ⟨mt (h₁.files.stay _) hplaceClear, mt (hdirs _) hplaceClear⟩
  · intro h
    obtain ⟨w₁, hmake⟩ := exists_makeDirs tree h.makeable
    have h₁ : w.Becomes ∅ (w.files.onTheWay m.directory) w₁ :=
      (within_makeDirs tree (Set.Subset.refl _)).of_ok hmake
    obtain ⟨-, hdirs⟩ := makeable_of_makeDirs tree hmake
    have hdirectory : w₁.files.Reaches m.directory := by
      refine Files.reaches_iff.mpr ⟨h.makeable.size, h.makeable.sizes, ?_⟩
      intro names hinitial _
      rw [h₁.placeOf]
      exact hdirs _ ⟨names, hinitial, rfl⟩
    have hthere : w₁.files.get? (w₁.files.placeOf m.directory) = some .directory := by
      rw [h₁.placeOf]
      exact hdirs _ (w.files.placeOf_mem_onTheWay m.directory)
    have hclear : ∀ place ∈ m.places w, w₁.files.get? place ≠ some .directory := by
      intro place hplace hget
      rcases h₁.files.directory place hget with hget' | hway
      · exact (h.clear place hplace).1 hget'
      · exact (h.clear place hplace).2 hway
    have hnull : ∀ name : String, name.toList.contains (Char.ofNat 0) = false →
        hasNull (m.directory.child name) = false := by
      intro name hname
      rw [hasNull_child, h.makeable.noNull, hname]
      rfl
    obtain ⟨w', hwritten⟩ := (@exists_writeBytes_rename_iff w₁ m.temporaryPath m.path h₁.files.tree
        (Text.Utf8.encode c.toText)).mpr ⟨
      ⟨hnull _ (by decide), Files.reaches_child_iff.mpr ⟨hdirectory, hthere, by decide, h.sizes.1⟩,
        by rw [h₁.placeOf]; exact hclear _ (Set.mem_insert _ _),
        endsWithName_child m.directory (by decide)⟩,
      hnull _ (by decide), Files.reaches_child_iff.mpr ⟨hdirectory, hthere, by decide, h.sizes.2⟩,
        by rw [h₁.placeOf]; exact hclear _ (Set.mem_insert_of_mem _ (Set.mem_singleton _)),
        endsWithName_child m.directory (by decide)⟩
    exact ⟨w', bind_eq_ok_iff.mpr ⟨(), w₁, hmake, hwritten⟩⟩

variable {id file copy stamp hash reason : String}

/-- A record can be added exactly if the manifest admits it. -/
theorem exists_add_iff (tree : w.files.IsTree) :
  (∃ w', m.add id file copy stamp hash reason w = .ok () w') ↔ m.Admits w
  := by
  constructor
  · rintro ⟨w', hadd⟩
    obtain ⟨c, w₁, hread, hwrite⟩ := bind_eq_ok_iff.mp hadd
    have hreadable := readable_of_read hread
    obtain rfl := world_of_read hread
    exact (exists_write_iff tree hreadable _).mp ⟨w', hwrite⟩
  · intro h
    obtain ⟨c, hread⟩ := exists_read h.makeable.noNull h.readable
    obtain ⟨w', hwrite⟩ := (exists_write_iff tree h.readable (c.setBackups
      (c.backups ++ [newRecord id file copy stamp w.now.iso reason hash]))).mpr h
    exact ⟨w', bind_eq_ok_iff.mpr ⟨c, w, hread, hwrite⟩⟩

/-- A manifest that was written can be read. -/
theorem readable_of_write (tree : w.files.IsTree) (h : m.write c w = .ok () w') :
  m.IsReadable w'
  := by
  intro bytes hholds
  obtain rfl := hholds.unique (holds_of_write tree h)
  exact ⟨c.toText, Text.Utf8.decode_encode c.toText⟩

/-- Where a manifest was written, all directories on its way are there. -/
theorem directories_of_write (tree : w.files.IsTree) (h : m.write c w = .ok () w') :
  ∀ place ∈ w.files.onTheWay m.directory, w'.files.get? place = some .directory
  := by
  obtain ⟨_, w₁, hmake, hwrite⟩ := bind_eq_ok_iff.mp h
  have h₁ : w.Becomes ∅ Set.univ w₁ := (within_makeDirs tree (Set.subset_univ _)).of_ok hmake
  obtain ⟨-, hdirs⟩ := makeable_of_makeDirs tree hmake
  have h₂ : w₁.Becomes Set.univ ∅ w' :=
    (within_writeBytes_rename h₁.files.tree (Set.mem_univ _) (Set.mem_univ _)).of_ok hwrite
  exact fun place hplace => h₂.files.stay place (hdirs place hplace)

/-! ### What changes what a manifest admits -/

theorem IsReadable.of_becomes (h : m.IsReadable w) (hw : w.Becomes touched ∅ w')
    (hm : w.files.placeOf m.path ∉ touched) :
  m.IsReadable w'
  := by
  intro bytes hholds
  apply h bytes
  refine ⟨hholds.noNull, hw.files.reaches_iff.mp hholds.reaches, ?_⟩
  rw [← hw.files.bytes _ hm, ← hw.placeOf]
  exact hholds.bytes

theorem IsReadable.of_becomes_symm (h : m.IsReadable w') (hw : w.Becomes touched made w')
    (hm : w.files.placeOf m.path ∉ touched) :
  m.IsReadable w
  := fun bytes hholds => h bytes (hholds.of_becomes hw hm)

/-- A manifest goes on admitting records if directories are made on its way only, and no files are
touched there. -/
theorem Admits.of_becomes (h : m.Admits w) (hw : w.Becomes touched made w')
    (hmade : made ⊆ w.files.onTheWay m.directory)
    (hway : ∀ place ∈ w.files.onTheWay m.directory, place ∈ touched →
      w.files.get? place = some .directory)
    (hreadable : m.IsReadable w') :
  m.Admits w'
  := by
  constructor
  · exact hreadable
  · apply h.makeable.of_becomes hw
    intro place hplace htouched
    exact Files.bytesAt?_of_directory (hw.files.stay place (hway place hplace htouched))
  · exact h.sizes
  · intro place hplace
    rw [places_congr hw.files.here] at hplace
    rw [Files.onTheWay_congr hw.files.here]
    obtain ⟨hclear, hnot⟩ := h.clear place hplace
    refine ⟨?_, hnot⟩
    intro hget
    rcases hw.files.directory place hget with hget | hplace
    · exact hclear hget
    · exact hnot (hmade hplace)

/-- A manifest has admitted records before if no file on its way has gone away. -/
theorem Admits.of_becomes_symm (h : m.Admits w') (hw : w.Becomes touched made w')
    (hway : ∀ place ∈ w.files.onTheWay m.directory, place ∈ touched →
      w.files.bytesAt? place = none)
    (hreadable : m.IsReadable w) :
  m.Admits w
  := by
  constructor
  · exact hreadable
  · exact h.makeable.of_becomes_symm hw hway
  · exact h.sizes
  · intro place hplace
    rw [← places_congr hw.files.here] at hplace
    obtain ⟨hclear, hnot⟩ := h.clear place hplace
    rw [Files.onTheWay_congr hw.files.here] at hnot
    exact ⟨mt (hw.files.stay place) hclear, hnot⟩

end Manifest

namespace BackupStore

open Job

variable {m : BackupStore} {w w' : World} {file copy : Path} {bytes : List UInt8} {b : Backup}
    {touched made : Set Place}

/-- Whether a record can be added, if there is a manifest. -/
def AdmitsRecord (m : BackupStore) (w : World) : Prop :=
  ∀ manifest, m.manifest = some manifest → manifest.Admits w

/-- Whether no copy can get in the way of the manifest: what has the suffix of copies there is a
directory. -/
def IsWayClear (m : BackupStore) (w : World) : Prop :=
  ∀ place ∈ m.ledgerWay w, Files.suffixAt place = Files.copySuffix →
    w.files.get? place = some .directory

theorem IsWayClear.of_becomes (h : m.IsWayClear w) (hw : w.Becomes touched made w') :
  m.IsWayClear w'
  := by
  intro place hplace hsuffix
  rw [ledgerWay_congr hw.files.here] at hplace
  exact hw.files.stay place (h place hplace hsuffix)

theorem explaining_congr {α : Type} {explain : SystemError → BackupFault} {j j' : Job α}
    (h : j w = j' w) :
  explaining explain j w = explaining explain j' w
  := by
  change EStateM.tryCatch j _ w = EStateM.tryCatch j' _ w
  rw [EStateM.tryCatch, EStateM.tryCatch, h]

/-- Recording a copy is adding a record to the manifest, with the places of the two files. -/
theorem recording_apply {manifest : Manifest} (hm : m.manifest = some manifest)
    (hfile : hasNull b.file = false) (hcopy : hasNull b.copy = false) (hash : String) :
  recording m b hash w
    = explaining (.notRecorded b.file)
        (manifest.add b.id (Path.fromRoot (w.files.placeOf b.file)).toString
          (Path.fromRoot (w.files.placeOf b.copy)).toString b.stamp hash Manifest.defaultReason) w
  := by
  rw [recording, hm]
  apply explaining_congr
  rw [bind_of_ok (resolve_eq_ok_iff.mpr ⟨hfile, rfl, rfl⟩),
    bind_of_ok (resolve_eq_ok_iff.mpr ⟨hcopy, rfl, rfl⟩)]

theorem exists_recording_iff (tree : w.files.IsTree) (hfile : hasNull b.file = false)
    (hcopy : hasNull b.copy = false) (hash : String) :
  (∃ w', recording m b hash w = .ok () w') ↔ m.AdmitsRecord w
  := by
  rw [AdmitsRecord]
  cases hm : m.manifest with
  | none =>
      rw [recording, hm]
      constructor
      · rintro - manifest ⟨⟩
      · intro _
        exact ⟨w, rfl⟩
  | some manifest =>
      rw [recording_apply hm hfile hcopy]
      simp only [explaining_eq_ok_iff, Manifest.exists_add_iff tree, Option.some.injEq,
        forall_eq']

theorem admitsRecord_iff_of_becomes_empty (h : w.Becomes ∅ ∅ w') :
  m.AdmitsRecord w' ↔ m.AdmitsRecord w
  := by
  constructor
  · intro hadmits manifest hm
    apply (hadmits manifest hm).of_becomes_symm h
    · rintro place - ⟨⟩
    · exact (hadmits manifest hm).readable.of_becomes_symm h (Set.notMem_empty _)
  · intro hadmits manifest hm
    apply (hadmits manifest hm).of_becomes h (Set.empty_subset _)
    · rintro place - ⟨⟩
    · exact (hadmits manifest hm).readable.of_becomes h (Set.notMem_empty _)

/-- Copies change nothing about whether a record can be added, if the way of the manifest is clear of
them. -/
theorem admitsRecord_iff_of_becomes (h : w.Becomes (spare file w) ∅ w') (hclear : m.IsWayClear w) :
  m.AdmitsRecord w' ↔ m.AdmitsRecord w
  := by
  have hway : ∀ manifest, m.manifest = some manifest →
      ∀ place ∈ w.files.onTheWay manifest.directory, place ∉ spare file w := by
    intro manifest hm place hplace hspare
    have hget := hclear _ ⟨manifest, hm, hplace⟩ (suffixAt_of_mem_spare hspare)
    rw [hspare.1] at hget
    cases hget
  have hpath : ∀ manifest, m.manifest = some manifest →
      w.files.placeOf manifest.path ∉ spare file w := by
    intro manifest hm hspare
    exact suffixAt_ne_of_mem_ledger ⟨manifest, hm, Set.mem_insert_of_mem _ (Set.mem_singleton _)⟩
      (suffixAt_of_mem_spare hspare)
  constructor
  · intro hadmits manifest hm
    apply (hadmits manifest hm).of_becomes_symm h
    · intro place hplace htouched
      exact absurd htouched (hway manifest hm place hplace)
    · exact (hadmits manifest hm).readable.of_becomes_symm h (hpath manifest hm)
  · intro hadmits manifest hm
    apply (hadmits manifest hm).of_becomes h (Set.empty_subset _)
    · intro place hplace htouched
      exact absurd htouched (hway manifest hm place hplace)
    · exact (hadmits manifest hm).readable.of_becomes h (hpath manifest hm)

theorem Copied.becomes_spare (h : Copied file w b bytes w') :
  w.Becomes (spare file w) ∅ w'
  := h.becomes.mono (Set.singleton_subset_iff.mpr h.free) (Set.Subset.refl _)

/-- A copy that could not be recorded is one whose record could not be added. -/
theorem exists_add_of_recording_eq_error {hash : String} {fault : Fault} (hfile : hasNull b.file = false)
    (hcopy : hasNull b.copy = false) (h : recording m b hash w = .error fault w') :
  ∃ manifest id file copy stamp hash reason fault, m.manifest = some manifest
    ∧ manifest.add id file copy stamp hash reason w = .error fault w'
  := by
  cases hm : m.manifest with
  | none =>
      rw [recording, hm] at h
      cases h
  | some manifest =>
      rw [recording_apply hm hfile hcopy] at h
      obtain ⟨fault₁, w₁, hadd, hthrow⟩ := tryCatch_eq_error_iff.mp h
      obtain rfl : w' = w₁ := by
        split at hthrow
        · exact (EStateM.Result.error.inj hthrow).2.symm
        · exact (EStateM.Result.error.inj hthrow).2.symm
      exact ⟨manifest, _, _, _, _, _, _, fault₁, rfl, hadd⟩

/-- Where a copy could not be recorded, nothing was changed, or the manifest could be read. -/
theorem of_recording_eq_error {hash : String} {fault : Fault} (hfile : hasNull b.file = false)
    (hcopy : hasNull b.copy = false) (h : recording m b hash w = .error fault w') :
  w' = w ∨ ∀ manifest, m.manifest = some manifest → manifest.IsReadable w
  := by
  obtain ⟨manifest, _, _, _, _, _, _, fault₁, hm, hadd⟩ :=
    exists_add_of_recording_eq_error hfile hcopy h
  rcases bind_eq_error_iff.mp hadd with hread | ⟨c, w₂, hread, -⟩
  · have hleft := Manifest.left_read manifest w
    rw [hread] at hleft
    exact .inl hleft
  · right
    intro manifest' hmanifest
    obtain rfl := Option.some.inj (hm.symm.trans hmanifest)
    exact Manifest.readable_of_read hread

/-- Where a backup could not be taken, the file of the manifest is as it was. -/
theorem becomes_of_take_eq_error (tree : w.files.IsTree) (hfile : file.names ≠ []) {fault : Fault}
    (h : m.take file w = .error fault w') :
  w.Becomes (spare file w ∪ Files.temporaries) Set.univ w'
  := by
  rcases of_take_eq_error tree hfile h with hspare | ⟨b, bytes, w₁, hcopied, hrecording⟩
  · exact hspare.mono Set.subset_union_left (Set.empty_subset _)
  · have hnull : hasNull b.file = false := by
      rw [hcopied.origin]
      exact hcopied.original.noNull
    obtain ⟨manifest, _, _, _, _, _, _, fault₁, -, hadd⟩ :=
      exists_add_of_recording_eq_error hnull hcopied.held.noNull hrecording
    apply (hcopied.becomes_spare.mono Set.subset_union_left (Set.empty_subset _)).trans
    apply (Manifest.becomes_of_add_eq_error hcopied.becomes.files.tree hadd).mono _ (Set.Subset.refl _)
    rw [Set.singleton_subset_iff]
    exact .inr (Manifest.suffixAt_placeOf_temporaryPath _ _)

/-- Where a backup could not be taken, the manifest admits records or not as it did before. -/
theorem admitsRecord_iff_of_take_eq_error (tree : w.files.IsTree) (hfile : file.names ≠ [])
    (hclear : m.IsWayClear w) {fault : Fault} (h : m.take file w = .error fault w') :
  m.AdmitsRecord w' ↔ m.AdmitsRecord w
  := by
  rcases of_take_eq_error tree hfile h with hspare | ⟨b, bytes, w₁, hcopied, hrecording⟩
  · exact admitsRecord_iff_of_becomes hspare hclear
  · rw [← admitsRecord_iff_of_becomes hcopied.becomes_spare hclear]
    have tree₁ := hcopied.becomes.files.tree
    have hnull : hasNull b.file = false := by
      rw [hcopied.origin]
      exact hcopied.original.noNull
    have hnot : ¬ m.AdmitsRecord w₁ := by
      intro hadmits
      obtain ⟨w₂, hok⟩ := (exists_recording_iff tree₁ hnull hcopied.held.noNull
        (Digest.Sha256.digest bytes)).mpr hadmits
      rw [hrecording] at hok
      cases hok
    rcases of_recording_eq_error hnull hcopied.held.noNull hrecording with rfl | hreadable
    · rfl
    · refine iff_of_false ?_ hnot
      intro hadmits
      apply hnot
      have hbecomes : w₁.Becomes (m.ledger w₁) Set.univ w' :=
        (within_recording tree₁ (Set.Subset.refl _) (Set.subset_univ _) b _).of_error hrecording
      intro manifest hm
      apply (hadmits manifest hm).of_becomes_symm hbecomes _ (hreadable manifest hm)
      rintro place hplace ⟨manifest', hm', hledger⟩
      rw [hm] at hm'
      obtain rfl := Option.some.inj hm'
      rw [← Manifest.places_congr hbecomes.files.here] at hledger
      rw [← Files.onTheWay_congr hbecomes.files.here] at hplace
      exact absurd hplace ((hadmits manifest hm).clear place hledger).2

/-! ### After a backup -/

/-- Whether a manifest, if there is one, admits records and all directories for it are there. -/
def IsSettled (m : BackupStore) (w : World) : Prop :=
  m.AdmitsRecord w ∧ ∀ place ∈ m.ledgerWay w, w.files.get? place = some .directory

/-- After a record was added, all is there for the next one. -/
theorem isSettled_of_recording (tree : w.files.IsTree) (hfile : hasNull b.file = false)
    (hcopy : hasNull b.copy = false) {hash : String} (h : recording m b hash w = .ok () w') :
  m.IsSettled w'
  := by
  have hadmits := (exists_recording_iff tree hfile hcopy hash).mp ⟨w', h⟩
  have hwrite : ∀ manifest, m.manifest = some manifest → ∃ c, manifest.write c w = .ok () w' := by
    intro manifest hm
    rw [recording_apply hm hfile hcopy] at h
    obtain ⟨c, w₁, hread, hwrite⟩ := bind_eq_ok_iff.mp (explaining_eq_ok_iff.mp h)
    obtain rfl := Manifest.world_of_read hread
    exact ⟨_, hwrite⟩
  constructor
  · intro manifest hm
    obtain ⟨c, hwritten⟩ := hwrite manifest hm
    have hbecomes : w.Becomes (manifest.places w) (w.files.onTheWay manifest.directory) w' :=
      (Manifest.within_write tree (Set.Subset.refl _) (Set.Subset.refl _) c).of_ok hwritten
    apply (hadmits manifest hm).of_becomes hbecomes (Set.Subset.refl _)
    · intro place hway hplace
      exact absurd hway ((hadmits manifest hm).clear place hplace).2
    · exact Manifest.readable_of_write tree hwritten
  · rintro place ⟨manifest, hm, hplace⟩
    obtain ⟨c, hwritten⟩ := hwrite manifest hm
    apply Manifest.directories_of_write tree hwritten
    rw [← Files.onTheWay_congr ((Manifest.within_write tree (Set.Subset.refl _)
      (Set.subset_univ _) c).of_ok hwritten).files.here]
    exact hplace

theorem isSettled_of_take (tree : w.files.IsTree) (hfile : file.names ≠ [])
    (h : m.take file w = .ok b w') :
  m.IsSettled w'
  := by
  obtain ⟨bytes, w₁, hcopied, hrecording⟩ := of_take tree hfile h
  apply isSettled_of_recording hcopied.becomes.files.tree _ hcopied.held.noNull hrecording
  rw [hcopied.origin]
  exact hcopied.original.noNull

theorem IsSettled.of_becomes (h : m.IsSettled w) (hw : w.Becomes touched made w')
    (hmade : made ⊆ m.ledgerWay w)
    (hreadable : ∀ manifest, m.manifest = some manifest → manifest.IsReadable w') :
  m.IsSettled w'
  := by
  obtain ⟨hadmits, hdirs⟩ := h
  have hempty : w.Becomes touched ∅ w' := hw.of_made fun place hplace => .inl (hdirs place (hmade hplace))
  constructor
  · intro manifest hm
    apply (hadmits manifest hm).of_becomes hempty (Set.empty_subset _) _ (hreadable manifest hm)
    intro place hplace _
    exact hdirs place ⟨manifest, hm, hplace⟩
  · intro place hplace
    rw [ledgerWay_congr hw.files.here] at hplace
    exact hw.files.stay place (hdirs place hplace)

/-! ### What the name of a copy needs -/

variable {mark mark' : String}

theorem hasNull_copyPath (hfile : hasNull file = false) (hmark : IsMarkText mark) :
  hasNull (copyPath file mark) = false
  := by
  have hname := contains_null_name hfile
  rw [copyPath, hasNull_child, hasNull_parent hfile, Bool.false_or, copyName]
  have hnot := hmark.notMem (c := Char.ofNat 0) (by decide)
  simp only [List.contains_eq_mem, decide_eq_false_iff_not] at hname ⊢
  simp only [String.toList_append, List.mem_append, not_or]
  exact ⟨⟨⟨hname, by decide⟩, hnot⟩, by decide⟩

theorem utf8ByteSize_copyName (file : Path) (mark : String) :
  (copyName file mark).utf8ByteSize = (copyName file "").utf8ByteSize + mark.utf8ByteSize
  := by
  simp only [copyName, String.utf8ByteSize_append, String.utf8ByteSize_empty]
  omega

/-- Whether a path for a copy leads somewhere is a matter of the length of its name. -/
theorem reaches_copyPath_of_le {fs fs' : Files} (hfile : file.names ≠ []) (h : fs.Reaches file)
    (h' : fs'.Reaches file) (hle : mark'.utf8ByteSize ≤ mark.utf8ByteSize)
    (hcopy : fs.Reaches (copyPath file mark)) :
  fs'.Reaches (copyPath file mark')
  := by
  obtain ⟨k, hk⟩ := file.parent.exists_utf8ByteSize_child
  have hcopyName := utf8ByteSize_copyName file
  rw [copyPath, Files.reaches_sibling_iff h hfile, hk, hcopyName] at hcopy
  rw [copyPath, Files.reaches_sibling_iff h' hfile, hk, hcopyName]
  omega

/-- Whether a name for a copy of a stylesheet can be looked for: the first one is not too long, and it
is free, or those with tokens are not too long either. -/
structure Nameable (file : Path) (w : World) : Prop where
  first : w.files.Reaches (copyPath file w.now.stamp)
  others : w.files.get? (w.files.placeOf (copyPath file w.now.stamp)) = none
    ∨ ∀ i, w.files.Reaches (copyPath file (w.now.stamp ++ "_" ++ w.tokens i))

theorem nameable_of_copied (hfile : file.names ≠ []) (htokens : ∀ i, IsToken (w.tokens i))
    (h : Copied file w b bytes w') :
  Nameable file w
  := by
  have horiginal := h.original.reaches
  have hreach := h.becomes.files.reaches_iff.mp h.held.reaches
  have hfree := h.free.1
  obtain ⟨mark, hmark, hcopy⟩ := h.path
  rw [hcopy] at hreach hfree
  rcases hmark with rfl | ⟨i, rfl⟩
  · exact ⟨hreach, .inl hfree⟩
  · constructor
    · apply reaches_copyPath_of_le hfile horiginal horiginal _ hreach
      simp only [String.utf8ByteSize_append]
      omega
    · right
      intro j
      apply reaches_copyPath_of_le hfile horiginal horiginal _ hreach
      simp only [String.utf8ByteSize_append, (htokens i).utf8ByteSize, (htokens j).utf8ByteSize]
      omega

theorem freshPath_of_free {stamp : String} {n : Nat} {candidate : Path}
    (h : doesExist candidate w = .ok false w) :
  freshPath file stamp (n + 1) candidate w = .ok candidate w
  := by
  rw [freshPath, bind_of_ok h]
  rfl

/-- A path is found, or the names run out. -/
theorem freshPath_or (hfile : file.names ≠ [])
    (hothers : ∀ i, w.files.Reaches (copyPath file (w.now.stamp ++ "_" ++ w.tokens i))
      ∧ hasNull (copyPath file (w.now.stamp ++ "_" ++ w.tokens i)) = false)
    {candidate : Path} (hreach : w.files.Reaches candidate) (hnull : hasNull candidate = false)
    (n : Nat) :
  (∃ copy w', freshPath file w.now.stamp n candidate w = .ok copy w')
    ∨ ∃ w', freshPath file w.now.stamp n candidate w = .error (.backup (.noFreshName file)) w'
  := by
  induction n generalizing candidate w with
  | zero => exact .inr ⟨w, rfl⟩
  | succ n ih =>
      have hexist := doesExist_of_reaches hnull hreach
      cases hget : w.files.get? (w.files.placeOf candidate) with
      | none =>
          rw [hget] at hexist
          exact .inl ⟨candidate, w, freshPath_of_free hexist⟩
      | some e =>
          rw [hget] at hexist
          have hnext : freshPath file w.now.stamp (n + 1) candidate w
              = freshPath file w.now.stamp n
                (copyPath file (w.now.stamp ++ "_" ++ w.tokens w.drawn))
                { w with drawn := w.drawn + 1 } := by
            rw [freshPath, bind_of_ok hexist,
              if_neg (show ¬ (!(some e).isSome) = true from Bool.false_ne_true),
              bind_of_ok (token_apply w), bind_of_ok (withName_apply hfile _ _), child_eq_copyPath]
          rw [hnext]
          obtain ⟨hreach', hnull'⟩ := hothers w.drawn
          exact @ih { w with drawn := w.drawn + 1 } hothers _ hreach' hnull'

/-! ### What a backup needs -/

theorem exists_copying (tree : w.files.IsTree) (hholds : w.Holds file bytes)
    (hnot : doesExist copy w = .ok false w) (hreach : w.files.Reaches copy)
    (hnull : hasNull copy = false) :
  ∃ w', copying file copy w
    = .ok (Digest.Sha256.digest bytes, Digest.Sha256.digest bytes) w'
  := by
  have hnone := get?_of_doesExist hnot hnull hreach
  obtain ⟨w', hcopy⟩ := exists_copy hholds hnull hreach hnone
  obtain ⟨bytes', hholds', hheld, -, hbecomes⟩ := of_copy_to_free tree hnot hcopy
  obtain rfl := hholds.unique hholds'
  have hafter : w'.Holds file bytes := by
    apply hholds.of_becomes hbecomes
    intro heq
    have hbytes := hholds.bytes
    rw [Set.mem_singleton_iff.mp heq, Files.bytesAt?, hnone] at hbytes
    cases hbytes
  refine ⟨w', explaining_eq_ok_iff.mpr (bind_eq_ok_iff.mpr ⟨(), w', hcopy, ?_⟩)⟩
  refine bind_eq_ok_iff.mpr ⟨_, w', hash_eq_ok_iff.mpr ⟨bytes, hafter, rfl, rfl⟩, ?_⟩
  exact bind_eq_ok_iff.mpr ⟨_, w', hash_eq_ok_iff.mpr ⟨bytes, hheld, rfl, rfl⟩, rfl⟩

theorem finishing_eq_ok (hash : String) {stamp : String}
    (h : ∃ w', recording m { file, copy, stamp, id := nextId stamp w } hash
      { w with drawn := w.drawn + 1 } = .ok () w') :
  ∃ b w', finishing m file copy stamp hash w = .ok b w'
  := by
  obtain ⟨w', hrecording⟩ := h
  exact ⟨_, w', bind_eq_ok_iff.mpr ⟨w.tokens w.drawn, { w with drawn := w.drawn + 1 }, rfl,
    bind_eq_ok_iff.mpr ⟨(), w', hrecording, rfl⟩⟩⟩

/-- What a backup that was taken needed. -/
theorem needs_of_take (tree : w.files.IsTree) (hfile : file.names ≠ [])
    (htokens : ∀ i, IsToken (w.tokens i)) (hclear : m.IsWayClear w) (h : m.take file w = .ok b w') :
  Nameable file w ∧ m.AdmitsRecord w
  := by
  obtain ⟨bytes, w₁, hcopied, hrecording⟩ := of_take tree hfile h
  refine ⟨nameable_of_copied hfile htokens hcopied, ?_⟩
  rw [← admitsRecord_iff_of_becomes hcopied.becomes_spare hclear]
  apply (exists_recording_iff hcopied.becomes.files.tree _ hcopied.held.noNull _).mp ⟨w', hrecording⟩
  rw [hcopied.origin]
  exact hcopied.original.noNull

/-- With what it needs, a backup is taken, unless the names run out. -/
theorem exists_take (tree : w.files.IsTree) (hfile : file.IsStylesheet)
    (htokens : ∀ i, IsToken (w.tokens i)) (hclear : m.IsWayClear w) (hholds : w.Holds file bytes)
    (hname : Nameable file w) (hadmits : m.AdmitsRecord w) :
  (∃ b w', m.take file w = .ok b w')
    ∨ ∃ w', m.take file w = .error (.backup (.noFreshName file)) w'
  := by
  have hnull : ∀ {mark}, IsMark w mark → hasNull (copyPath file mark) = false :=
    fun hmark => hasNull_copyPath hholds.noNull (hmark.isMarkText htokens)
  have hfresh : (∃ copy w', freshPath file w.now.stamp (w.files.entries.length + 1)
        (copyPath file w.now.stamp) w = .ok copy w' ∧ w.files.Reaches copy)
      ∨ ∃ w', freshPath file w.now.stamp (w.files.entries.length + 1)
        (copyPath file w.now.stamp) w = .error (.backup (.noFreshName file)) w' := by
    rcases hname.others with hfree | hothers
    · have hexist := doesExist_of_reaches (hnull (.inl rfl)) hname.first
      rw [hfree] at hexist
      exact .inl ⟨_, w, freshPath_of_free hexist, hname.first⟩
    · apply (freshPath_or hfile.names_ne (fun i => ⟨hothers i, hnull (.inr ⟨i, rfl⟩)⟩) hname.first
        (hnull (.inl rfl)) _).imp_left
      rintro ⟨copy, w', hfresh⟩
      obtain ⟨-, -, -, -, mark, rfl | ⟨i, rfl⟩, rfl⟩ :=
        freshPath_eq_ok hfile.names_ne ⟨_, .inl rfl, rfl⟩ hfresh
      · exact ⟨_, w', hfresh, hname.first⟩
      · exact ⟨_, w', hfresh, hothers i⟩
  rw [take_apply m hfile.names_ne]
  rcases hfresh with ⟨copy, w₁, hfresh, hreach⟩ | ⟨w₁, hfresh⟩
  · left
    obtain ⟨drawn, hdrawn, rfl, hnot, mark, hmark, hcopy⟩ :=
      freshPath_eq_ok hfile.names_ne ⟨_, .inl rfl, rfl⟩ hfresh
    have hcopyNull : hasNull copy = false := by
      rw [hcopy]
      exact hnull hmark
    obtain ⟨w₂, hcopying⟩ := @exists_copying { w with drawn } file copy bytes tree
      ⟨hholds.noNull, hholds.reaches, hholds.bytes⟩ (doesExist_congr hnot rfl) hreach hcopyNull
    obtain ⟨bytes', -, hcopied⟩ :=
      exists_copied tree hdrawn hnot ⟨mark, hmark, hcopy⟩ hcopying
    obtain ⟨b, w', hfinishing⟩ := finishing_eq_ok (Digest.Sha256.digest bytes)
      ((exists_recording_iff hcopied.becomes.files.tree hholds.noNull hcopyNull
        (Digest.Sha256.digest bytes)).mpr ((admitsRecord_iff_of_becomes hcopied.becomes_spare hclear).mpr hadmits))
    refine ⟨b, w', bind_eq_ok_iff.mpr ⟨copy, _, hfresh, bind_eq_ok_iff.mpr ⟨_, w₂, hcopying, ?_⟩⟩⟩
    rw [bne_self_eq_false, if_neg Bool.false_ne_true]
    exact hfinishing
  · exact .inr ⟨w₁, bind_of_error hfresh⟩

end BackupStore

end StylePrune
