import StylePrune.Proofs.Job.Steps
import StylePrune.Proofs.Path.Written

/-!
# What jobs do to files

Each job that reads leaves the world as it is, and answers with what the path leads to
(`World.Holds`).  Each job that writes stays within the places of its paths (`Job.Within`), and
where it answers, the file has its new contents.
-/

namespace StylePrune

/-- Whether a path leads to a file with the given contents. -/
structure World.Holds (w : World) (p : Path) (bytes : List UInt8) : Prop where
  noNull : Job.hasNull p = false
  reaches : w.files.Reaches p
  bytes : w.files.bytesAt? (w.files.placeOf p) = some bytes

/-- Whether a directory can be created at the end of a path, with those that it lies in: nothing on
the way is a file, and no name and not the path itself is too long. -/
structure World.Makeable (w : World) (p : Path) : Prop where
  noNull : Job.hasNull p = false
  size : p.toString.utf8ByteSize ≤ Files.maxPathSize
  sizes : ∀ name ∈ p.names, name.utf8ByteSize ≤ Files.maxNameSize
  free : ∀ place ∈ w.files.onTheWay p, w.files.bytesAt? place = none

theorem Job.hasNull_parent {p : Path} (h : Job.hasNull p = false) :
  Job.hasNull p.parent = false
  := by
  rw [Job.hasNull, List.any_eq_false] at h ⊢
  intro name hname
  exact h name (List.dropLast_subset p.names hname)

/-- A path has the character that ends names if another has it, where that is made of names of it. -/
theorem Job.hasNull_of_imp {p q : Path} (h : hasNull q = false → hasNull p = false)
    (hp : hasNull p = true) :
  hasNull q = true
  := by
  by_contra hq
  rw [h (Bool.eq_false_iff.mpr hq)] at hp
  cases hp

theorem Job.hasNull_child (p : Path) (name : String) :
  hasNull (p.child name) = (hasNull p || name.toList.contains (Char.ofNat 0))
  := by
  simp [hasNull, Path.child]

theorem Job.contains_null_name {file : Path} (h : hasNull file = false) :
  (file.name?.getD "").toList.contains (Char.ofNat 0) = false
  := by
  cases hlast : file.name? with
  | none => rfl
  | some name =>
      rw [hasNull, List.any_eq_false] at h
      exact Bool.eq_false_iff.mpr (h name (List.mem_of_getLast? hlast))

namespace World

theorem Becomes.placeOf {touched made : Set Place} {w w' : World} (h : w.Becomes touched made w')
    (p : Path) :
  w'.files.placeOf p = w.files.placeOf p
  := h.files.placeOf p

theorem Holds.of_becomes {touched made : Set Place} {w w' : World} {p : Path}
    {bytes : List UInt8} (h : w.Holds p bytes) (hw : w.Becomes touched made w')
    (hp : w.files.placeOf p ∉ touched) :
  w'.Holds p bytes
  := by
  constructor
  · exact h.noNull
  · exact hw.files.reaches h.reaches
  · rw [hw.placeOf, hw.files.bytes _ hp]
    exact h.bytes

theorem Holds.unique {w : World} {p : Path} {bytes bytes' : List UInt8} (h : w.Holds p bytes)
    (h' : w.Holds p bytes') :
  bytes = bytes'
  := Option.some.inj (h.bytes.symm.trans h'.bytes)

theorem Makeable.parent {w : World} {p : Path} (h : w.Makeable p) :
  w.Makeable p.parent
  := by
  constructor
  · exact Job.hasNull_parent h.noNull
  · apply le_trans p.utf8ByteSize_parent_le
    exact max_le (by decide) h.size
  · intro name hname
    exact h.sizes name (List.dropLast_subset p.names hname)
  · intro place hplace
    exact h.free place (w.files.onTheWay_parent_subset p hplace)

theorem Makeable.reaches_of_nil {w : World} {p : Path} (h : w.Makeable p) (hnil : p.names = []) :
  w.files.Reaches p
  := by
  rw [Files.reaches_iff]
  refine ⟨h.size, h.sizes, ?_⟩
  rw [hnil]
  intro names hinitial hne
  exact absurd (List.prefix_nil.mp hinitial) hne

/-- A directory can still be created if nothing that was touched on the way is a file now. -/
theorem Makeable.of_becomes {touched made : Set Place} {w w' : World} {p : Path}
    (h : w.Makeable p) (hw : w.Becomes touched made w')
    (hway : ∀ place ∈ w.files.onTheWay p, place ∈ touched → w'.files.bytesAt? place = none) :
  w'.Makeable p
  := by
  refine ⟨h.noNull, h.size, h.sizes, ?_⟩
  intro place hplace
  rw [Files.onTheWay_congr hw.files.here] at hplace
  by_cases htouched : place ∈ touched
  · exact hway place hplace htouched
  · rw [hw.files.bytes place htouched]
    exact h.free place hplace

/-- A directory could be created before if nothing that was touched on the way was a file. -/
theorem Makeable.of_becomes_symm {touched made : Set Place} {w w' : World} {p : Path}
    (h : w'.Makeable p) (hw : w.Becomes touched made w')
    (hway : ∀ place ∈ w.files.onTheWay p, place ∈ touched → w.files.bytesAt? place = none) :
  w.Makeable p
  := by
  refine ⟨h.noNull, h.size, h.sizes, ?_⟩
  intro place hplace
  by_cases htouched : place ∈ touched
  · exact hway place hplace htouched
  · rw [← hw.files.bytes place htouched]
    apply h.free
    rw [Files.onTheWay_congr hw.files.here]
    exact hplace

end World

namespace Job

variable {w w' : World} {p q : Path} {bytes : List UInt8} {touched made : Set Place}

/-! ### Reading -/

theorem left_ask {α : Type} (p : Path) (call : Files → Path → Except CallFailure α) (w : World) :
  left (ask p call w) = w
  := by
  cases h : ask p call w with
  | ok a w' => exact (ask_eq_ok_iff.mp h).2.2
  | error fault w' => exact eq_of_ask_eq_error h

theorem left_find? (p : Path) (w : World) :
  left (find? p w) = w
  := by
  cases h : find? p w with
  | ok a w' => exact (find?_eq_ok_iff.mp h).1
  | error fault w' => exact eq_of_find?_eq_error h

theorem left_bind_of_left {α β : Type} {x : Job α} {f : α → Job β} (hx : left (x w) = w)
    (hf : ∀ a, left (f a w) = w) :
  left ((x >>= f) w) = w
  := by
  change left (EStateM.bind x f w) = w
  rw [EStateM.bind]
  cases h : x w with
  | ok a w₁ =>
      rw [h] at hx
      rw [show w₁ = w from hx]
      exact hf a
  | error fault w₁ =>
      rw [h] at hx
      exact hx

theorem left_doesExist (p : Path) (w : World) :
  left (doesExist p w) = w
  := left_bind_of_left (left_find? p w) fun _ => rfl

theorem left_isDirectory (p : Path) (w : World) :
  left (isDirectory p w) = w
  := left_bind_of_left (left_find? p w) fun _ => rfl

theorem left_readBytes (p : Path) (w : World) :
  left (readBytes p w) = w
  := left_ask p Files.read w

theorem left_readText (p : Path) (w : World) :
  left (readText p w) = w
  := by
  apply left_bind_of_left (left_readBytes p w)
  intro bytes
  cases Text.Utf8.decode bytes <;> rfl

theorem left_hash (p : Path) (w : World) :
  left (hash p w) = w
  := left_bind_of_left (left_readBytes p w) fun _ => rfl

theorem left_resolve (p : Path) (w : World) :
  left (resolve p w) = w
  := by
  by_cases h : hasNull p = true
  · simp only [resolve, h, if_true]
    rfl
  · simp only [resolve, h]
    rfl

theorem readBytes_eq_ok_iff :
  readBytes p w = .ok bytes w' ↔ w.Holds p bytes ∧ w' = w
  := by
  rw [readBytes, ask_eq_ok_iff, Files.read_eq_ok_iff]
  constructor
  · rintro ⟨hnull, ⟨hreach, hbytes⟩, rfl⟩
    exact ⟨⟨hnull, hreach, hbytes⟩, rfl⟩
  · rintro ⟨⟨hnull, hreach, hbytes⟩, rfl⟩
    exact ⟨hnull, ⟨hreach, hbytes⟩, rfl⟩

theorem readText_eq_ok_iff {t : Text} :
  readText p w = .ok t w'
    ↔ ∃ bytes, w.Holds p bytes ∧ Text.Utf8.decode bytes = .ok t ∧ w' = w
  := by
  rw [readText, bind_eq_ok_iff]
  constructor
  · rintro ⟨bytes, w₁, hread, h⟩
    obtain ⟨hholds, rfl⟩ := readBytes_eq_ok_iff.mp hread
    cases hdecode : Text.Utf8.decode bytes with
    | ok t' =>
        rw [hdecode] at h
        obtain ⟨rfl, rfl⟩ := EStateM.Result.ok.inj h
        exact ⟨bytes, hholds, hdecode, rfl⟩
    | error fault =>
        rw [hdecode] at h
        cases h
  · rintro ⟨bytes, hholds, hdecode, rfl⟩
    refine ⟨bytes, w', readBytes_eq_ok_iff.mpr ⟨hholds, rfl⟩, ?_⟩
    rw [hdecode]
    rfl

theorem hash_eq_ok_iff {s : String} :
  hash p w = .ok s w' ↔ ∃ bytes, w.Holds p bytes ∧ s = Digest.Sha256.digest bytes ∧ w' = w
  := by
  rw [hash, bind_eq_ok_iff]
  constructor
  · rintro ⟨bytes, w₁, hread, h⟩
    obtain ⟨hholds, rfl⟩ := readBytes_eq_ok_iff.mp hread
    obtain ⟨rfl, rfl⟩ := EStateM.Result.ok.inj h
    exact ⟨bytes, hholds, rfl, rfl⟩
  · rintro ⟨bytes, hholds, rfl, rfl⟩
    exact ⟨bytes, w', readBytes_eq_ok_iff.mpr ⟨hholds, rfl⟩, rfl⟩

/-- A path that leads to nothing leads to no directory and to no file. -/
theorem entry_ne_ok_of_doesExist (hnull : hasNull p = false)
    (h : doesExist p w = .ok false w') (e : Entry) :
  w.files.entry p ≠ .ok e
  := by
  obtain ⟨found, w₁, hfind, hpure⟩ := bind_eq_ok_iff.mp h
  have hnone : found.isSome = false := (EStateM.Result.ok.inj hpure).1
  rcases (find?_eq_ok_iff.mp hfind).2 with ⟨hnull', -⟩ | ⟨-, ⟨e', -, rfl⟩ | ⟨hentry, -⟩⟩
  · rw [hnull] at hnull'
    cases hnull'
  · cases hnone
  · rcases hentry with hentry | hentry
    · rw [hentry]
      rintro ⟨⟩
    · rw [hentry]
      rintro ⟨⟩

theorem resolve_eq_ok_iff :
  resolve p w = .ok q w'
    ↔ hasNull p = false ∧ q = Path.fromRoot (w.files.placeOf p) ∧ w' = w
  := by
  cases h : hasNull p with
  | true =>
      simp only [resolve, h, if_true]
      constructor
      · rintro ⟨⟩
      · rintro ⟨⟨⟩, -⟩
  | false =>
      simp only [resolve, h]
      constructor
      · intro hok
        obtain ⟨rfl, rfl⟩ := EStateM.Result.ok.inj hok
        exact ⟨trivial, rfl, rfl⟩
      · rintro ⟨-, rfl, rfl⟩
        rfl

/-! ### Writing -/

theorem within_change {edit : Files → Path → Except CallFailure Files} (tree : w.files.IsTree)
    (h : ∀ files, edit w.files p = .ok files → w.files.Becomes touched made files) :
  Within touched made (change p edit) w
  := by
  cases hchange : change p edit w with
  | ok a w' =>
      obtain ⟨-, files, hfiles, rfl⟩ := change_eq_ok_iff.mp hchange
      rw [Within, hchange]
      exact .of_files (h files hfiles)
  | error fault w' =>
      apply Within.of_left_eq tree
      rw [hchange]
      exact eq_of_change_eq_error hchange

theorem within_writeBytes (tree : w.files.IsTree) (hp : w.files.placeOf p ∈ touched) :
  Within touched made (writeBytes p bytes) w
  := by
  apply within_change tree
  intro files h
  apply (Files.becomes_of_write tree h).1.mono
  · exact Set.singleton_subset_iff.mpr hp
  · exact Set.empty_subset made

theorem holds_of_writeBytes (tree : w.files.IsTree) (h : writeBytes p bytes w = .ok () w') :
  w'.Holds p bytes
  := by
  obtain ⟨hnull, files, hfiles, rfl⟩ := change_eq_ok_iff.mp h
  obtain ⟨hbecomes, hbytes⟩ := Files.becomes_of_write tree hfiles
  constructor
  · exact hnull
  · exact hbecomes.reaches (Files.write_eq_ok_iff.mp hfiles).1
  · rw [hbecomes.placeOf]
    exact hbytes

theorem within_removeIfPresent (tree : w.files.IsTree) (hp : w.files.placeOf p ∈ touched) :
  Within touched made (removeIfPresent p) w
  := by
  apply within_change tree
  intro files h
  cases hremove : w.files.remove p with
  | ok files' =>
      rw [hremove] at h
      obtain rfl := Except.ok.inj h
      apply (Files.becomes_of_remove tree hremove).mono
      · exact Set.singleton_subset_iff.mpr hp
      · exact Set.empty_subset made
  | error cause =>
      rw [hremove] at h
      cases cause <;> cases h
      exact .refl tree

/-- What is renamed to a path that leads to a file is a file. -/
theorem within_rename (tree : w.files.IsTree) (hp : w.files.placeOf p ∈ touched)
    (hq : w.files.placeOf q ∈ touched)
    (hdirectory : w.files.get? (w.files.placeOf p) = some .directory →
      w.files.bytesAt? (w.files.placeOf q) ≠ none) :
  Within touched made (rename p q) w
  := by
  cases hrename : rename p q w with
  | ok a w' =>
      obtain ⟨-, -, files, hfiles, rfl⟩ := rename_job_eq_ok_iff.mp hrename
      obtain ⟨bytes, hbytes⟩ := Files.bytesAt?_of_rename hdirectory hfiles
      rw [Within, hrename]
      apply World.Becomes.of_files
      apply (Files.becomes_of_rename tree hbytes hfiles).1.mono
      · exact Set.insert_subset hp (Set.singleton_subset_iff.mpr hq)
      · exact Set.empty_subset made
  | error fault w' =>
      apply Within.of_left_eq tree
      rw [hrename]
      exact eq_of_rename_eq_error hrename

/-- A file that is renamed is found under its new name. -/
theorem holds_of_rename (tree : w.files.IsTree) (hp : w.Holds p bytes)
    (h : rename p q w = .ok () w') :
  w'.Holds q bytes
  := by
  obtain ⟨-, hnull, files, hfiles, rfl⟩ := rename_job_eq_ok_iff.mp h
  obtain ⟨hbecomes, hbytes⟩ := Files.becomes_of_rename tree hp.bytes hfiles
  obtain ⟨-, -, hreach, -⟩ := (Files.rename_eq_ok_iff hp.reaches hp.bytes).mp hfiles
  constructor
  · exact hnull
  · exact hbecomes.reaches hreach
  · rw [hbecomes.placeOf]
    exact hbytes

/-- Nothing has the old name of a file that got another one. -/
theorem get?_of_rename (tree : w.files.IsTree) (hp : w.Holds p bytes)
    (hne : w.files.placeOf p ≠ w.files.placeOf q) (h : rename p q w = .ok () w') :
  w'.files.get? (w.files.placeOf p) = none
  := by
  obtain ⟨-, -, files, hfiles, rfl⟩ := rename_job_eq_ok_iff.mp h
  obtain ⟨-, -, -, hdirectory, rfl⟩ := (Files.rename_eq_ok_iff hp.reaches hp.bytes).mp hfiles
  change (if w.files.placeOf p = w.files.placeOf q then w.files else _).get? _ = none
  rw [if_neg hne, tree.get?_move (Files.bytesAt?_eq_some_iff.mp hp.bytes) hdirectory, if_neg hne,
    if_pos rfl]

/-! ### Creating directories -/

theorem within_makeDir (tree : w.files.IsTree) (hp : w.files.placeOf p ∈ made) :
  Within touched made (change p Files.makeDir) w
  := by
  apply within_change tree
  intro files h
  apply (Files.becomes_of_makeDir tree h).1.mono
  · exact Set.empty_subset touched
  · exact Set.singleton_subset_iff.mpr hp

theorem within_keepIfDirectory (tree : w.files.IsTree) (fault : Fault) :
  Within touched made (makeDirsWithin.keepIfDirectory p fault) w
  := by
  rw [makeDirsWithin.keepIfDirectory.eq_def]
  split
  · exact .throw tree _
  · apply Within.bind
    · exact .of_left_eq tree (left_isDirectory p w)
    · rintro a w₁ - h
      cases a
      · exact .throw h.files.tree _
      · exact .pure h.files.tree _
  · exact .throw tree _

/-- Creating directories makes them on the way to the last one only, and touches no file. -/
theorem within_makeDirsWithin (n : Nat) {p : Path} (tree : w.files.IsTree)
    (hp : w.files.onTheWay p ⊆ made) :
  Within touched made (makeDirsWithin n p) w
  := by
  have hplace := hp (w.files.placeOf_mem_onTheWay p)
  induction n generalizing p w with
  | zero =>
      apply Within.tryCatch (within_makeDir tree hplace)
      rintro fault w₁ - h
      exact within_keepIfDirectory h.files.tree fault
  | succ n ih =>
      apply Within.tryCatch (within_makeDir tree hplace)
      rintro fault w₁ - h
      split
      · dsimp only
        split
        · apply Within.bind (.throw h.files.tree _)
          rintro a w₂ ⟨⟩
        · have hparent : w₁.files.onTheWay p.parent ⊆ made := by
            rw [Files.onTheWay_congr h.files.here]
            exact (w.files.onTheWay_parent_subset p).trans hp
          apply Within.bind
          · apply ih h.files.tree hparent
            exact hparent (w₁.files.placeOf_mem_onTheWay p.parent)
          · rintro a w₂ - h₂
            apply Within.tryCatch
            · apply within_makeDir h₂.files.tree
              rw [h₂.placeOf, h.placeOf]
              exact hplace
            · rintro fault' w₃ - h₃
              exact within_keepIfDirectory h₃.files.tree fault'
      · exact within_keepIfDirectory h.files.tree _

theorem within_makeDirs (tree : w.files.IsTree) (hp : w.files.onTheWay p ⊆ made) :
  Within touched made (makeDirs p) w
  := within_makeDirsWithin p.names.length tree hp

theorem isDirectory_eq_true_iff :
  isDirectory p w = .ok true w'
    ↔ hasNull p = false ∧ w.files.Reaches p ∧ w.files.get? (w.files.placeOf p) = some .directory
      ∧ w' = w
  := by
  rw [isDirectory, bind_eq_ok_iff]
  constructor
  · rintro ⟨found, w₁, hfind, h⟩
    obtain ⟨heq, rfl⟩ := EStateM.Result.ok.inj h
    obtain ⟨rfl, hfound⟩ := find?_eq_ok_iff.mp hfind
    rcases hfound with ⟨-, rfl⟩ | ⟨hnull, ⟨e, he, rfl⟩ | ⟨-, rfl⟩⟩
    · cases heq
    · obtain rfl : e = .directory := Option.some.inj (eq_of_beq heq)
      obtain ⟨hreach, hget⟩ := Files.entry_eq_ok_iff.mp he
      exact ⟨hnull, hreach, hget, rfl⟩
    · cases heq
  · rintro ⟨hnull, hreach, hget, rfl⟩
    refine ⟨some .directory, w', find?_eq_ok_iff.mpr ⟨rfl, .inr ⟨hnull, .inl ⟨.directory, ?_, rfl⟩⟩⟩,
      rfl⟩
    exact Files.entry_eq_ok_iff.mpr ⟨hreach, hget⟩

/-- A directory is created, or kept where it is there already. -/
theorem makeDir_or_keep_eq_ok_iff :
  tryCatch (change p Files.makeDir) (makeDirsWithin.keepIfDirectory p) w = .ok () w'
    ↔ hasNull p = false ∧ w.files.Reaches p
      ∧ (w.files.get? (w.files.placeOf p) = none ∧ change p Files.makeDir w = .ok () w'
        ∨ w.files.get? (w.files.placeOf p) = some .directory ∧ w' = w)
  := by
  rw [tryCatch_eq_ok_iff]
  constructor
  · rintro (h | ⟨fault, w₁, h, hkeep⟩)
    · obtain ⟨hnull, files, hfiles, -⟩ := change_eq_ok_iff.mp h
      obtain ⟨hreach, hnone, -⟩ := Files.makeDir_eq_ok_iff.mp hfiles
      exact ⟨hnull, hreach, .inl ⟨hnone, h⟩⟩
    · obtain rfl := eq_of_change_eq_error h
      rw [makeDirsWithin.keepIfDirectory.eq_def] at hkeep
      split at hkeep
      · cases hkeep
      · obtain ⟨a, w₂, hdir, hkeep⟩ := bind_eq_ok_iff.mp hkeep
        cases a
        · cases hkeep
        · obtain ⟨-, rfl⟩ := EStateM.Result.ok.inj hkeep
          obtain ⟨hnull, hreach, hget, rfl⟩ := isDirectory_eq_true_iff.mp hdir
          exact ⟨hnull, hreach, .inr ⟨hget, rfl⟩⟩
      · cases hkeep
  · rintro ⟨hnull, hreach, ⟨-, h⟩ | ⟨hget, rfl⟩⟩
    · exact .inl h
    · have hcall : w'.files.makeDir p = .error .alreadyExists := by
        rw [Files.makeDir, show w'.files.locate p = _ from hreach]
        simp [bind, Except.bind, hget, throw, throwThe, MonadExceptOf.throw]
      refine .inr ⟨.system (.call .alreadyExists p.toString none), w', ?_, ?_⟩
      · rw [change_apply, hnull, hcall]
        rfl
      · rw [makeDirsWithin.keepIfDirectory]
        · rw [bind_eq_ok_iff]
          exact ⟨true, w', isDirectory_eq_true_iff.mpr ⟨hnull, hreach, hget, rfl⟩, rfl⟩
        · rintro path target ⟨⟩

/-- A directory that was created or kept is there. -/
theorem get?_of_makeDir_or_keep (tree : w.files.IsTree)
    (h : tryCatch (change p Files.makeDir) (makeDirsWithin.keepIfDirectory p) w = .ok () w') :
  w'.files.get? (w.files.placeOf p) = some .directory
  := by
  obtain ⟨-, -, ⟨-, h⟩ | ⟨hget, rfl⟩⟩ := makeDir_or_keep_eq_ok_iff.mp h
  · obtain ⟨-, files, hfiles, rfl⟩ := change_eq_ok_iff.mp h
    exact (Files.becomes_of_makeDir tree hfiles).2
  · exact hget

/-- Where a directory was created or kept, everything on the way is one. -/
theorem makeable_of_makeDir_or_keep (tree : w.files.IsTree)
    (h : tryCatch (change p Files.makeDir) (makeDirsWithin.keepIfDirectory p) w = .ok () w') :
  w.Makeable p ∧ ∀ place ∈ w.files.onTheWay p, w'.files.get? place = some .directory
  := by
  obtain ⟨hnull, hreach, hplace⟩ := makeDir_or_keep_eq_ok_iff.mp h
  obtain ⟨hsize, hsizes, -⟩ := Files.reaches_iff.mp hreach
  have hbecomes : w.Becomes ∅ {w.files.placeOf p} w' := by
    apply Within.of_ok _ h
    apply Within.tryCatch (within_makeDir tree (Set.mem_singleton _))
    rintro fault w₁ - h₁
    exact within_keepIfDirectory h₁.files.tree fault
  constructor
  · refine ⟨hnull, hsize, hsizes, ?_⟩
    intro place hmem
    rcases hreach.get?_of_mem_onTheWay hmem with rfl | hget
    · rw [Files.bytesAt?]
      rcases hplace with ⟨hnone, -⟩ | ⟨hdirectory, -⟩
      · rw [hnone]
      · rw [hdirectory]
    · exact Files.bytesAt?_of_directory hget
  · intro place hmem
    rcases hreach.get?_of_mem_onTheWay hmem with rfl | hget
    · exact get?_of_makeDir_or_keep tree h
    · exact hbecomes.files.stay place hget

theorem makeable_of_makeDirsWithin (n : Nat) {p : Path} (tree : w.files.IsTree)
    (h : makeDirsWithin n p w = .ok () w') :
  w.Makeable p ∧ ∀ place ∈ w.files.onTheWay p, w'.files.get? place = some .directory
  := by
  induction n generalizing p w w' with
  | zero => exact makeable_of_makeDir_or_keep tree h
  | succ n ih =>
      rcases tryCatch_eq_ok_iff.mp h with hmake | ⟨fault, w₁, hmake, hhandler⟩
      · exact makeable_of_makeDir_or_keep tree (tryCatch_eq_ok_iff.mpr (.inl hmake))
      · split at hhandler
        · dsimp only at hhandler
          obtain rfl := eq_of_change_eq_error hmake
          split at hhandler
          · cases hhandler
          · obtain ⟨_, w₂, hparent, hagain⟩ := bind_eq_ok_iff.mp hhandler
            have hbecomes : w₁.Becomes ∅ Set.univ w₂ :=
              (within_makeDirsWithin n tree (Set.subset_univ _)).of_ok hparent
            obtain ⟨-, hdirs⟩ := ih tree hparent
            obtain ⟨hmakeable, hdirs'⟩ := makeable_of_makeDir_or_keep hbecomes.files.tree hagain
            rw [Files.onTheWay_congr hbecomes.files.here] at hdirs'
            refine ⟨hmakeable.of_becomes_symm hbecomes ?_, hdirs'⟩
            rintro place - ⟨⟩
        · exact makeable_of_makeDir_or_keep tree
            (tryCatch_eq_ok_iff.mpr (.inr ⟨_, w₁, hmake, hhandler⟩))

/-- A directory is created or kept at the end of a path that leads somewhere. -/
theorem exists_makeDir_or_keep (h : w.Makeable p) (hreach : w.files.Reaches p) :
  ∃ w', tryCatch (change p Files.makeDir) (makeDirsWithin.keepIfDirectory p) w = .ok () w'
  := by
  have hfree := h.free _ (w.files.placeOf_mem_onTheWay p)
  rcases w.files.get?_cases (w.files.placeOf p) with hget | hget | ⟨bytes, hget⟩
  · have hmake := Files.makeDir_eq_ok_iff.mpr ⟨hreach, hget, rfl⟩
    have hchange := change_eq_ok_iff.mpr ⟨h.noNull, _, hmake, rfl⟩
    exact ⟨_, makeDir_or_keep_eq_ok_iff.mpr ⟨h.noNull, hreach, .inl ⟨hget, hchange⟩⟩⟩
  · exact ⟨w, makeDir_or_keep_eq_ok_iff.mpr ⟨h.noNull, hreach, .inr ⟨hget, rfl⟩⟩⟩
  · rw [Files.bytesAt?_eq_some_iff.mpr hget] at hfree
    cases hfree

theorem exists_makeDirsWithin (n : Nat) {p : Path} (tree : w.files.IsTree) (h : w.Makeable p)
    (hlength : p.names.length ≤ n) :
  ∃ w', makeDirsWithin n p w = .ok () w'
  := by
  induction n generalizing p w with
  | zero =>
      apply exists_makeDir_or_keep h
      exact h.reaches_of_nil (List.length_eq_zero_iff.mp (Nat.le_zero.mp hlength))
  | succ n ih =>
      -- a path that does not lead on yet has a parent to be made first, which is one name shorter
      by_cases hreach : w.files.Reaches p
      · obtain ⟨w', hmake⟩ := exists_makeDir_or_keep h hreach
        use w'
        apply tryCatch_eq_ok_iff.mpr
        rcases tryCatch_eq_ok_iff.mp hmake with hok | ⟨fault, w₁, herror, hkeep⟩
        · exact .inl hok
        · refine .inr ⟨fault, w₁, herror, ?_⟩
          split
          · cases hkeep
          · exact hkeep
      · have hlocate := Files.locate_eq_notFound h.size h.sizes h.free hreach
        have hne : p.parent ≠ p := by
          intro heq
          have hnil : p.names = [] := by
            have hlen := congrArg (List.length ∘ Path.names) heq
            simp only [Function.comp, Path.parent, List.length_dropLast] at hlen
            apply List.length_eq_zero_iff.mp
            omega
          exact hreach (h.reaches_of_nil hnil)
        have hparent : p.parent.names.length ≤ n := by
          rw [Path.parent, List.length_dropLast]
          omega
        obtain ⟨w₁, hmakeParent⟩ := ih tree h.parent hparent
        have hbecomes : w.Becomes ∅ Set.univ w₁ :=
          (within_makeDirsWithin n tree (Set.subset_univ _)).of_ok hmakeParent
        obtain ⟨-, hdirs⟩ := makeable_of_makeDirsWithin n tree hmakeParent
        have hmakeable : w₁.Makeable p := by
          apply h.of_becomes hbecomes
          rintro place - ⟨⟩
        have hreach₁ : w₁.files.Reaches p := by
          rw [Files.reaches_iff]
          refine ⟨h.size, h.sizes, ?_⟩
          intro names hinitial hne'
          rw [hbecomes.placeOf]
          exact hdirs _ ⟨names, Files.isPrefix_dropLast hinitial hne', rfl⟩
        obtain ⟨w', hmake⟩ := exists_makeDir_or_keep hmakeable hreach₁
        use w'
        apply tryCatch_eq_ok_iff.mpr
        refine .inr ⟨.system (.call .notFound p.toString none), w, ?_, ?_⟩
        · rw [change_apply, h.noNull, Files.makeDir, hlocate]
          rfl
        · dsimp only
          rw [if_neg hne]
          exact bind_eq_ok_iff.mpr ⟨(), w₁, hmakeParent, hmake⟩

/-- Directories that were created are there, with all that is on the way to them. -/
theorem makeable_of_makeDirs (tree : w.files.IsTree) (h : makeDirs p w = .ok () w') :
  w.Makeable p ∧ ∀ place ∈ w.files.onTheWay p, w'.files.get? place = some .directory
  := makeable_of_makeDirsWithin p.names.length tree h

theorem exists_makeDirs (tree : w.files.IsTree) (h : w.Makeable p) :
  ∃ w', makeDirs p w = .ok () w'
  := exists_makeDirsWithin p.names.length tree h (Nat.le_refl _)

/-! ### Copying -/

/-- Where a copy goes: to the given path, or into the directory that is there. -/
def copyTarget (fs : Files) (source target : Path) : Path :=
  if !hasNull target && fs.entry target matches .ok .directory then
    target.child (source.name?.getD "")
  else target

theorem copyTarget_eq_or (fs : Files) (source target : Path) :
  copyTarget fs source target = target
    ∨ copyTarget fs source target = target.child (source.name?.getD "")
  := by
  rw [copyTarget]
  exact (ite_eq_or_eq _ _ _).symm

theorem hasNull_copyTarget {source target : Path} (hsource : hasNull source = false)
    (htarget : hasNull target = false) (fs : Files) :
  hasNull (copyTarget fs source target) = false
  := by
  rcases copyTarget_eq_or fs source target with heq | heq
  · rw [heq, htarget]
  · rw [heq, hasNull_child, htarget, contains_null_name hsource]
    rfl

theorem copyTarget_of_entry_ne {fs : Files} {source target : Path}
    (h : fs.entry target ≠ .ok .directory) :
  copyTarget fs source target = target
  := by
  rw [copyTarget, if_neg]
  rw [Bool.and_eq_true, not_and]
  rintro -
  cases hentry : fs.entry target with
  | error cause => exact Bool.false_ne_true
  | ok e =>
      cases e with
      | file bytes => exact Bool.false_ne_true
      | directory => exact absurd hentry h

/-- Whether a copy is refused for the character that ends names. -/
def isCopyRefused (fs : Files) (source target : Path) : Bool :=
  hasNull source || (hasNull target && fs.entry source matches .ok _)

theorem refuse_apply {α : Type} (refused : Bool) (fault : Fault) (rest : Unit → Job α)
    (w : World) :
  (if refused then throw fault >>= rest else rest ()) w
    = if refused then .error fault w else rest () w
  := by
  cases refused <;> rfl

theorem copy_apply (source target : Path) (w : World) :
  copy source target w
    = if isCopyRefused w.files source (copyTarget w.files source target) then
        .error .embeddedNull w
      else if w.files.sameEntry source (copyTarget w.files source target) then
        .error (.system
          (.sameFile source.toString (copyTarget w.files source target).toString)) w
      else (readBytes source >>= writeBytes (copyTarget w.files source target)) w
  := by
  apply (refuse_apply _ _ (fun _ => _) w).trans
  congr 1
  exact refuse_apply _ _ (fun _ => _) w

/-- Copying touches the place that the copy goes to. -/
theorem within_copy {source target : Path} (tree : w.files.IsTree)
    (h : w.files.placeOf (copyTarget w.files source target) ∈ touched) :
  Within touched made (copy source target) w
  := by
  rw [Within, copy_apply]
  split
  · exact .refl tree
  · split
    · exact .refl tree
    · apply Within.bind
      · exact .of_left_eq tree (left_readBytes source w)
      · rintro bytes w₁ - h₁
        apply within_writeBytes h₁.files.tree
        rw [h₁.placeOf]
        exact h

/-- A copy has the contents of what it was taken of. -/
theorem holds_of_copy {source target : Path} (tree : w.files.IsTree)
    (h : copy source target w = .ok () w') :
  ∃ bytes, w.Holds source bytes ∧ w'.Holds (copyTarget w.files source target) bytes
    ∧ w.files.Reaches (copyTarget w.files source target)
  := by
  rw [copy_apply] at h
  split at h
  · cases h
  · split at h
    · cases h
    · obtain ⟨bytes, w₁, hread, hwrite⟩ := bind_eq_ok_iff.mp h
      obtain ⟨hholds, rfl⟩ := readBytes_eq_ok_iff.mp hread
      obtain ⟨-, files, hfiles, -⟩ := change_eq_ok_iff.mp hwrite
      exact ⟨bytes, hholds, holds_of_writeBytes tree hwrite, (Files.write_eq_ok_iff.mp hfiles).1⟩

theorem eq_of_copy_eq_error {source target : Path} {fault : Fault}
    (h : copy source target w = .error fault w') :
  w' = w
  := by
  rw [copy_apply] at h
  split at h
  · exact (EStateM.Result.error.inj h).2.symm
  · split at h
    · exact (EStateM.Result.error.inj h).2.symm
    · rcases bind_eq_error_iff.mp h with hread | ⟨bytes, w₁, hread, hwrite⟩
      · exact eq_of_ask_eq_error hread
      · obtain ⟨-, rfl⟩ := readBytes_eq_ok_iff.mp hread
        exact eq_of_change_eq_error hwrite

/-- A file is copied to where nothing is. -/
theorem exists_copy {source target : Path} (hsource : w.Holds source bytes)
    (hnull : hasNull target = false) (hreach : w.files.Reaches target)
    (hnone : w.files.get? (w.files.placeOf target) = none) :
  ∃ w', copy source target w = .ok () w'
  := by
  have htarget : copyTarget w.files source target = target := by
    apply copyTarget_of_entry_ne
    intro hentry
    rw [(Files.entry_eq_ok_iff.mp hentry).2] at hnone
    cases hnone
  have hsame : w.files.sameEntry source target = false := by
    rw [Files.sameEntry, show w.files.locate source = _ from hsource.reaches,
      show w.files.locate target = _ from hreach]
    rw [Bool.and_eq_false_iff]
    refine .inl (beq_eq_false_iff_ne.mpr ?_)
    intro heq
    have hbytes := hsource.bytes
    rw [heq, Files.bytesAt?, hnone] at hbytes
    cases hbytes
  have hwrite : w.files.write target bytes
      = .ok (w.files.put (w.files.placeOf target) (.file bytes)) :=
    Files.write_eq_ok_iff.mpr ⟨hreach, (by rw [hnone]; rintro ⟨⟩), rfl⟩
  refine ⟨{ w with files := w.files.put (w.files.placeOf target) (.file bytes) }, ?_⟩
  have hrefused : isCopyRefused w.files source target = false := by
    rw [isCopyRefused, hsource.noNull, hnull]
    rfl
  rw [copy_apply, htarget, hrefused, hsame]
  apply bind_eq_ok_iff.mpr
  refine ⟨bytes, w, readBytes_eq_ok_iff.mpr ⟨hsource, rfl⟩, ?_⟩
  exact change_eq_ok_iff.mpr ⟨hnull, _, hwrite, rfl⟩

/-! ### Faults of calls -/

/-- Whether a job ends with no fault but those of calls on the file tree, and with the one about the
character that ends names only if there is cause for it. -/
def FailsByCalls {α : Type} (null : Prop) (j : Job α) : Prop :=
  ∀ w fault w', j w = .error fault w' →
    (∃ error, fault = .system error) ∨ fault = .embeddedNull ∧ null

namespace FailsByCalls

variable {α β : Type} {null : Prop}

/-- Where there is no cause for the other fault, a job that fails does so by a call. -/
theorem exists_system {j : Job α} (h : FailsByCalls False j) {fault : Fault}
    (hj : j w = .error fault w') :
  ∃ error, fault = .system error
  := (h w fault w' hj).resolve_right fun hnull => hnull.2

theorem pure (a : α) :
  FailsByCalls null (pure a)
  := by
  rintro w fault w' ⟨⟩

theorem system (error : SystemError) :
  FailsByCalls (α := α) null (throw (.system error))
  := by
  rintro w fault w' ⟨⟩
  exact .inl ⟨error, rfl⟩

theorem bind {x : Job α} {f : α → Job β} (hx : FailsByCalls null x)
    (hf : ∀ a, FailsByCalls null (f a)) :
  FailsByCalls null (x >>= f)
  := by
  intro w fault w' h
  rcases bind_eq_error_iff.mp h with h | ⟨a, w₁, -, h⟩
  · exact hx w fault w' h
  · exact hf a w₁ fault w' h

theorem ask (call : Files → Path → Except CallFailure α) (hp : hasNull p = true → null) :
  FailsByCalls null (ask p call)
  := by
  intro w fault w' h
  rw [ask_apply] at h
  split at h
  · next hnull =>
    obtain ⟨rfl, -⟩ := EStateM.Result.error.inj h
    exact .inr ⟨rfl, hp hnull⟩
  · split at h
    · cases h
    · obtain ⟨rfl, -⟩ := EStateM.Result.error.inj h
      exact .inl ⟨_, rfl⟩

theorem change (call : Files → Path → Except CallFailure Files) (hp : hasNull p = true → null) :
  FailsByCalls null (change p call)
  := by
  intro w fault w' h
  rw [change_apply] at h
  split at h
  · next hnull =>
    obtain ⟨rfl, -⟩ := EStateM.Result.error.inj h
    exact .inr ⟨rfl, hp hnull⟩
  · split at h
    · cases h
    · obtain ⟨rfl, -⟩ := EStateM.Result.error.inj h
      exact .inl ⟨_, rfl⟩

theorem writeText (t : Text) (hp : hasNull p = true → null) :
  FailsByCalls null (writeText p t)
  := by
  rw [Job.writeText, Job.writeBytes]
  exact change _ hp

theorem hash (hp : hasNull p = true → null) :
  FailsByCalls null (hash p)
  := bind (ask _ hp) fun _ => pure _

theorem rename (hp : hasNull p = true → null) (hq : hasNull q = true → null) :
  FailsByCalls null (rename p q)
  := by
  intro w fault w' h
  rw [rename_apply] at h
  split at h
  · next hnull =>
    obtain ⟨rfl, -⟩ := EStateM.Result.error.inj h
    exact .inr ⟨rfl, (Bool.or_eq_true_iff.mp hnull).elim hp hq⟩
  · split at h
    · cases h
    · obtain ⟨rfl, -⟩ := EStateM.Result.error.inj h
      exact .inl ⟨_, rfl⟩

theorem find? (p : Path) :
  FailsByCalls null (find? p)
  := by
  intro w fault w' h
  rw [find?_apply] at h
  split at h
  · cases h
  · split at h
    · cases h
    · cases h
    · cases h
    · obtain ⟨rfl, -⟩ := EStateM.Result.error.inj h
      exact .inl ⟨_, rfl⟩

theorem keepIfDirectory (p : Path) {fault : Fault}
    (h : (∃ error, fault = .system error) ∨ fault = .embeddedNull ∧ null) :
  FailsByCalls null (makeDirsWithin.keepIfDirectory p fault)
  := by
  rw [makeDirsWithin.keepIfDirectory.eq_def]
  split
  · exact .system _
  · apply bind ((find? p).bind fun found => .pure _)
    intro a
    cases a
    · exact .system _
    · exact .pure _
  · intro w fault' w' hthrow
    obtain ⟨rfl, -⟩ := EStateM.Result.error.inj hthrow
    exact h

theorem makeDirsWithin (n : Nat) (hp : hasNull p = true → null) :
  FailsByCalls null (makeDirsWithin n p)
  := by
  induction n generalizing p with
  | zero =>
      intro w fault w' h
      obtain ⟨fault₁, w₁, h₁, hkeep⟩ := tryCatch_eq_error_iff.mp h
      exact keepIfDirectory p (change _ hp w fault₁ w₁ h₁) w₁ fault w' hkeep
  | succ n ih =>
      intro w fault w' h
      obtain ⟨fault₁, w₁, h₁, hhandler⟩ := tryCatch_eq_error_iff.mp h
      have hfault₁ := change _ hp w fault₁ w₁ h₁
      have hparent : hasNull p.parent = true → null := fun h => hp (hasNull_of_imp hasNull_parent h)
      split at hhandler
      · dsimp only at hhandler
        split at hhandler
        · rcases bind_eq_error_iff.mp hhandler with hthrow | ⟨_, _, ⟨⟩, _⟩
          exact system (α := Unit) _ w₁ fault w' hthrow
        · apply bind (ih hparent) _ w₁ fault w' hhandler
          intro _ w₂ fault₂ w₃ h₂
          obtain ⟨fault₃, w₄, h₃, hkeep⟩ := tryCatch_eq_error_iff.mp h₂
          exact keepIfDirectory p (change _ hp w₂ fault₃ w₄ h₃) w₄ fault₂ w₃ hkeep
      · exact keepIfDirectory p hfault₁ w₁ fault w' hhandler

theorem copy (hp : hasNull p = true → null) (hq : hasNull q = true → null) :
  FailsByCalls null (copy p q)
  := by
  intro w fault w' h
  have htarget : hasNull (copyTarget w.files p q) = true → null := by
    intro hnull
    by_contra hnot
    rw [hasNull_copyTarget (Bool.eq_false_iff.mpr (mt hp hnot)) (Bool.eq_false_iff.mpr (mt hq hnot))]
      at hnull
    cases hnull
  rw [copy_apply] at h
  split at h
  · next hrefused =>
    obtain ⟨rfl, -⟩ := EStateM.Result.error.inj h
    rcases Bool.or_eq_true_iff.mp hrefused with hnull | hnull
    · exact .inr ⟨rfl, hp hnull⟩
    · exact .inr ⟨rfl, htarget (Bool.and_eq_true_iff.mp hnull).1⟩
  · split at h
    · obtain ⟨rfl, -⟩ := EStateM.Result.error.inj h
      exact .inl ⟨_, rfl⟩
    · exact bind (ask _ hp) (fun _ => change _ htarget) w fault w' h

end FailsByCalls

end Job

end StylePrune
