import StylePrune.Proofs.Backup.Copies

/-!
# Putting copies back

A copy that is put back gives the stylesheet the contents of the copy; if that fails, the stylesheet
is as it was.  Either way nothing is touched but the stylesheet, the file beside it that is written
first, and the manifest.
-/

namespace StylePrune

/-- The path at which a file is written before it takes the place of a stylesheet. -/
def Path.besides (file : Path) (tail : String) : Path :=
  file.parent.child ("." ++ file.name?.getD "" ++ tail)

theorem Job.hasNull_besides {file : Path} {tail : String} (h : hasNull file = false)
    (htail : Char.ofNat 0 ∉ tail.toList) :
  hasNull (file.besides tail) = false
  := by
  have hname := contains_null_name h
  rw [Path.besides, hasNull_child, hasNull_parent h, Bool.false_or]
  simp only [List.contains_eq_mem, decide_eq_false_iff_not] at hname ⊢
  simp only [String.toList_append, List.mem_append, not_or]
  exact ⟨⟨by decide, hname⟩, htail⟩

namespace Files

/-- The places where files are written before they take the place of others. -/
def temporaries : Set Place := { place | suffixAt place = temporarySuffix }

theorem get?_of_mem_temporaries {fs : Files} {place : Place}
    (h : ∀ entry ∈ fs.entries, suffixAt entry.1 ≠ temporarySuffix) (hplace : place ∈ temporaries) :
  fs.get? place = none
  := by
  apply Option.eq_none_iff_forall_not_mem.mpr
  intro e he
  apply h _ (mem_entries_of_get? _ he) hplace
  rintro rfl
  exact absurd (show suffixAt [] = temporarySuffix from hplace) (by decide)

theorem suffixOf_temporaryName (name : String) {tail : String}
    (htail : tail = ".restore.tmp" ∨ tail = ".stylesweep.tmp") :
  Path.suffixOf ("." ++ name ++ tail) = temporarySuffix
  := by
  have hsplit : ∃ front, front ≠ "" ∧ "." ++ name ++ tail = front ++ "." ++ "tmp" := by
    rcases htail with rfl | rfl
    · refine ⟨"." ++ name ++ ".restore", ?_, ?_⟩
      · intro h
        have := congrArg String.toList h
        simp at this
      · apply String.toList_injective
        simp
    · refine ⟨"." ++ name ++ ".stylesweep", ?_, ?_⟩
      · intro h
        have := congrArg String.toList h
        simp at this
      · apply String.toList_injective
        simp
  obtain ⟨front, hne, heq⟩ := hsplit
  rw [heq, Path.suffixOf_concat hne (by decide) (by decide)]
  rfl

theorem temporaryName_ne (name : String) {tail : String}
    (htail : tail = ".restore.tmp" ∨ tail = ".stylesweep.tmp") :
  "." ++ name ++ tail ≠ ".."
  := by
  intro h
  have hsuffix := suffixOf_temporaryName name htail
  rw [h] at hsuffix
  exact absurd hsuffix (by decide)

theorem placeOf_besides_mem_temporaries (fs : Files) (file : Path) {tail : String}
    (htail : tail = ".restore.tmp" ∨ tail = ".stylesweep.tmp") :
  fs.placeOf (file.besides tail) ∈ temporaries
  := by
  change suffixAt _ = _
  rw [Path.besides, placeOf_child fs _ (temporaryName_ne _ htail), suffixAt_concat,
    suffixOf_temporaryName _ htail]

end Files

theorem Manifest.placeOf_path_notMem_temporaries (fs : Files) (manifest : Manifest) :
  fs.placeOf manifest.path ∉ Files.temporaries
  := by
  intro htemporary
  have hsuffix : Files.suffixAt _ = Files.temporarySuffix := htemporary
  rw [suffixAt_placeOf_path] at hsuffix
  exact absurd hsuffix (by decide)

theorem Manifest.placeOf_path_ne_of_isStylesheetAt (fs : Files) (manifest : Manifest) {place : Place}
    (h : Files.IsStylesheetAt place) :
  fs.placeOf manifest.path ≠ place
  := by
  rintro rfl
  exact h.suffixAt_ne (by decide) (suffixAt_placeOf_path fs manifest)

namespace BackupStore

open Job

variable {m : BackupStore} {w w' : World} {file copy : Path} {touched made : Set Place}
    {bytes : List UInt8} {fault : Fault}

/-! ### Putting a copy in the place of a stylesheet -/

/-- The path at which a copy is written before it takes the place of the stylesheet. -/
def backPath (file : Path) : Path := file.besides ".restore.tmp"

/-- Copying a copy beside the stylesheet and giving it the name of that. -/
def replacing (copy file : Path) : Job Unit := do
  Job.makeDirs file.parent
  Job.copy copy (backPath file)
  Job.rename (backPath file) file

/-- The place where the copy goes at first: beside the stylesheet, or in the directory that is
there. -/
def firstPlace (w : World) (copy file : Path) : Place :=
  w.files.placeOf (copyTarget w.files copy (backPath file))

/-- A stylesheet that could not be replaced is as it was. -/
theorem of_replacing_eq_error (tree : w.files.IsTree) (hmade : w.files.onTheWay file.parent ⊆ made)
    (h : replacing copy file w = .error fault w') :
  ∃ w₁, w.Becomes ∅ made w₁ ∧ w₁.Becomes {firstPlace w₁ copy file} made w'
  := by
  have hmake : Within ∅ made (Job.makeDirs file.parent) w := within_makeDirs tree hmade
  rcases bind_eq_error_iff.mp h with h | ⟨_, w₁, hdirs, h⟩
  · have h₁ := hmake.of_error h
    exact ⟨w', h₁, .refl h₁.files.tree⟩
  · have h₁ := hmake.of_ok hdirs
    use w₁, h₁
    rcases bind_eq_error_iff.mp h with h | ⟨_, w₂, hcopied, h⟩
    · obtain rfl := eq_of_copy_eq_error h
      exact .refl h₁.files.tree
    · obtain rfl := eq_of_rename_eq_error h
      exact (within_copy h₁.files.tree (Set.mem_singleton _)).of_ok hcopied

/-- What is copied to a path where no directory is goes to the path itself. -/
theorem copyTarget_of_get?_ne {fs : Files} {source target : Path}
    (h : fs.get? (fs.placeOf target) ≠ some .directory) :
  copyTarget fs source target = target
  := by
  apply copyTarget_of_entry_ne
  intro hentry
  exact h (Files.entry_eq_ok_iff.mp hentry).2

/-- What was a file is one after something was copied. -/
theorem bytesAt?_ne_none_of_copy {source target : Path} (tree : w.files.IsTree) {place : Place}
    (hplace : w.files.bytesAt? place ≠ none) (h : Job.copy source target w = .ok () w') :
  w'.files.bytesAt? place ≠ none
  := by
  have hbecomes : w.Becomes {w.files.placeOf (copyTarget w.files source target)} ∅ w' :=
    (within_copy tree (Set.mem_singleton _)).of_ok h
  obtain ⟨bytes, -, hheld, -⟩ := holds_of_copy tree h
  by_cases heq : place = w.files.placeOf (copyTarget w.files source target)
  · rw [heq, ← hbecomes.placeOf, hheld.bytes]
    rintro ⟨⟩
  · rw [hbecomes.files.bytes place heq]
    exact hplace

/-- A stylesheet that was replaced has the contents of the copy, where no directory stood in the way of
what is written beside it. -/
theorem of_replacing_of_clear (tree : w.files.IsTree) (hmade : w.files.onTheWay file.parent ⊆ made)
    (hclear : ∀ w₁, Job.makeDirs file.parent w = .ok () w₁ →
      w₁.files.get? (w₁.files.placeOf (backPath file)) ≠ some .directory)
    (h : replacing copy file w = .ok () w') :
  ∃ bytes w₁, w.Becomes ∅ made w₁ ∧ w₁.Holds copy bytes ∧ w'.Holds file bytes
    ∧ w.Becomes (insert (w.files.placeOf file) Files.temporaries) made w'
  := by
  obtain ⟨_, w₁, hdirs, h⟩ := bind_eq_ok_iff.mp h
  obtain ⟨_, w₂, hcopied, hrename⟩ := bind_eq_ok_iff.mp h
  have h₁ : w.Becomes ∅ made w₁ := (within_makeDirs tree hmade).of_ok hdirs
  have htarget : copyTarget w₁.files copy (backPath file) = backPath file :=
    copyTarget_of_get?_ne (hclear w₁ hdirs)
  obtain ⟨bytes, hcopy, hheld, -⟩ := holds_of_copy h₁.files.tree hcopied
  rw [htarget] at hheld
  have hback : w.files.placeOf (backPath file) ∈ Files.temporaries :=
    w.files.placeOf_besides_mem_temporaries file (.inl rfl)
  have h₂ : w₁.Becomes (insert (w.files.placeOf file) Files.temporaries) made w₂ := by
    apply (within_copy h₁.files.tree _).of_ok hcopied
    rw [htarget, h₁.placeOf]
    exact Set.mem_insert_of_mem _ hback
  have h₃ : w₂.Becomes (insert (w.files.placeOf file) Files.temporaries) made w' := by
    apply (within_rename h₂.files.tree _ _ _).of_ok hrename
    · rw [h₂.placeOf, h₁.placeOf]
      exact Set.mem_insert_of_mem _ hback
    · rw [h₂.placeOf, h₁.placeOf]
      exact Set.mem_insert _ _
    · intro hdirectory
      have hbytes := hheld.bytes
      rw [Files.bytesAt?_of_directory hdirectory] at hbytes
      cases hbytes
  refine ⟨bytes, w₁, h₁, hcopy, holds_of_rename h₂.files.tree hheld hrename, ?_⟩
  exact ((h₁.mono (Set.empty_subset _) (Set.Subset.refl _)).trans h₂).trans h₃

/-- Where a stylesheet that was there was replaced, no directory stood in the way: none takes the place
of a file. -/
theorem get?_ne_of_replacing (tree : w.files.IsTree)
    (horiginal : w.files.bytesAt? (w.files.placeOf file) ≠ none)
    (h : replacing copy file w = .ok () w') {w₁ : World}
    (hdirs : Job.makeDirs file.parent w = .ok () w₁) :
  w₁.files.get? (w₁.files.placeOf (backPath file)) ≠ some .directory
  := by
  obtain ⟨_, w₁', hdirs', h⟩ := bind_eq_ok_iff.mp h
  rw [hdirs] at hdirs'
  obtain ⟨-, rfl⟩ := EStateM.Result.ok.inj hdirs'
  obtain ⟨_, w₂, hcopied, hrename⟩ := bind_eq_ok_iff.mp h
  have h₁ : w.Becomes ∅ Set.univ w₁ := (within_makeDirs tree (Set.subset_univ _)).of_ok hdirs
  have h₂ : w₁.Becomes {firstPlace w₁ copy file} ∅ w₂ :=
    (within_copy h₁.files.tree (Set.mem_singleton _)).of_ok hcopied
  have horiginal₂ : w₂.files.bytesAt? (w₂.files.placeOf file) ≠ none := by
    rw [h₂.placeOf, h₁.placeOf]
    apply bytesAt?_ne_none_of_copy h₁.files.tree _ hcopied
    rw [h₁.files.bytes _ (Set.notMem_empty _)]
    exact horiginal
  intro hdirectory
  obtain ⟨-, -, files, hfiles, -⟩ := rename_job_eq_ok_iff.mp hrename
  obtain ⟨bytes', hbytes'⟩ := Files.bytesAt?_of_rename (fun _ => horiginal₂) hfiles
  have hstay := h₂.files.stay _ hdirectory
  rw [← h₂.placeOf] at hstay
  rw [Files.bytesAt?_of_directory hstay] at hbytes'
  cases hbytes'

/-! ### Putting a copy back -/

/-- What is done when a stylesheet could not be replaced. -/
def giveUp (file : Path) : Fault → Job Unit
  | .system error => do
    Job.removeIfPresent (backPath file)
    throw (.backup (.restoreFailed file error))
  | fault => throw fault

theorem copyBack_apply (hfile : file.names ≠ []) (copy : Path) (w : World) :
  copyBack copy file w
    = (Job.doesExist copy >>= fun found =>
        if !found then throw (.backup (.copyMissing copy))
        else tryCatch (replacing copy file) (giveUp file)) w
  := by
  rw [copyBack]
  refine congrArg (fun rest => (Job.doesExist copy >>= rest) w) (funext fun found => ?_)
  cases found with
  | false => rfl
  | true =>
      funext w₁
      exact bind_of_ok (withName_apply hfile _ w₁)

/-- Where a copy was put back, the stylesheet was replaced. -/
theorem replacing_of_copyBack (hfile : file.names ≠ []) (h : copyBack copy file w = .ok () w') :
  replacing copy file w = .ok () w'
  := by
  rw [copyBack_apply hfile] at h
  obtain ⟨found, w₁, hfound, h⟩ := bind_eq_ok_iff.mp h
  obtain rfl := eq_of_doesExist hfound
  cases found with
  | false => cases h
  | true =>
      rcases tryCatch_eq_ok_iff.mp h with hok | ⟨fault, w₂, -, hgive⟩
      · exact hok
      · cases fault with
        | system error =>
            obtain ⟨_, w₃, -, hthrow⟩ := bind_eq_ok_iff.mp hgive
            cases hthrow
        | _ => cases hgive

/-- A copy that was put back gives the stylesheet its contents. -/
theorem of_copyBack (tree : w.files.IsTree) (hfile : file.names ≠ [])
    (horiginal : w.files.bytesAt? (w.files.placeOf file) ≠ none)
    (hmade : w.files.onTheWay file.parent ⊆ made) (h : copyBack copy file w = .ok () w') :
  ∃ bytes w₁, w.Becomes ∅ made w₁ ∧ w₁.Holds copy bytes ∧ w'.Holds file bytes
    ∧ w.Becomes (insert (w.files.placeOf file) Files.temporaries) made w'
  := by
  have hreplacing := replacing_of_copyBack hfile h
  exact of_replacing_of_clear tree hmade
    (fun _ hdirs => get?_ne_of_replacing tree horiginal hreplacing hdirs) hreplacing

theorem failsByCalls_replacing {null : Prop} (hcopy : hasNull copy = true → null)
    (hfile : hasNull file = true → null) :
  FailsByCalls null (replacing copy file)
  := by
  have hback : hasNull (backPath file) = true → null := fun h =>
    hfile (hasNull_of_imp (fun hnull => hasNull_besides hnull (by decide)) h)
  apply FailsByCalls.bind (.makeDirsWithin _ fun h => hfile (hasNull_of_imp hasNull_parent h))
  intro _
  apply FailsByCalls.bind (.copy hcopy hback)
  intro _
  exact .rename hback hfile

/-- How putting a copy back fails: the copy is missing, or the stylesheet could not be replaced and
what was written beside it is removed. -/
theorem of_copyBack_eq_error (tree : w.files.IsTree) (hfile : file.names ≠ [])
    (hmade : w.files.onTheWay file.parent ⊆ made) (h : copyBack copy file w = .error fault w') :
  w' = w ∨ ∃ w₁ w₂ fault₁, w.Becomes ∅ made w₁ ∧ w₁.Becomes {firstPlace w₁ copy file} made w₂
    ∧ ((∃ error, fault₁ = .system error) ∨ fault₁ = .embeddedNull)
    ∧ giveUp file fault₁ w₂ = .error fault w'
  := by
  rw [copyBack_apply hfile] at h
  rcases bind_eq_error_iff.mp h with h | ⟨found, w₁, hfound, h⟩
  · have hleft := left_doesExist copy w
    rw [h] at hleft
    exact .inl hleft
  · obtain rfl := eq_of_doesExist hfound
    cases found with
    | false => exact .inl (EStateM.Result.error.inj h).2.symm
    | true =>
        obtain ⟨fault₁, w₂, hreplacing, hgive⟩ := tryCatch_eq_error_iff.mp h
        obtain ⟨w₃, h₃, h₂⟩ := of_replacing_eq_error tree hmade hreplacing
        have hcalls := (@failsByCalls_replacing file copy True (fun _ => trivial) (fun _ => trivial)
          w₁ fault₁ w₂ hreplacing).imp_right And.left
        exact .inr ⟨w₃, w₂, fault₁, h₃, h₂, hcalls, hgive⟩

theorem within_giveUp (tree : w.files.IsTree) (hback : w.files.placeOf (backPath file) ∈ touched)
    (fault : Fault) :
  Within touched made (giveUp file fault) w
  := by
  rw [giveUp.eq_def]
  split
  · apply Within.bind (within_removeIfPresent tree hback)
    rintro _ w₁ - h₁
    exact .throw h₁.files.tree _
  · exact .throw tree _

/-- A failure that is explained is one after which nothing is left beside the stylesheet, so it was
no directory that stood there. -/
theorem entry_ne_of_giveUp {cause : BackupFault}
    (h : giveUp file fault w = .error (.backup cause) w')
    (hfault : (∃ error, fault = .system error) ∨ fault = .embeddedNull) :
  w.files.entry (backPath file) ≠ .ok .directory
  := by
  intro hentry
  obtain ⟨hreach, hget⟩ := Files.entry_eq_ok_iff.mp hentry
  have hremove : w.files.remove (backPath file) = .error .isDirectory := by
    rw [Files.remove, show w.files.locate (backPath file) = _ from hreach]
    simp [bind, Except.bind, hget, throw, throwThe, MonadExceptOf.throw]
  rcases hfault with ⟨error, rfl⟩ | rfl
  · rcases bind_eq_error_iff.mp h with h | ⟨_, w₁, h, -⟩
    · rw [removeIfPresent, change_apply, hremove] at h
      split at h
      · cases h
      · cases h
    · obtain ⟨-, files, hfiles, -⟩ := change_eq_ok_iff.mp h
      rw [hremove] at hfiles
      cases hfiles
  · cases h

/-! ### What is touched -/

theorem not_isStylesheetAt_of_mem_temporaries {place : Place} (h : place ∈ Files.temporaries) :
  ¬ Files.IsStylesheetAt place
  := by
  intro hstylesheet
  exact hstylesheet.suffixAt_ne (by decide) h

theorem suffixAt_ne_of_mem_temporaries {place : Place} (h : place ∈ Files.temporaries) :
  Files.suffixAt place ≠ Files.copySuffix
  := by
  rw [show Files.suffixAt place = Files.temporarySuffix from h]
  decide

/-- Putting a copy back does not touch the manifest, unless that is the stylesheet itself. -/
theorem placeOf_path_notMem_pair (fs : Files) (manifest : Manifest)
    (hne : fs.placeOf manifest.path ≠ fs.placeOf file) :
  fs.placeOf manifest.path ∉ ({fs.placeOf (backPath file), fs.placeOf file} : Set Place)
  := by
  rintro (heq | heq)
  · apply Manifest.placeOf_path_notMem_temporaries fs manifest
    rw [heq]
    exact fs.placeOf_besides_mem_temporaries file (.inl rfl)
  · exact hne heq

theorem firstPlace_cases (w : World) (file origin : Path) (mark : String) :
  firstPlace w (copyPath origin mark) file ∈ Files.temporaries
    ∨ Files.suffixAt (firstPlace w (copyPath origin mark) file) = Files.copySuffix
  := by
  rcases copyTarget_eq_or w.files (copyPath origin mark) (backPath file) with h | h
  · rw [firstPlace, h]
    exact .inl (w.files.placeOf_besides_mem_temporaries file (.inl rfl))
  · have hname : (copyPath origin mark).name?.getD "" = copyName origin mark := by
      simp [copyPath, Path.name?, Path.child]
    rw [firstPlace, h, hname, Files.placeOf_child _ _ (copyName_ne origin mark),
      Files.suffixAt_concat]
    exact .inr (suffixOf_copyName origin mark)

theorem not_isStylesheetAt_firstPlace (w : World) (file origin : Path) (mark : String) :
  ¬ Files.IsStylesheetAt (firstPlace w (copyPath origin mark) file)
  := by
  rcases firstPlace_cases w file origin mark with h | h
  · exact not_isStylesheetAt_of_mem_temporaries h
  · intro hstylesheet
    exact hstylesheet.suffixAt_ne (by decide) h

/-- Where a copy could not be put back, every stylesheet is as it was. -/
theorem becomes_of_copyBack_eq_error (tree : w.files.IsTree) (hfile : file.names ≠ [])
    {origin : Path} {mark : String} (hmade : w.files.onTheWay file.parent ⊆ made)
    (h : copyBack (copyPath origin mark) file w = .error fault w') :
  w.Becomes Files.otherPlaces made w'
  := by
  rcases of_copyBack_eq_error tree hfile hmade h with rfl | ⟨w₁, w₂, fault₁, h₁, h₂, -, hgive⟩
  · exact .refl tree
  · have h₁₂ : w.Becomes Files.otherPlaces made w₂ := by
      apply (h₁.mono (Set.empty_subset _) (Set.Subset.refl _)).trans
      apply h₂.mono _ (Set.Subset.refl _)
      exact Set.singleton_subset_iff.mpr (not_isStylesheetAt_firstPlace w₁ file origin mark)
    apply h₁₂.trans
    apply (within_giveUp h₂.files.tree _ fault₁).of_error hgive
    apply not_isStylesheetAt_of_mem_temporaries
    exact w₂.files.placeOf_besides_mem_temporaries file (.inl rfl)

/-- Where a copy could not be put back, and nothing was left beside the stylesheet, nothing else was
touched. -/
theorem becomes_of_copyBack_eq_backup (tree : w.files.IsTree) (hfile : file.names ≠ [])
    {cause : BackupFault} (hmade : w.files.onTheWay file.parent ⊆ made)
    (h : copyBack copy file w = .error (.backup cause) w') :
  w.Becomes Files.temporaries made w'
  := by
  rcases of_copyBack_eq_error tree hfile hmade h with rfl | ⟨w₁, w₂, fault₁, h₁, h₂, hcalls, hgive⟩
  · exact .refl tree
  · have hback : ∀ fs : Files, fs.placeOf (backPath file) ∈ Files.temporaries :=
      fun fs => fs.placeOf_besides_mem_temporaries file (.inl rfl)
    have hfirst : firstPlace w₁ copy file = w₁.files.placeOf (backPath file) := by
      rw [firstPlace, copyTarget_of_entry_ne]
      intro hentry
      apply entry_ne_of_giveUp hgive hcalls
      obtain ⟨hreach, hget⟩ := Files.entry_eq_ok_iff.mp hentry
      apply Files.entry_eq_ok_iff.mpr
      refine ⟨h₂.files.reaches hreach, ?_⟩
      rw [h₂.placeOf]
      exact h₂.files.stay _ hget
    rw [hfirst] at h₂
    have h₁₂ : w.Becomes Files.temporaries made w₂ := by
      apply (h₁.mono (Set.empty_subset _) (Set.Subset.refl _)).trans
      apply h₂.mono _ (Set.Subset.refl _)
      exact Set.singleton_subset_iff.mpr (hback w₁.files)
    exact h₁₂.trans ((within_giveUp h₂.files.tree (hback w₂.files) fault₁).of_error hgive)

/-! ### Putting a copy back at once -/

/-- Marking a backup as restored, if there is a manifest. -/
def marking (m : BackupStore) (b : Backup) : Job Unit :=
  match m.manifest with
  | some manifest => if b.id != "" then manifest.markRestored (.str b.id) else pure ()
  | none => pure ()

theorem rollback_eq (m : BackupStore) (b : Backup) :
  m.rollback b = copyBack b.copy b.file >>= fun _ => marking m b
  := by
  rw [rollback]
  refine congrArg (copyBack b.copy b.file >>= ·) (funext fun _ => ?_)
  obtain ⟨manifest⟩ := m
  cases manifest <;> rfl

theorem within_marking (tree : w.files.IsTree) (hledger : m.ledger w ⊆ touched)
    (hway : m.ledgerWay w ⊆ made) (b : Backup) :
  Within touched made (marking m b) w
  := by
  rw [marking]
  cases hm : m.manifest with
  | none => exact .pure tree ()
  | some manifest =>
      dsimp only
      split
      · apply Manifest.within_markRestored tree
        · intro place hplace
          exact hledger ⟨manifest, hm, hplace⟩
        · intro place hplace
          exact hway ⟨manifest, hm, hplace⟩
      · exact .pure tree ()

theorem marking_ne_error_backup (m : BackupStore) (b : Backup) (cause : BackupFault) (w w' : World) :
  marking m b w ≠ .error (.backup cause) w'
  := by
  rw [marking]
  cases m.manifest with
  | none => rintro ⟨⟩
  | some manifest =>
      dsimp only
      split
      · exact Manifest.markRestored_ne_error_backup manifest _ cause w w'
      · rintro ⟨⟩

/-- Whether a backup is a copy of a stylesheet as it is: both have the given contents. -/
structure Keeps (b : Backup) (file : Path) (bytes : List UInt8) (w : World) : Prop where
  origin : b.file = file
  path : ∃ mark, b.copy = copyPath file mark
  original : w.Holds file bytes
  held : w.Holds b.copy bytes

variable {b : Backup} {cause : BackupFault}

theorem suffixAt_of_keeps (h : Keeps b file bytes w) (fs : Files) :
  Files.suffixAt (fs.placeOf b.copy) = Files.copySuffix
  := by
  obtain ⟨mark, hmark⟩ := h.path
  rw [hmark]
  exact suffixAt_copyPath fs file mark

theorem Keeps.of_becomes (h : Keeps b file bytes w) (hw : w.Becomes touched made w')
    (hfile : w.files.placeOf file ∉ touched) (hcopy : w.files.placeOf b.copy ∉ touched) :
  Keeps b file bytes w'
  := ⟨h.origin, h.path, h.original.of_becomes hw hfile, h.held.of_becomes hw hcopy⟩

theorem suffixAt_of_mem_ledger {place : Place} (h : place ∈ m.ledger w) :
  Files.suffixAt place = Files.temporarySuffix ∨ Files.suffixAt place = ".json"
  := by
  obtain ⟨manifest, -, rfl | rfl⟩ := h
  · exact .inl (Manifest.suffixAt_placeOf_temporaryPath w.files manifest)
  · exact .inr (Manifest.suffixAt_placeOf_path w.files manifest)

theorem not_isStylesheetAt_of_mem_ledger {place : Place} (h : place ∈ m.ledger w) :
  ¬ Files.IsStylesheetAt place
  := by
  rcases suffixAt_of_mem_ledger h with h | h
  · exact Files.not_isStylesheetAt_of_suffixAt h (by decide)
  · exact Files.not_isStylesheetAt_of_suffixAt h (by decide)

theorem suffixAt_ne_of_mem_ledger {place : Place} (h : place ∈ m.ledger w) :
  Files.suffixAt place ≠ Files.copySuffix
  := by
  rcases suffixAt_of_mem_ledger h with h | h
  · rw [h]
    decide
  · rw [h]
    decide

/-- A backup that was taken keeps what the stylesheet has. -/
theorem exists_keeps_of_take (tree : w.files.IsTree) (hfile : file.IsStylesheet)
    (h : m.take file w = .ok b w') :
  ∃ bytes, w.Holds file bytes ∧ Keeps b file bytes w'
  := by
  obtain ⟨bytes, w₁, hcopied, hrecording⟩ := of_take tree hfile.names_ne h
  have hstylesheet := Files.isStylesheetAt_placeOf w.files hfile
  obtain ⟨mark, -, hcopy⟩ := hcopied.path
  have hkeeps : Keeps b file bytes w₁ := by
    refine ⟨hcopied.origin, ⟨mark, hcopy⟩, ?_, hcopied.held⟩
    apply hcopied.original.of_becomes hcopied.becomes
    intro heq
    exact hstylesheet.suffixAt_ne (by decide) (heq ▸ suffixAt_of_mem_spare hcopied.free)
  have hbecomes : w₁.Becomes (m.ledger w₁) Set.univ w' :=
    (within_recording hcopied.becomes.files.tree (Set.Subset.refl _)
      (Set.subset_univ _) b _).of_ok hrecording
  refine ⟨bytes, hcopied.original, hkeeps.of_becomes hbecomes ?_ ?_⟩
  · intro hledger
    exact not_isStylesheetAt_of_mem_ledger hledger (Files.isStylesheetAt_placeOf w₁.files hfile)
  · intro hledger
    exact suffixAt_ne_of_mem_ledger hledger (suffixAt_of_keeps hkeeps w₁.files)

/-- A copy that was put back at once is one of what was there. -/
theorem of_copyBack_of_keeps (tree : w.files.IsTree) (hfile : file.names ≠ [])
    (hkeeps : Keeps b file bytes w) (h : copyBack b.copy file w = .ok () w') :
  w'.Holds file bytes ∧ w.Becomes (insert (w.files.placeOf file) Files.temporaries) ∅ w'
  := by
  have horiginal : w.files.bytesAt? (w.files.placeOf file) ≠ none := by
    rw [hkeeps.original.bytes]
    rintro ⟨⟩
  obtain ⟨bytes', w₁, h₁, hcopy, hheld, hbecomes⟩ :=
    of_copyBack tree hfile horiginal (Set.Subset.refl _) h
  obtain rfl := hcopy.unique (hkeeps.held.of_becomes h₁ (Set.notMem_empty _))
  refine ⟨hheld, hbecomes.of_made ?_⟩
  intro place hplace
  exact .inl (hkeeps.original.reaches.get?_of_mem_onTheWay_parent hfile hplace)

theorem within_marking_otherPlaces (tree : w.files.IsTree) (b : Backup) :
  Within Files.otherPlaces Set.univ (marking m b) w
  := by
  apply within_marking tree _ (Set.subset_univ _)
  intro place hledger
  exact not_isStylesheetAt_of_mem_ledger hledger

theorem temporaries_subset_otherPlaces :
  Files.temporaries ⊆ Files.otherPlaces
  := fun _ => not_isStylesheetAt_of_mem_temporaries

/-- Putting a copy back at once leaves all stylesheets as they were, whether it succeeds or not. -/
theorem within_rollback (tree : w.files.IsTree) (hfile : file.IsStylesheet)
    (hkeeps : Keeps b file bytes w) :
  Within Files.otherPlaces Set.univ (m.rollback b) w
  := by
  rw [rollback_eq, hkeeps.origin]
  apply Within.bind
  · cases hback : copyBack b.copy file w with
    | ok _ w₁ =>
        obtain ⟨hheld, hbecomes⟩ := of_copyBack_of_keeps tree hfile.names_ne hkeeps hback
        rw [Within, hback]
        apply (hbecomes.of_insert _).mono temporaries_subset_otherPlaces (Set.empty_subset _)
        rw [hkeeps.original.bytes, ← hbecomes.placeOf]
        exact hheld.bytes
    | error fault w₁ =>
        obtain ⟨mark, hmark⟩ := hkeeps.path
        rw [Within, hback]
        rw [hmark] at hback
        exact becomes_of_copyBack_eq_error tree hfile.names_ne (Set.subset_univ _) hback
  · rintro _ w₁ - h₁
    exact within_marking_otherPlaces h₁.files.tree b

/-- A copy that was put back at once, and then marked: nothing but the stylesheet and what is written
beside it was touched before. -/
theorem of_rollback_eq_ok (tree : w.files.IsTree) (hfile : file.names ≠ [])
    (hkeeps : Keeps b file bytes w) (h : m.rollback b w = .ok () w') :
  ∃ w₁, w.Becomes (insert (w.files.placeOf file) Files.temporaries) ∅ w₁
    ∧ marking m b w₁ = .ok () w'
  := by
  rw [rollback_eq, hkeeps.origin] at h
  obtain ⟨_, w₁, hback, hmarking⟩ := bind_eq_ok_iff.mp h
  exact ⟨w₁, (of_copyBack_of_keeps tree hfile hkeeps hback).2, hmarking⟩

/-- Where a copy could not be put back at once, and this is explained, nothing was touched but what is
written beside the stylesheet. -/
theorem becomes_of_rollback_eq_backup (tree : w.files.IsTree) (hfile : file.names ≠ [])
    (hkeeps : Keeps b file bytes w) (h : m.rollback b w = .error (.backup cause) w') :
  w.Becomes Files.temporaries ∅ w'
  := by
  rw [rollback_eq, hkeeps.origin] at h
  rcases bind_eq_error_iff.mp h with hback | ⟨_, w₁, -, hmarking⟩
  · apply (becomes_of_copyBack_eq_backup tree hfile (Set.Subset.refl _) hback).of_made
    intro place hplace
    exact .inl (hkeeps.original.reaches.get?_of_mem_onTheWay_parent hfile hplace)
  · exact absurd hmarking (marking_ne_error_backup m b cause w₁ w')

end BackupStore

end StylePrune
