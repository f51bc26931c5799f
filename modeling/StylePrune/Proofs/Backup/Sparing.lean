import Mathlib.Data.Set.Lattice
import Mathlib.Order.CompletePartialOrder
import StylePrune.Proofs.Backup.Originals
import StylePrune.Proofs.Backup.RestoringAll

/-!
# Jobs that spare the copies

A copy that is put back is written beside its stylesheet first, under a name made for this.  If a
directory had that name the copy would go into the directory, over a copy that may be there.  In an
orderly world (`BackupStore.IsOrderly`) no directory has such a name, and none is made: not on the way
to the manifest, and not on the way to what the manifest names as originals.  Each job of a store
leaves such a world orderly and all copies as they are (`BackupStore.Spares`).
-/

namespace StylePrune

open Job

namespace Files

/-- The places of files that are put back and take the place of stylesheets then. -/
def backPlaces : Set Place := { place | ∃ front name, place = front ++ ["." ++ name ++ ".restore.tmp"] }

/-- The places where files may be written: those of stylesheets, of drafts, and of copies that are not
there yet. -/
def writable (fs : Files) : Set Place :=
  { place | IsStylesheetAt place ∨ place ∈ temporaries
    ∨ suffixAt place = copySuffix ∧ fs.get? place = none }

/-- Whether a path is that of a stylesheet, and nothing on the way to it has a name for files that are
put back. -/
structure IsOpen (fs : Files) (p : Path) : Prop where
  stylesheet : p.IsStylesheet
  way : Disjoint (fs.onTheWay p.parent) backPlaces

variable {fs fs' : Files} {p : Path} {place : Place}

theorem placeOf_backPath_mem (fs : Files) (file : Path) :
  fs.placeOf (BackupStore.backPath file) ∈ backPlaces
  := ⟨fs.placeOf file.parent, file.name?.getD "",
    placeOf_child fs _ (temporaryName_ne _ (.inl rfl))⟩

theorem backPlaces_subset_temporaries :
  backPlaces ⊆ temporaries
  := by
  rintro _ ⟨front, name, rfl⟩
  exact (suffixAt_concat front _).trans (suffixOf_temporaryName name (.inl rfl))

theorem IsOpen.of_here (h : fs.IsOpen p) (hhere : fs'.here = fs.here) :
  fs'.IsOpen p
  := by
  refine ⟨h.stylesheet, ?_⟩
  rw [onTheWay_congr hhere]
  exact h.way

theorem isStylesheet_fromRoot (h : IsStylesheetAt place) :
  (Path.fromRoot place).IsStylesheet
  := by
  rcases List.eq_nil_or_concat place with rfl | ⟨front, name, rfl⟩
  · exact absurd h (by decide)
  · rw [List.concat_eq_append] at h ⊢
    rw [IsStylesheetAt, suffixAt_concat] at h
    rw [Path.IsStylesheet, Path.suffix, Path.name?, Path.fromRoot, List.getLast?_concat]
    exact h

end Files

namespace BackupStore

variable {m : BackupStore} {w w' w'' : World} {file copy p : Path} {touched made : Set Place}
    {bytes : List UInt8} {fault : Fault}

/-! ### Orderly worlds -/

/-- The paths that the manifest names as originals, if there is one. -/
def originals (m : BackupStore) (w : World) : Set Path :=
  { p | ∃ manifest, m.manifest = some manifest ∧ p ∈ manifest.originals w }

/-- Whether no directory has a name for files that are put back, and none is made on the way to the
manifest or to an original. -/
structure IsOrderly (m : BackupStore) (w : World) : Prop where
  tree : w.files.IsTree
  here : Files.IsProper w.files.here
  free : ∀ place ∈ Files.backPlaces, w.files.get? place ≠ some .directory
  way : Disjoint (m.ledgerWay w) Files.backPlaces
  originals : ∀ p ∈ m.originals w, w.files.IsOpen p

/-- What lies on the way of something that is there is a directory, so it has no name for files that
are put back. -/
theorem IsOrderly.isOpen_of_reaches (h : m.IsOrderly w) (hfile : file.IsStylesheet)
    (hreach : w.files.Reaches file) :
  w.files.IsOpen file
  := by
  refine ⟨hfile, Set.disjoint_left.mpr ?_⟩
  intro place hplace hback
  exact h.free place hback (hreach.get?_of_mem_onTheWay_parent hfile.names_ne hplace)

theorem IsOrderly.isOpen_fromRoot (h : m.IsOrderly w) {place : Place} (hproper : Files.IsProper place)
    (hstylesheet : Files.IsStylesheetAt place) (hthere : w.files.get? place ≠ none) :
  w.files.IsOpen (Path.fromRoot place)
  := by
  refine ⟨Files.isStylesheet_fromRoot hstylesheet, Set.disjoint_left.mpr ?_⟩
  rintro _ ⟨names, hinitial, rfl⟩ hback
  have hnames : names <+: place := hinitial.trans (List.dropLast_prefix place)
  have hplace : w.files.placeOf { (Path.fromRoot place).parent with names } = names := by
    rw [Files.placeOf_of_notMem]
    · rfl
    · intro hdots
      exact (hproper ".." (hnames.subset hdots)).2 rfl
  rw [hplace] at hback
  apply hthere
  apply h.tree.get?_of_isPrefix (h.free names hback) hnames
  rintro rfl
  exact not_isStylesheetAt_of_mem_temporaries (Files.backPlaces_subset_temporaries hback) hstylesheet

/-! ### Sparing -/

/-- Whether a world has become another that is orderly, and all copies are as they were. -/
structure Spares (m : BackupStore) (w w' : World) : Prop where
  orderly : m.IsOrderly w'
  here : w'.files.here = w.files.here
  copies : ∀ place bytes, Files.suffixAt place = Files.copySuffix →
    w.files.bytesAt? place = some bytes → w'.files.bytesAt? place = some bytes

theorem Spares.refl (h : m.IsOrderly w) :
  m.Spares w w
  := ⟨h, rfl, fun _ _ _ => id⟩

theorem Spares.trans (h : m.Spares w w') (h' : m.Spares w' w'') :
  m.Spares w w''
  := by
  refine ⟨h'.orderly, h'.here.trans h.here, ?_⟩
  intro place bytes hsuffix hbytes
  exact h'.copies place bytes hsuffix (h.copies place bytes hsuffix hbytes)

/-- Changes at places where files may be written, and at those of the manifest, spare the copies if the
manifest names no other originals. -/
theorem IsOrderly.spares (h : m.IsOrderly w) (hw : w.Becomes touched made w')
    (htouched : touched ⊆ w.files.writable ∪ m.ledger w) (hmade : Disjoint made Files.backPlaces)
    (horiginals : ∀ p ∈ m.originals w', w.files.IsOpen p) :
  m.Spares w w'
  := by
  refine ⟨⟨hw.files.tree, ?_, ?_, ?_, ?_⟩, hw.files.here, ?_⟩
  · rw [hw.files.here]
    exact h.here
  · intro place hback hdirectory
    rcases hw.files.directory place hdirectory with hdirectory | hplace
    · exact h.free place hback hdirectory
    · exact Set.disjoint_left.mp hmade hplace hback
  · rw [ledgerWay_congr hw.files.here]
    exact h.way
  · intro p hp
    exact (horiginals p hp).of_here hw.files.here
  · intro place bytes hsuffix hbytes
    rw [hw.files.bytes place, hbytes]
    intro hplace
    rcases htouched hplace with (hstylesheet | htemporary | ⟨-, hnone⟩) | hledger
    · exact hstylesheet.suffixAt_ne (by decide) hsuffix
    · exact absurd hsuffix (suffixAt_ne_of_mem_temporaries htemporary)
    · rw [Files.bytesAt?, hnone] at hbytes
      cases hbytes
    · exact suffixAt_ne_of_mem_ledger hledger hsuffix

theorem originals_of_becomes (hw : w.Becomes touched made w')
    (htouched : touched ⊆ w.files.writable) :
  m.originals w' = m.originals w
  := by
  have hsame : ∀ manifest : Manifest, manifest.originals w' = manifest.originals w := by
    intro manifest
    apply Manifest.originals_of_becomes hw
    intro hplace
    rcases htouched hplace with hstylesheet | htemporary | ⟨hsuffix, -⟩
    · exact Chronicle.path_ne (.inr (.inr hstylesheet)) rfl
    · exact Chronicle.path_ne (.inr (.inl htemporary)) rfl
    · exact Chronicle.path_ne (.inl hsuffix) rfl
  simp only [originals, hsame]

theorem IsOrderly.spares_of_writable (h : m.IsOrderly w) (hw : w.Becomes touched made w')
    (htouched : touched ⊆ w.files.writable) (hmade : Disjoint made Files.backPlaces) :
  m.Spares w w'
  := by
  apply h.spares hw (htouched.trans Set.subset_union_left) hmade
  rw [originals_of_becomes hw htouched]
  exact h.originals

/-- Whether a job spares the copies, whatever it ends with. -/
def Sparing {α : Type} (m : BackupStore) (j : Job α) (w : World) : Prop := m.Spares w (left (j w))

namespace Sparing

variable {α β : Type} {x : Job α} {f : α → Job β} {handler : Fault → Job α}

theorem of_ok {a : α} (h : m.Sparing x w) (hx : x w = .ok a w') :
  m.Spares w w'
  := by
  rw [Sparing, hx] at h
  exact h

theorem of_error (h : m.Sparing x w) (hx : x w = .error fault w') :
  m.Spares w w'
  := by
  rw [Sparing, hx] at h
  exact h

theorem of_left_eq (h : m.IsOrderly w) (hx : left (x w) = w) :
  m.Sparing x w
  := by
  rw [Sparing, hx]
  exact .refl h

theorem pure (h : m.IsOrderly w) (a : α) :
  m.Sparing (pure a) w
  := .refl h

theorem throw (h : m.IsOrderly w) (fault : Fault) :
  m.Sparing (α := α) (throw fault) w
  := .refl h

theorem of_within (h : m.IsOrderly w) (hx : Within touched made x w)
    (htouched : touched ⊆ w.files.writable) (hmade : Disjoint made Files.backPlaces) :
  m.Sparing x w
  := h.spares_of_writable hx htouched hmade

/-- A job in two parts spares the copies if both parts do. -/
theorem bind (hx : m.Sparing x w)
    (hf : ∀ a w₁, x w = .ok a w₁ → m.Spares w w₁ → m.Sparing (f a) w₁) :
  m.Sparing (x >>= f) w
  := by
  change m.Spares w (left (EStateM.bind x f w))
  rw [EStateM.bind]
  cases h : x w with
  | ok a w₁ => exact (hx.of_ok h).trans (hf a w₁ h (hx.of_ok h))
  | error fault w₁ => exact hx.of_error h

/-- A job that begins with one that only looks spares the copies if the rest does. -/
theorem bind_of_left_eq (h : m.IsOrderly w) (hx : left (x w) = w)
    (hf : ∀ a, x w = .ok a w → m.Sparing (f a) w) :
  m.Sparing (x >>= f) w
  := by
  apply bind (of_left_eq h hx)
  intro a w₁ hok _
  rw [hok] at hx
  obtain rfl : w₁ = w := hx
  exact hf a hok

theorem tryCatch (hx : m.Sparing x w)
    (hhandler : ∀ fault w₁, x w = .error fault w₁ → m.Spares w w₁ →
      m.Sparing (handler fault) w₁) :
  m.Sparing (tryCatch x handler) w
  := by
  change m.Spares w (left (EStateM.tryCatch x handler w))
  rw [EStateM.tryCatch]
  cases h : x w with
  | ok a w₁ => exact hx.of_ok h
  | error fault w₁ =>
      exact (hx.of_error h).trans (hhandler fault w₁ h (hx.of_error h))

theorem explaining {explain : SystemError → BackupFault} (hx : m.Sparing x w) :
  m.Sparing (explaining explain x) w
  := by
  apply tryCatch hx
  rintro fault w₁ - h₁
  split
  · exact .throw h₁.orderly _
  · exact .throw h₁.orderly _

end Sparing

/-! ### Taking copies -/

theorem mem_writable_of_isStylesheet (fs : Files) (hfile : file.IsStylesheet) :
  fs.placeOf file ∈ fs.writable
  := .inl (fs.isStylesheetAt_placeOf hfile)

theorem spare_subset_writable (file : Path) (w : World) :
  spare file w ⊆ w.files.writable
  := fun _ hplace => .inr (.inr ⟨suffixAt_of_mem_spare hplace, hplace.1⟩)

theorem disjoint_empty :
  Disjoint (∅ : Set Place) Files.backPlaces
  := Set.disjoint_left.mpr fun _ hplace _ => hplace

theorem Copied.spares {b : Backup} (h : m.IsOrderly w) (hcopied : Copied file w b bytes w') :
  m.Spares w w'
  := by
  apply h.spares_of_writable hcopied.becomes _ disjoint_empty
  exact Set.singleton_subset_iff.mpr (spare_subset_writable file w hcopied.free)

theorem sparing_add {manifest : Manifest} (h : m.IsOrderly w) (hm : m.manifest = some manifest)
    {place : Place} (hproper : Files.IsProper place) (hstylesheet : Files.IsStylesheetAt place)
    (hthere : w.files.get? place ≠ none) (id copy stamp hash reason : String) :
  m.Sparing (manifest.add id (Path.fromRoot place).toString copy stamp hash reason) w
  := by
  have hledger : manifest.places w ⊆ m.ledger w := fun place hplace => ⟨manifest, hm, hplace⟩
  have hway : w.files.onTheWay manifest.directory ⊆ m.ledgerWay w :=
    fun place hplace => ⟨manifest, hm, hplace⟩
  apply h.spares (Manifest.within_add h.tree hledger hway id _ copy stamp hash reason)
    Set.subset_union_right h.way
  rintro p ⟨manifest', hm', hp⟩
  obtain rfl := Option.some.inj (hm.symm.trans hm')
  rcases Manifest.originals_of_add h.tree id _ copy stamp hash reason hp with rfl | hp
  · rw [Files.ofString_toString_of_isProper hproper]
    exact h.isOpen_fromRoot hproper hstylesheet hthere
  · exact h.originals p ⟨manifest, hm, hp⟩

theorem sparing_recording {b : Backup} (h : m.IsOrderly w) (hfile : b.file.IsStylesheet)
    (hnames : ∀ name ∈ b.file.names, Path.IsName name) (hheld : w.Holds b.file bytes)
    (hcopy : hasNull b.copy = false) (hash : String) :
  m.Sparing (recording m b hash) w
  := by
  cases hm : m.manifest with
  | none =>
      rw [recording, hm]
      exact .pure h ()
  | some manifest =>
      rw [Sparing, recording_apply hm hheld.noNull hcopy]
      apply Sparing.explaining
      apply sparing_add h hm (Files.isProper_placeOf h.here hnames)
        (w.files.isStylesheetAt_placeOf hfile)
      intro hnone
      have hbytes := hheld.bytes
      rw [Files.bytesAt?, hnone] at hbytes
      cases hbytes

/-- A stylesheet has what it had after its copy was made. -/
theorem Copied.holds {b : Backup} (hcopied : Copied file w b bytes w') (hfile : file.IsStylesheet) :
  w'.Holds file bytes
  := by
  apply hcopied.original.of_becomes hcopied.becomes
  intro heq
  exact (w.files.isStylesheetAt_placeOf hfile).suffixAt_ne (by decide)
    (Set.mem_singleton_iff.mp heq ▸ suffixAt_of_mem_spare hcopied.free)

theorem sparing_recording_of_copied {b : Backup} (h : m.IsOrderly w) (hfile : file.IsStylesheet)
    (hnames : ∀ name ∈ file.names, Path.IsName name) (hcopied : Copied file w b bytes w')
    (hash : String) :
  m.Sparing (recording m b hash) w'
  := by
  have hheld := hcopied.holds hfile
  obtain rfl := hcopied.origin
  exact sparing_recording (hcopied.spares h).orderly hfile hnames hheld hcopied.held.noNull hash

/-- Taking a copy of a stylesheet spares the copies. -/
theorem sparing_take (h : m.IsOrderly w) (hfile : file.IsStylesheet)
    (hnames : ∀ name ∈ file.names, Path.IsName name) :
  m.Sparing (m.take file) w
  := by
  cases htake : m.take file w with
  | ok b w' =>
      obtain ⟨bytes, w₁, hcopied, hrecording⟩ := of_take h.tree hfile.names_ne htake
      rw [Sparing, htake]
      exact (hcopied.spares h).trans
        ((sparing_recording_of_copied h hfile hnames hcopied _).of_ok hrecording)
  | error fault w' =>
      rw [Sparing, htake]
      rcases of_take_eq_error h.tree hfile.names_ne htake with
        hspare | ⟨b, bytes, w₁, hcopied, hrecording⟩
      · exact h.spares_of_writable hspare (spare_subset_writable file w) disjoint_empty
      · exact (hcopied.spares h).trans
          ((sparing_recording_of_copied h hfile hnames hcopied _).of_error hrecording)

/-! ### Putting copies back -/

theorem placeOf_backPath_mem_writable (fs : Files) (file : Path) :
  fs.placeOf (backPath file) ∈ fs.writable
  := .inr (.inl (Files.backPlaces_subset_temporaries (fs.placeOf_backPath_mem file)))

theorem IsOrderly.isUnobstructed (h : m.IsOrderly w) (hfile : w.files.IsOpen file) :
  IsUnobstructed file w
  := ⟨h.free _ (w.files.placeOf_backPath_mem file), fun hway =>
    Set.disjoint_left.mp hfile.way hway (w.files.placeOf_backPath_mem file)⟩

/-- Putting a copy back spares the copies. -/
theorem sparing_copyBack (h : m.IsOrderly w) (hfile : w.files.IsOpen file) (copy : Path) :
  m.Sparing (copyBack copy file) w
  := by
  apply Sparing.of_within h (within_copyBack h.tree (h.isUnobstructed hfile) copy) _ hfile.way
  apply Set.insert_subset (placeOf_backPath_mem_writable w.files file)
  exact Set.singleton_subset_iff.mpr (mem_writable_of_isStylesheet w.files hfile.stylesheet)

/-- A copy that was put back gives the stylesheet its contents. -/
theorem IsOrderly.holds_of_copyBack (h : m.IsOrderly w) (hfile : w.files.IsOpen file)
    (hheld : w.files.bytesAt? (w.files.placeOf copy) = some bytes)
    (hback : copyBack copy file w = .ok () w') :
  w'.Holds file bytes
  := by
  obtain ⟨bytes', hbytes, hfile', -⟩ :=
    (h.isUnobstructed hfile).of_copyBack h.tree hfile.stylesheet.names_ne hback
  obtain rfl := Option.some.inj (hheld.symm.trans hbytes)
  exact hfile'

/-! ### Marking records -/

theorem sparing_markRestored {manifest : Manifest} (h : m.IsOrderly w)
    (hm : m.manifest = some manifest) (id : Json) :
  m.Sparing (manifest.markRestored id) w
  := by
  have hledger : manifest.places w ⊆ m.ledger w := fun place hplace => ⟨manifest, hm, hplace⟩
  have hway : w.files.onTheWay manifest.directory ⊆ m.ledgerWay w :=
    fun place hplace => ⟨manifest, hm, hplace⟩
  apply h.spares (Manifest.within_markRestored h.tree hledger hway id) Set.subset_union_right h.way
  rintro p ⟨manifest', hm', hp⟩
  obtain rfl := Option.some.inj (hm.symm.trans hm')
  exact h.originals p ⟨manifest, hm, Manifest.originals_of_markRestored h.tree id hp⟩

theorem sparing_marking (h : m.IsOrderly w) (b : Backup) :
  m.Sparing (marking m b) w
  := by
  rw [marking]
  cases hm : m.manifest with
  | none => exact .pure h ()
  | some manifest =>
      dsimp only
      split
      · exact sparing_markRestored h hm _
      · exact .pure h ()

/-- Putting a copy back at once spares the copies. -/
theorem sparing_rollback {b : Backup} (h : m.IsOrderly w) (hfile : w.files.IsOpen b.file) :
  m.Sparing (m.rollback b) w
  := by
  rw [rollback_eq]
  apply Sparing.bind (sparing_copyBack h hfile b.copy)
  rintro _ w₁ - h₁
  exact sparing_marking h₁.orderly b

/-- A copy that was put back at once gives the stylesheet its contents. -/
theorem IsOrderly.holds_of_rollback {b : Backup} (h : m.IsOrderly w) (hfile : w.files.IsOpen b.file)
    (hheld : w.files.bytesAt? (w.files.placeOf b.copy) = some bytes)
    (hrollback : m.rollback b w = .ok () w') :
  w'.Holds b.file bytes
  := by
  rw [rollback_eq] at hrollback
  obtain ⟨_, w₁, hback, hmarking⟩ := bind_eq_ok_iff.mp hrollback
  have h₁ := (sparing_copyBack h hfile b.copy).of_ok hback
  have hmarked : w₁.Becomes (m.ledger w₁) Set.univ w' :=
    (within_marking h₁.orderly.tree (Set.Subset.refl _) (Set.subset_univ _) b).of_ok hmarking
  apply (h.holds_of_copyBack hfile hheld hback).of_becomes hmarked
  intro hledger
  exact not_isStylesheetAt_of_mem_ledger hledger (w₁.files.isStylesheetAt_placeOf hfile.stylesheet)

/-! ### Restoring by records -/

/-- Restoring a record spares the copies. -/
theorem sparing_restore (h : m.IsOrderly w) (id : Json) :
  m.Sparing (m.restore id) w
  := by
  obtain ⟨store⟩ := m
  cases store with
  | none => exact .throw h _
  | some manifest =>
      rcases restore_cases manifest id w with
        ⟨fault, hfault, -⟩ | ⟨c, record, hread, hfound, ⟨-, hok⟩ | ⟨-, copy, file, bytes, hchecked, hrun⟩⟩
      · exact .of_left_eq h (by rw [hfault, left])
      · exact .of_left_eq h (by rw [hok, left])
      · have hmem : file ∈ manifest.originals w :=
          Manifest.mem_originals_of_read hread (Manifest.mem_of_findRecord hfound) hchecked.original
        rw [Sparing, hrun]
        apply Sparing.bind (sparing_copyBack h (h.originals file ⟨manifest, rfl, hmem⟩) copy)
        rintro _ w₁ - h₁
        exact sparing_markRestored h₁.orderly rfl id

theorem sparing_restoreEach (h : m.IsOrderly w) (records : List Json) (r : Restoration) :
  m.Sparing (m.restoreEach records r) w
  := by
  induction records generalizing r w with
  | nil => exact .pure h r
  | cons record rest ih =>
      rw [restoreEach]
      apply Sparing.bind_of_left_eq h (Manifest.left_ofExcept _ w)
      rintro id -
      apply Sparing.bind
      · apply Sparing.tryCatch
        · apply Sparing.bind (sparing_restore h id)
          rintro _ w₁ - h₁
          exact .pure h₁.orderly _
        · rintro fault w₁ - h₁
          split
          · exact .pure h₁.orderly _
          · exact .throw h₁.orderly _
      · rintro r' w₁ - h₁
        exact ih h₁.orderly r'

theorem left_unrestored (manifest : Manifest) (w : World) :
  left (manifest.unrestored w) = w
  := by
  apply left_bind_of_left
  · apply left_bind_of_left (Manifest.left_read manifest w)
    intro c
    rfl
  · intro records
    apply left_bind_of_left (Manifest.left_ofExcept _ w)
    intro pending
    dsimp only
    split
    · rfl
    · rfl

/-- Restoring all records spares the copies. -/
theorem sparing_restoreAll (h : m.IsOrderly w) :
  m.Sparing m.restoreAll w
  := by
  rw [restoreAll, needManifest]
  cases m.manifest with
  | none => exact .throw h _
  | some manifest =>
      apply Sparing.bind_of_left_eq h rfl
      rintro manifest' -
      apply Sparing.bind_of_left_eq h (left_unrestored manifest' w)
      rintro records -
      exact sparing_restoreEach h records {}

end BackupStore

end StylePrune
