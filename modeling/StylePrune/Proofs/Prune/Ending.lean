import StylePrune.Proofs.Backup.Needs
import StylePrune.Proofs.Prune.Writing

/-!
# How pruning ends

Pruning that ends with an outcome has gone one of four ways (`Plan.Ending`).  What it has touched is
the stylesheet, its copy, files that are written before they take the place of others, and the
manifest (`Plan.Ending.becomes`); so it neither makes nor breaks what another stylesheet needs
(`Plan.Ending.admitsRecord_iff`).
-/

namespace StylePrune.Prune.Plan

open Job BackupStore

/-- The stylesheet and the files that are written before they take the place of others. -/
def replaced (file : Path) (w : World) : Set Place :=
  insert (w.files.placeOf file) Files.temporaries

/-- How pruning a stylesheet ends with an outcome. -/
inductive Ending (m : BackupStore) (options : Options) (file : Path) (w : World) :
    Outcome → World → Prop
  /-- The stylesheet cannot be read, or there is nothing to write. -/
  | idle {o w'} (hbackup : o.backup = none) (hwritten : o.written = false)
      (h : w.Becomes ∅ ∅ w') : Ending m options file w o w'
  /-- The copy cannot be taken. -/
  | notBackedUp {o log cause w₁ w'} (hcreate : options.createBackup = true)
      (htake : m.take file { w with log } = .error (.backup cause) w₁) (h : w₁.Becomes ∅ ∅ w')
      (hbackup : o.backup = none) (hwritten : o.written = false) : Ending m options file w o w'
  /-- The stylesheet is written, or what was touched for that is given up. -/
  | changed {o log copy w₁ w'} (hprepares : Prepares m options file { w with log } copy w₁)
      (hbackup : o.backup = copy) (h : w₁.Becomes (replaced file w) ∅ w') : Ending m options file w o w'
  /-- The copy is put back and marked as restored. -/
  | putBack {o log b w₁ w₂ w₃ w'} (hcreate : options.createBackup = true)
      (htake : m.take file { w with log } = .ok b w₁)
      (hbackup : o.backup = some b) (hwritten : o.written = false)
      (h₁ : w₁.Becomes (replaced file w) ∅ w₂) (hmarking : marking m b w₂ = .ok () w₃)
      (h₃ : w₃.Becomes ∅ ∅ w') : Ending m options file w o w'

variable {m : BackupStore} {options : Options} {file : Path} {names : List Text} {o outcome : Outcome}
    {t : Text} {copy : Option Backup} {w w' : World}

theorem of_tryRollback_eq_ok (tree : w.files.IsTree) (hfile : file.names ≠ [])
    (hkept : KeptBy copy file w) {problem : Option BackupFault}
    (h : tryRollback m copy w = .ok problem w') :
  w.Becomes (replaced file w) ∅ w'
    ∨ ∃ b w₁, copy = some b ∧ w.Becomes (replaced file w) ∅ w₁ ∧ marking m b w₁ = .ok () w'
  := by
  cases copy with
  | none =>
      obtain ⟨-, rfl⟩ := EStateM.Result.ok.inj h
      exact .inl (.refl tree)
  | some b =>
      obtain ⟨bytes, hkeeps⟩ := hkept b rfl
      rw [tryRollback_apply] at h
      cases hrollback : m.rollback b w with
      | ok _ w₁ =>
          rw [hrollback] at h
          obtain ⟨-, rfl⟩ := EStateM.Result.ok.inj h
          obtain ⟨w₂, hbecomes, hmarking⟩ := of_rollback_eq_ok tree hfile hkeeps hrollback
          exact .inr ⟨b, w₂, rfl, hbecomes, hmarking⟩
      | error fault w₁ =>
          rw [hrollback] at h
          cases fault with
          | backup cause =>
              obtain ⟨-, rfl⟩ := EStateM.Result.ok.inj h
              have hbecomes := becomes_of_rollback_eq_backup tree hfile hkeeps hrollback
              exact .inl (hbecomes.mono (Set.subset_insert _ _) (Set.Subset.refl _))
          | _ => cases h

theorem of_replace_eq_ok (tree : w.files.IsTree) (hfile : outcome.file.IsStylesheet)
    (hkept : KeptBy outcome.backup outcome.file w) (h : replace m outcome t w = .ok o w') :
  o.backup = outcome.backup
    ∧ (w.Becomes (replaced outcome.file w) ∅ w'
      ∨ o.written = outcome.written ∧ ∃ b w₁ w₂, outcome.backup = some b
        ∧ w.Becomes (replaced outcome.file w) ∅ w₁ ∧ marking m b w₁ = .ok () w₂
        ∧ w₂.Becomes ∅ ∅ w')
  := by
  rw [replace_apply] at h
  cases hwrite : writeInPlace outcome.file t w with
  | ok _ w₁ =>
      rw [hwrite] at h
      obtain ⟨rfl, rfl⟩ := EStateM.Result.ok.inj h
      exact ⟨rfl, .inl (of_writeInPlace tree hfile.names_ne hwrite).2⟩
  | error fault w₁ =>
      rw [hwrite] at h
      have hdraft := becomes_of_writeInPlace_eq_error tree hfile.names_ne hwrite
      have h₁ : w.Becomes (replaced outcome.file w) ∅ w₁ :=
        hdraft.mono (Set.subset_insert _ _) (Set.Subset.refl _)
      cases fault with
      | system error =>
          obtain ⟨problem, w₂, hrollback, hfail⟩ := bind_eq_ok_iff.mp h
          have hplace : replaced outcome.file w₁ = replaced outcome.file w := by
            rw [replaced, replaced, h₁.placeOf]
          obtain ⟨log, hlog⟩ := fail_apply outcome "write" (.notWritten error problem) w₂
          rw [hlog] at hfail
          obtain ⟨rfl, rfl⟩ := EStateM.Result.ok.inj hfail
          refine ⟨rfl, ?_⟩
          rcases of_tryRollback_eq_ok h₁.files.tree hfile.names_ne
              (hkept.of_becomes hfile hdraft) hrollback with h₂ | ⟨b, w₃, hb, h₃, hmarking⟩
          · rw [hplace] at h₂
            exact .inl ((h₁.trans h₂).trans (.of_log h₂.files.tree log))
          · rw [hplace] at h₃
            have tree₂ : w₂.files.IsTree :=
              ((within_marking_otherPlaces h₃.files.tree b).of_ok hmarking).files.tree
            exact .inr ⟨rfl, b, w₃, w₂, hb, h₁.trans h₃, hmarking, .of_log tree₂ log⟩
      | _ => cases h

theorem ending_of_changing (tree : w.files.IsTree) (hfile : outcome.file.IsStylesheet)
    (hbackup : outcome.backup = none) (hwritten : outcome.written = false) {log : List Warning}
    (h : changing m options outcome t { w with log } = .ok o w') :
  Ending m options outcome.file w o w'
  := by
  rcases exists_prepares_or m options outcome.file { w with log } with
    ⟨copy, w₁, hprepares⟩ | ⟨hcreate, fault, w₁, htake⟩
  · have h₁ : w.Becomes Files.otherPlaces Set.univ w₁ :=
      (World.Becomes.of_log tree log).trans (hprepares.becomes tree hfile.names_ne)
    have hplace : replaced outcome.file w₁ = replaced outcome.file w := by
      rw [replaced, replaced, h₁.placeOf]
    have hkept := hprepares.keptBy tree hfile
    rw [changing_of_prepares hprepares hbackup] at h
    obtain ⟨hcopy, hbecomes | ⟨hstill, b, w₂, w₃, hb, h₂, hmarking, h₃⟩⟩ :=
      @of_replace_eq_ok m o { outcome with backup := copy } t w₁ w' h₁.files.tree hfile hkept h
    · exact .changed hprepares hcopy (hplace ▸ hbecomes)
    · obtain rfl : copy = some b := hb
      rw [Prepares] at hprepares
      split at hprepares
      · next hcreate =>
        obtain ⟨b', hb', htake⟩ := hprepares
        obtain rfl := Option.some.inj hb'
        exact .putBack hcreate htake hcopy (hstill.trans hwritten) (hplace ▸ h₂) hmarking h₃
      · cases hprepares.1
  · have h₁ : w.Becomes Files.otherPlaces Set.univ w₁ := by
      apply (World.Becomes.of_log tree log).trans
      exact (within_take_otherPlaces (w := { w with log }) tree hfile.names_ne).of_error htake
    rcases changing_of_take_eq_error hcreate htake t with ⟨cause, rfl, hfail⟩ | ⟨-, hraise⟩
    · obtain ⟨log', hlog⟩ := fail_apply outcome "backup" (.notBackedUp cause) w₁
      rw [hfail, hlog] at h
      obtain ⟨rfl, rfl⟩ := EStateM.Result.ok.inj h
      exact .notBackedUp hcreate htake (.of_log h₁.files.tree log') hbackup hwritten
    · rw [hraise] at h
      cases h

/-- Pruning that ends with an outcome has gone one of four ways. -/
theorem ending_of_pruneFile (tree : w.files.IsTree) (hfile : file.IsStylesheet)
    (h : pruneFile m options file names w = .ok o w') :
  Ending m options file w o w'
  := by
  cases hread : readText file w with
  | error fault w₁ =>
      rcases pruneFile_of_readText_eq_error m options names hread with
        ⟨-, error, log, hprune⟩ | ⟨-, hprune⟩
      · rw [hprune] at h
        obtain ⟨rfl, rfl⟩ := EStateM.Result.ok.inj h
        exact .idle rfl rfl (.of_log tree log)
      · rw [hprune] at h
        cases h
  | ok t w₁ =>
      obtain ⟨-, -, -, rfl⟩ := readText_eq_ok_iff.mp hread
      obtain ⟨log, hprune⟩ := pruneFile_of_readText m options names hread
      rw [hprune] at h
      split at h
      · obtain ⟨rfl, rfl⟩ := EStateM.Result.ok.inj h
        exact .idle rfl rfl (.of_log tree log)
      · exact @ending_of_changing m options o (outcomeOf options file names t) _ w₁ w' tree hfile rfl
          rfl log h

/-! ### What is touched -/

/-- What pruning a stylesheet may touch: itself, its copy, files that are written before they take the
place of others, and the manifest. -/
def touchedFor (m : BackupStore) (file : Path) (w : World) : Set Place :=
  insert (w.files.placeOf file) (spare file w ∪ Files.temporaries ∪ m.ledger w)

/-- Where pruning may make directories: for the manifest, if copies are to be taken. -/
def madeFor (m : BackupStore) (options : Options) (w : World) : Set Place :=
  { place | options.createBackup = true ∧ place ∈ m.ledgerWay w }

theorem replaced_subset_touchedFor (m : BackupStore) (file : Path) (w : World) :
  replaced file w ⊆ touchedFor m file w
  := by
  apply Set.insert_subset_insert
  exact Set.subset_union_right.trans Set.subset_union_left

theorem ledger_subset_touchedFor (m : BackupStore) (file : Path) (w : World) :
  m.ledger w ⊆ touchedFor m file w
  := Set.subset_union_right.trans (Set.subset_insert _ _)

theorem spare_subset_touchedFor (m : BackupStore) (file : Path) (w : World) :
  spare file w ⊆ touchedFor m file w
  := (Set.subset_union_left.trans Set.subset_union_left).trans (Set.subset_insert _ _)

/-- Of all stylesheets pruning one may touch that one only. -/
theorem touchedFor_subset_insert (m : BackupStore) (file : Path) (w : World) :
  touchedFor m file w ⊆ insert (w.files.placeOf file) Files.otherPlaces
  := by
  apply Set.insert_subset_insert
  rintro place ((hspare | htemporary) | hledger)
  · exact Files.not_isStylesheetAt_of_suffixAt (suffixAt_of_mem_spare hspare) (by decide)
  · exact not_isStylesheetAt_of_mem_temporaries htemporary
  · exact not_isStylesheetAt_of_mem_ledger hledger

theorem suffixAt_ne_of_mem_replaced (hfile : file.IsStylesheet) {place : Place}
    (h : place ∈ replaced file w) :
  Files.suffixAt place ≠ Files.copySuffix
  := by
  rcases h with rfl | htemporary
  · exact (Files.isStylesheetAt_placeOf w.files hfile).suffixAt_ne (by decide)
  · exact suffixAt_ne_of_mem_temporaries htemporary

/-- What has the place of a copy and may be touched is free. -/
theorem get?_of_mem_touchedFor (hfile : file.IsStylesheet) {place : Place}
    (h : place ∈ touchedFor m file w) (hsuffix : Files.suffixAt place = Files.copySuffix) :
  w.files.get? place = none
  := by
  rcases h with rfl | (hspare | htemporary) | hledger
  · exact absurd hsuffix (suffixAt_ne_of_mem_replaced hfile (.inl rfl))
  · exact hspare.1
  · exact absurd hsuffix (suffixAt_ne_of_mem_temporaries htemporary)
  · exact absurd hsuffix (suffixAt_ne_of_mem_ledger hledger)

theorem within_take_touchedFor (tree : w.files.IsTree) (hfile : file.names ≠ [])
    (hcreate : options.createBackup = true) (log : List Warning) :
  Within (touchedFor m file w) (madeFor m options w) (m.take file) { w with log }
  := within_take (w := { w with log }) tree hfile (spare_subset_touchedFor m file w)
    (ledger_subset_touchedFor m file w) fun _ hplace => ⟨hcreate, hplace⟩

theorem Ending.becomes (h : Ending m options file w o w') (tree : w.files.IsTree)
    (hfile : file.names ≠ []) :
  w.Becomes (touchedFor m file w) (madeFor m options w) w'
  := by
  have hlog : ∀ log, w.Becomes (touchedFor m file w) (madeFor m options w) { w with log } :=
    .of_log tree
  have hreplaced := replaced_subset_touchedFor m file w
  cases h with
  | idle _ _ h => exact h.mono (Set.empty_subset _) (Set.empty_subset _)
  | @notBackedUp log _ _ _ hcreate htake h =>
      have htaken := (within_take_touchedFor tree hfile hcreate log).of_error htake
      exact ((hlog log).trans htaken).trans (h.mono (Set.empty_subset _) (Set.empty_subset _))
  | @changed log copy w₁ _ hprepares _ h =>
      apply World.Becomes.trans _ (h.mono hreplaced (Set.empty_subset _))
      rw [Prepares] at hprepares
      split at hprepares
      · next hcreate =>
        obtain ⟨b, -, htake⟩ := hprepares
        exact (hlog log).trans ((within_take_touchedFor tree hfile hcreate log).of_ok htake)
      · obtain ⟨-, rfl⟩ := hprepares
        exact hlog log
  | @putBack log b w₁ w₂ w₃ _ hcreate htake _ _ h₁ hmarking h₃ =>
      have htaken := (hlog log).trans
        ((within_take_touchedFor tree hfile hcreate log).of_ok htake)
      have h₂ := htaken.trans (h₁.mono hreplaced (Set.empty_subset _))
      have hmarked : w₂.Becomes (touchedFor m file w) (madeFor m options w) w₃ := by
        apply (within_marking h₂.files.tree _ _ b).of_ok hmarking
        · rw [ledger_congr h₂.files.here]
          exact ledger_subset_touchedFor m file w
        · rw [ledgerWay_congr h₂.files.here]
          exact fun _ hplace => ⟨hcreate, hplace⟩
      exact (h₂.trans hmarked).trans (h₃.mono (Set.empty_subset _) (Set.empty_subset _))

/-! ### What another stylesheet needs -/

theorem path_notMem_replaced (hfile : file.IsStylesheet) (manifest : Manifest)
    (hhere : w'.files.here = w.files.here) :
  w'.files.placeOf manifest.path ∉ replaced file w
  := by
  rw [Files.placeOf_congr hhere]
  rintro (heq | htemporary)
  · exact Manifest.placeOf_path_ne_of_isStylesheetAt w.files manifest
      (Files.isStylesheetAt_placeOf w.files hfile) heq
  · exact Manifest.placeOf_path_notMem_temporaries w.files manifest htemporary

theorem readable_of_marking (tree : w.files.IsTree) {b : Backup}
    (hreadable : ∀ manifest, m.manifest = some manifest → manifest.IsReadable w)
    (h : marking m b w = .ok () w') :
  ∀ manifest, m.manifest = some manifest → manifest.IsReadable w'
  := by
  intro manifest hm
  rw [marking, hm] at h
  dsimp only at h
  split at h
  · obtain ⟨c, w₁, hread, hrest⟩ := bind_eq_ok_iff.mp h
    obtain ⟨records, w₂, hmark, hwrite⟩ := bind_eq_ok_iff.mp hrest
    obtain rfl := Manifest.world_of_read hread
    obtain ⟨-, rfl⟩ := ofExcept_eq_ok_iff.mp hmark
    exact Manifest.readable_of_write tree hwrite
  · obtain ⟨-, rfl⟩ := EStateM.Result.ok.inj h
    exact hreadable manifest hm

/-- Pruning one stylesheet neither makes nor breaks what the backup of another one needs of the
manifest. -/
theorem Ending.admitsRecord_iff (h : Ending m options file w o w') (tree : w.files.IsTree)
    (hfile : file.IsStylesheet) (htokens : ∀ i, IsToken (w.tokens i)) (hclear : m.IsWayClear w)
    (hcreate : options.createBackup = true) :
  m.AdmitsRecord w' ↔ m.AdmitsRecord w
  := by
  have hsettled : ∀ {log b w₁}, m.take file { w with log } = .ok b w₁ →
      m.AdmitsRecord w ∧ m.IsSettled w₁ ∧ w₁.files.IsTree ∧ w₁.files.here = w.files.here := by
    intro log b w₁ htake
    have h₁ := (within_take_touchedFor tree hfile.names_ne hcreate log).of_ok htake
    have hadmits := (needs_of_take (w := { w with log }) tree hfile.names_ne htokens hclear htake).2
    exact ⟨(admitsRecord_iff_of_becomes_empty (.of_log tree log)).mp hadmits,
      isSettled_of_take (w := { w with log }) tree hfile.names_ne htake, h₁.files.tree, h₁.files.here⟩
  cases h with
  | idle _ _ h => exact admitsRecord_iff_of_becomes_empty h
  | @notBackedUp log _ w₁ _ _ htake h =>
      rw [admitsRecord_iff_of_becomes_empty h, admitsRecord_iff_of_take_eq_error
        (w := { w with log }) tree hfile.names_ne hclear htake]
      exact admitsRecord_iff_of_becomes_empty (.of_log tree log)
  | @changed log copy w₁ _ hprepares _ h =>
      rw [Prepares, if_pos hcreate] at hprepares
      obtain ⟨b, -, htake⟩ := hprepares
      obtain ⟨hadmits, hthere, -, hhere⟩ := hsettled htake
      refine iff_of_true (hthere.of_becomes h (Set.empty_subset _) ?_).1 hadmits
      intro manifest hm
      exact (hthere.1 manifest hm).readable.of_becomes h (path_notMem_replaced hfile manifest hhere)
  | @putBack log b w₁ w₂ w₃ _ _ htake _ _ h₁ hmarking h₃ =>
      obtain ⟨hadmits, hthere, -, hhere⟩ := hsettled htake
      refine iff_of_true ?_ hadmits
      have hreadable₂ : ∀ manifest, m.manifest = some manifest → manifest.IsReadable w₂ := by
        intro manifest hm
        exact (hthere.1 manifest hm).readable.of_becomes h₁ (path_notMem_replaced hfile manifest hhere)
      have hthere₂ := hthere.of_becomes h₁ (Set.empty_subset _) hreadable₂
      have hmarked : w₂.Becomes (m.ledger w₂) (m.ledgerWay w₂) w₃ :=
        (within_marking h₁.files.tree (Set.Subset.refl _) (Set.Subset.refl _) b).of_ok hmarking
      have hreadable₃ := readable_of_marking h₁.files.tree hreadable₂ hmarking
      have hthere₃ := hthere₂.of_becomes hmarked (Set.Subset.refl _) hreadable₃
      apply (hthere₃.of_becomes h₃ (Set.empty_subset _) ?_).1
      intro manifest hm
      exact (hreadable₃ manifest hm).of_becomes h₃ (Set.notMem_empty _)

end StylePrune.Prune.Plan
