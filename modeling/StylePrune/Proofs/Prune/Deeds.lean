import StylePrune.Proofs.Backup.Sparing
import StylePrune.Proofs.Prune.AllOrNothing

/-!
# Runs of deeds

Stylesheets are edited, backed up and pruned, and copies are put back, in any order; a deed that fails
leaves what it has done, and the run goes on.  From an orderly world on each copy is made where nothing
was, and keeps what its stylesheet had (`Deed.keepsCopies_run`).  Where something recorded is to be put
back into a directory with a name that is made for putting back, a copy can be overwritten
(`Deed.not_keepsCopies_run`).
-/

namespace StylePrune

open Job BackupStore

/-! ### Pruning spares the copies -/

namespace Prune

variable {m : BackupStore} {w w' : World} {file : Path} {t : Text} {fault : Fault} {bytes : List UInt8}
    {options : Options} {names : List Text} {outcome : Outcome} {b : Backup}

theorem sparing_writeInPlace (h : m.IsOrderly w) (hfile : file.IsStylesheet) (t : Text) :
  m.Sparing (writeInPlace file t) w
  := by
  have htemporaries : Files.temporaries ⊆ w.files.writable := fun _ hplace => .inr (.inl hplace)
  cases hwrite : writeInPlace file t w with
  | ok _ w' =>
      rw [Sparing, hwrite]
      apply h.spares_of_writable (of_writeInPlace h.tree hfile.names_ne hwrite).2 _ disjoint_empty
      exact Set.insert_subset (mem_writable_of_isStylesheet w.files hfile) htemporaries
  | error fault w' =>
      rw [Sparing, hwrite]
      exact h.spares_of_writable (becomes_of_writeInPlace_eq_error h.tree hfile.names_ne hwrite)
        htemporaries disjoint_empty

namespace Plan

theorem sparing_tryRollback (h : m.IsOrderly w) {copy : Option Backup}
    (hcopy : ∀ b, copy = some b → w.files.IsOpen b.file) :
  m.Sparing (tryRollback m copy) w
  := by
  cases copy with
  | none => exact .pure h none
  | some b =>
      have hrollback := sparing_rollback h (hcopy b rfl)
      rw [Sparing, tryRollback_apply]
      cases hresult : m.rollback b w with
      | ok _ w₁ => exact hrollback.of_ok hresult
      | error fault w₁ =>
          have h₁ := hrollback.of_error hresult
          cases fault <;> exact h₁

theorem sparing_fail (h : m.IsOrderly w) (outcome : Outcome) (category : String)
    (error : PruneError) :
  m.Sparing (fail outcome category error) w
  := .of_within h (within_fail h.tree outcome category error) (Set.empty_subset _) disjoint_empty

theorem sparing_replace (h : m.IsOrderly w) (hfile : outcome.file.IsStylesheet)
    (hcopy : ∀ b, outcome.backup = some b → w.files.IsOpen b.file) (t : Text) :
  m.Sparing (replace m outcome t) w
  := by
  have hwrite := sparing_writeInPlace h hfile t
  rw [Sparing, replace_apply]
  cases hresult : writeInPlace outcome.file t w with
  | ok _ w₁ => exact hwrite.of_ok hresult
  | error fault w₁ =>
      have h₁ := hwrite.of_error hresult
      cases fault with
      | system error =>
          apply h₁.trans
          apply Sparing.bind (sparing_tryRollback h₁.orderly _)
          · rintro problem w₂ - h₂
            exact sparing_fail h₂.orderly _ _ _
          · intro b hb
            exact (hcopy b hb).of_here h₁.here
      | _ => exact h₁

end Plan

end Prune

/-! ### Fresh copies -/

/-- Whether a backup was taken of a stylesheet: the copy is where nothing was, and has what the
stylesheet had. -/
structure Backup.IsFresh (b : Backup) (file : Path) (w w' : World) : Prop where
  origin : b.file = file
  suffix : Files.suffixAt (w.files.placeOf b.copy) = Files.copySuffix
  free : w.files.get? (w.files.placeOf b.copy) = none
  held : ∃ bytes, w.Holds file bytes
    ∧ w'.files.bytesAt? (w.files.placeOf b.copy) = some bytes

namespace Backup.IsFresh

variable {m : BackupStore} {w w' w'' : World} {file : Path} {b : Backup}

theorem of_take (h : m.IsOrderly w) (hfile : file.IsStylesheet)
    (hnames : ∀ name ∈ file.names, Path.IsName name) (htake : m.take file w = .ok b w') :
  b.IsFresh file w w'
  := by
  obtain ⟨bytes, w₁, hcopied, hrecording⟩ := BackupStore.of_take h.tree hfile.names_ne htake
  have hsuffix := suffixAt_of_mem_spare hcopied.free
  have hrecorded := (sparing_recording_of_copied h hfile hnames hcopied _).of_ok hrecording
  have hheld := hcopied.held.bytes
  rw [hcopied.becomes.placeOf] at hheld
  exact ⟨hcopied.origin, hsuffix, hcopied.free.1, bytes, hcopied.original,
    hrecorded.copies _ _ hsuffix hheld⟩

theorem of_spares (h : b.IsFresh file w w') (hspares : m.Spares w' w'') :
  b.IsFresh file w w''
  := by
  obtain ⟨bytes, hholds, hheld⟩ := h.held
  exact ⟨h.origin, h.suffix, h.free, bytes, hholds, hspares.copies _ _ h.suffix hheld⟩

/-- The log does not matter. -/
theorem of_log {log : List Warning} (h : b.IsFresh file { w with log } w') :
  b.IsFresh file w w'
  := by
  obtain ⟨bytes, hholds, hheld⟩ := h.held
  exact ⟨h.origin, h.suffix, h.free, bytes, ⟨hholds.noNull, hholds.reaches, hholds.bytes⟩, hheld⟩

end Backup.IsFresh

namespace Prune.Plan

variable {m : BackupStore} {w w' : World} {file : Path} {t : Text} {options : Options}
    {names : List Text} {outcome : Outcome}

/-- Changing a stylesheet spares the copies, and the copy that is answered with is fresh. -/
theorem sparing_changing (h : m.IsOrderly w) (hfile : outcome.file.IsStylesheet)
    (hnames : ∀ name ∈ outcome.file.names, Path.IsName name) (hbackup : outcome.backup = none)
    (t : Text) :
  m.Sparing (changing m options outcome t) w
    ∧ ∀ o w', changing m options outcome t w = .ok o w' →
      ∀ b, o.backup = some b → b.IsFresh outcome.file w w'
  := by
  rcases exists_prepares_or m options outcome.file w with
    ⟨copy, w₁, hprepares⟩ | ⟨hcreate, fault, w₁, htake⟩
  · have h₁ : m.Spares w w₁ ∧ ∀ b, copy = some b → b.IsFresh outcome.file w w₁ := by
      unfold Prepares at hprepares
      split at hprepares
      · obtain ⟨b, rfl, htake⟩ := hprepares
        refine ⟨(sparing_take h hfile hnames).of_ok htake, ?_⟩
        rintro b' hb'
        obtain rfl := Option.some.inj hb'
        exact .of_take h hfile hnames htake
      · obtain ⟨rfl, rfl⟩ := hprepares
        refine ⟨.refl h, ?_⟩
        rintro b ⟨⟩
    obtain ⟨hspares, hfresh⟩ := h₁
    have hreplace : m.Sparing (replace m { outcome with backup := copy } t) w₁ := by
      apply @sparing_replace m w₁ { outcome with backup := copy } hspares.orderly hfile
      intro b hb
      obtain ⟨bytes, hholds, -⟩ := (hfresh b hb).held
      rw [(hfresh b hb).origin]
      exact (h.isOpen_of_reaches hfile hholds.reaches).of_here hspares.here
    rw [Sparing, changing_of_prepares hprepares hbackup]
    refine ⟨hspares.trans hreplace, ?_⟩
    intro o w' hok b hb
    obtain ⟨written, error, rfl⟩ := exists_of_replace hok
    exact (hfresh b hb).of_spares (hreplace.of_ok hok)
  · have h₁ := (sparing_take h hfile hnames).of_error htake
    rcases changing_of_take_eq_error hcreate htake t with ⟨cause, rfl, hfail⟩ | ⟨-, hraise⟩
    · rw [Sparing, hfail]
      refine ⟨h₁.trans (sparing_fail h₁.orderly _ _ _), ?_⟩
      rintro o w' hok b hb
      obtain ⟨rfl, -⟩ := EStateM.Result.ok.inj hok
      cases hbackup.symm.trans hb
    · rw [Sparing, hraise]
      refine ⟨h₁, ?_⟩
      rintro o w' ⟨⟩

/-- Pruning a stylesheet spares the copies, and the copy that is answered with is fresh. -/
theorem sparing_pruneFile (h : m.IsOrderly w) (hfile : file.IsStylesheet)
    (hnames : ∀ name ∈ file.names, Path.IsName name) (options : Options) (names : List Text) :
  m.Sparing (pruneFile m options file names) w
    ∧ ∀ o w', pruneFile m options file names w = .ok o w' →
      ∀ b, o.backup = some b → b.IsFresh file w w'
  := by
  have hlog : ∀ log, m.Spares w { w with log } := fun log =>
    h.spares_of_writable (.of_log h.tree log) (Set.empty_subset _) disjoint_empty
  cases hread : readText file w with
  | error fault w₁ =>
      rcases pruneFile_of_readText_eq_error m options names hread with
        ⟨-, error, log, hprune⟩ | ⟨-, hprune⟩
      · rw [Sparing, hprune]
        refine ⟨hlog log, ?_⟩
        rintro o w' hok b hb
        obtain ⟨rfl, -⟩ := EStateM.Result.ok.inj hok
        cases hb
      · rw [Sparing, hprune]
        refine ⟨.refl h, ?_⟩
        rintro o w' ⟨⟩
  | ok t w₁ =>
      obtain ⟨-, -, -, rfl⟩ := readText_eq_ok_iff.mp hread
      obtain ⟨log, hprune⟩ := pruneFile_of_readText m options names hread
      rw [Sparing, hprune]
      split
      · refine ⟨hlog log, ?_⟩
        rintro o w' hok b hb
        obtain ⟨rfl, -⟩ := EStateM.Result.ok.inj hok
        cases hb
      · obtain ⟨hsparing, hfresh⟩ := @sparing_changing m { w₁ with log } options
          (outcomeOf options file names t) (hlog log).orderly hfile hnames rfl (remove t names).text
        refine ⟨(hlog log).trans hsparing, ?_⟩
        intro o w' hok b hb
        exact (hfresh o w' hok b hb).of_log

end Prune.Plan

/-! ### Deeds -/

/-- What may be done with the stylesheets and their copies in a run: a stylesheet is written or removed,
the clock goes on, a stylesheet is backed up or pruned, the copy of one of the snapshots that were
taken is put back, or what is recorded is restored. -/
inductive Deed where
  | write (file : Path) (bytes : List UInt8)
  | remove (file : Path)
  | wait (now : Instant)
  | backUp (file : Path)
  | prune (options : Prune.Options) (file : Path) (names : List Text)
  | rollBack (i : Nat)
  | restore (id : Json)
  | restoreAll

/-- The snapshots that were taken in a run, and the world that it has come to. -/
structure Journal where
  snapshots : List Snapshot
  world : World

/-- The snapshot of a file of which a copy is taken now. -/
def Journal.snapshotOf (j : Journal) (file : Path) (b : Backup) : Snapshot :=
  { backup := b, taken := j.world.now
    bytes := (j.world.files.bytesAt? (j.world.files.placeOf file)).getD [] }

namespace Deed

/-- The file that a deed is done to, if it names one. -/
def file? : Deed → Option Path
  | write file _ | remove file | backUp file | prune _ file _ => some file
  | wait _ | rollBack _ | restore _ | restoreAll => none

/-- Whether what a deed is done to is a stylesheet. -/
def IsFit (d : Deed) : Prop :=
  ∀ file, d.file? = some file → file.IsStylesheet ∧ ∀ name ∈ file.names, Path.IsName name

/-- The journal after a job that may have taken a copy of a file. -/
def note {α : Type} (j : Journal) (file : Path) (copyOf : α → Option Backup) (job : Job α) :
    Journal :=
  let copy := (Prune.Plan.answerOf (job j.world)).bind copyOf
  ⟨j.snapshots ++ copy.toList.map (j.snapshotOf file), left (job j.world)⟩

/-- The journal after a deed.  What fails is not done again, and what it has done stays done. -/
def perform (m : BackupStore) (j : Journal) : Deed → Journal
  | write file bytes => { j with world := left (writeBytes file bytes j.world) }
  | remove file => { j with world := left (removeIfPresent file j.world) }
  | wait now => { j with world := { j.world with now } }
  | backUp file => note j file some (m.take file)
  | prune options file names => note j file Prune.Outcome.backup
      (Prune.Plan.pruneFile m options file names)
  | rollBack i =>
    match j.snapshots[i]? with
    | some s => { j with world := left (m.rollback s.backup j.world) }
    | none => j
  | restore id => { j with world := left (m.restore id j.world) }
  | restoreAll => { j with world := left (m.restoreAll j.world) }

/-- The journal of a run of deeds. -/
def run (m : BackupStore) (deeds : List Deed) (w : World) : Journal :=
  deeds.foldl (perform m) ⟨[], w⟩

end Deed

/-! ### What a run preserves -/

/-- Whether the copy of a snapshot has what the stylesheet had, and can be put back. -/
structure Snapshot.IsKept (s : Snapshot) (w : World) : Prop where
  isOpen : w.files.IsOpen s.backup.file
  suffix : Files.suffixAt (s.copyPlace w) = Files.copySuffix
  held : w.files.bytesAt? (s.copyPlace w) = some s.bytes

/-- Whether a journal is as it should be: the world is orderly, all snapshots are kept, and no two of
them have one copy. -/
structure Journal.IsSound (m : BackupStore) (j : Journal) : Prop where
  orderly : m.IsOrderly j.world
  kept : ∀ s ∈ j.snapshots, s.IsKept j.world
  distinct : (j.snapshots.map fun s => s.copyPlace j.world).Nodup

variable {m : BackupStore} {w w' : World} {j : Journal} {s : Snapshot} {deeds : List Deed}

theorem Snapshot.IsKept.of_spares (h : s.IsKept w) (hspares : m.Spares w w') :
  s.IsKept w'
  := by
  refine ⟨h.isOpen.of_here hspares.here, ?_, ?_⟩
  · rw [copyPlace_congr hspares.here]
    exact h.suffix
  · rw [copyPlace_congr hspares.here]
    exact hspares.copies _ _ h.suffix h.held

namespace Journal.IsSound

/-- What spares the copies leaves a journal sound. -/
theorem of_spares (h : j.IsSound m) (hspares : m.Spares j.world w') :
  Journal.IsSound m ⟨j.snapshots, w'⟩
  := by
  refine ⟨hspares.orderly, fun s hs => (h.kept s hs).of_spares hspares, ?_⟩
  have hplaces : (fun s : Snapshot => s.copyPlace w') = fun s => s.copyPlace j.world :=
    funext (Snapshot.copyPlace_congr hspares.here)
  rw [hplaces]
  exact h.distinct

/-- A fresh copy is one that is kept. -/
theorem isKept_snapshotOf {file : Path} {b : Backup} (h : j.IsSound m) (hfile : file.IsStylesheet)
    (hspares : m.Spares j.world w') (hfresh : b.IsFresh file j.world w') :
  (j.snapshotOf file b).IsKept w'
  := by
  obtain ⟨bytes, hholds, hheld⟩ := hfresh.held
  have hplace : (j.snapshotOf file b).copyPlace w' = j.world.files.placeOf b.copy :=
    Files.placeOf_congr hspares.here _
  have hbytes : (j.snapshotOf file b).bytes = bytes := by
    rw [Journal.snapshotOf, hholds.bytes, Option.getD_some]
  constructor
  · have hopen := h.orderly.isOpen_of_reaches hfile hholds.reaches
    rw [← hfresh.origin] at hopen
    exact hopen.of_here hspares.here
  · rw [hplace]
    exact hfresh.suffix
  · rw [hplace, hbytes]
    exact hheld

/-- A fresh copy is where the copy of no snapshot is. -/
theorem copyPlace_ne {b : Backup} {file : Path} (h : j.IsSound m) (hs : s ∈ j.snapshots)
    (hfresh : b.IsFresh file j.world w') :
  s.copyPlace j.world ≠ j.world.files.placeOf b.copy
  := by
  intro heq
  have hheld := (h.kept s hs).held
  rw [heq, Files.bytesAt?, hfresh.free] at hheld
  cases hheld

/-- A fresh copy is a snapshot more. -/
theorem append {b : Backup} {file : Path} (h : j.IsSound m) (hfile : file.IsStylesheet)
    (hspares : m.Spares j.world w') (hfresh : b.IsFresh file j.world w') :
  Journal.IsSound m ⟨j.snapshots ++ [j.snapshotOf file b], w'⟩
  := by
  have h' := h.of_spares hspares
  refine ⟨h'.orderly, ?_, ?_⟩
  · intro s hs
    rcases List.mem_append.mp hs with hs | hs
    · exact h'.kept s hs
    · rw [List.mem_singleton.mp hs]
      exact h.isKept_snapshotOf hfile hspares hfresh
  · rw [List.map_append]
    apply List.Nodup.append h'.distinct (List.nodup_singleton _)
    rintro place hmem hplace
    obtain ⟨s, hs, rfl⟩ := List.mem_map.mp hmem
    have hsame : s.copyPlace w' = w'.files.placeOf b.copy := List.mem_singleton.mp hplace
    rw [Snapshot.copyPlace_congr hspares.here, Files.placeOf_congr hspares.here] at hsame
    exact h.copyPlace_ne hs hfresh hsame

/-- A job that spares the copies, and answers with a fresh one if it answers with any. -/
theorem note {α : Type} {file : Path} {copyOf : α → Option Backup} {job : Job α} (h : j.IsSound m)
    (hfile : file.IsStylesheet) (hsparing : m.Sparing job j.world)
    (hfresh : ∀ a w', job j.world = .ok a w' → ∀ b, copyOf a = some b → b.IsFresh file j.world w') :
  (Deed.note j file copyOf job).IsSound m
  := by
  cases hcopy : (Prune.Plan.answerOf (job j.world)).bind copyOf with
  | none =>
      rw [Deed.note, hcopy, Option.toList_none, List.map_nil, List.append_nil]
      exact h.of_spares hsparing
  | some b =>
      obtain ⟨a, ha, hb⟩ := Option.bind_eq_some_iff.mp hcopy
      rw [Deed.note, hcopy]
      cases hjob : job j.world with
      | error fault w' =>
          rw [hjob] at ha
          cases ha
      | ok a' w' =>
          rw [hjob] at ha
          obtain rfl := Option.some.inj ha
          exact h.append hfile (hsparing.of_ok hjob) (hfresh a' w' hjob b hb)

end Journal.IsSound

namespace Deed

/-- Each deed leaves a journal sound. -/
theorem isSound_perform (h : j.IsSound m) {d : Deed} (hd : d.IsFit) :
  (perform m j d).IsSound m
  := by
  cases d with
  | write file bytes =>
      have hfile := (hd file rfl).1
      apply h.of_spares
      apply Sparing.of_within h.orderly (within_writeBytes h.orderly.tree (Set.mem_singleton _)) _
        disjoint_empty
      exact Set.singleton_subset_iff.mpr (mem_writable_of_isStylesheet _ hfile)
  | remove file =>
      have hfile := (hd file rfl).1
      apply h.of_spares
      apply Sparing.of_within h.orderly (within_removeIfPresent h.orderly.tree (Set.mem_singleton _)) _
        disjoint_empty
      exact Set.singleton_subset_iff.mpr (mem_writable_of_isStylesheet _ hfile)
  | wait now =>
      exact ⟨⟨h.orderly.tree, h.orderly.here, h.orderly.free, h.orderly.way, h.orderly.originals⟩,
        fun s hs => ⟨(h.kept s hs).isOpen, (h.kept s hs).suffix, (h.kept s hs).held⟩, h.distinct⟩
  | backUp file =>
      obtain ⟨hfile, hnames⟩ := hd file rfl
      apply h.note hfile (sparing_take h.orderly hfile hnames)
      intro b w' htake b' hb'
      obtain rfl := Option.some.inj hb'
      exact .of_take h.orderly hfile hnames htake
  | prune options file names =>
      obtain ⟨hfile, hnames⟩ := hd file rfl
      obtain ⟨hsparing, hfresh⟩ :=
        Prune.Plan.sparing_pruneFile h.orderly hfile hnames options names
      exact h.note hfile hsparing hfresh
  | rollBack i =>
      cases hs : j.snapshots[i]? with
      | none =>
          rw [perform, hs]
          exact h
      | some s =>
          rw [perform, hs]
          exact h.of_spares (sparing_rollback h.orderly
            (h.kept s (List.mem_of_getElem? hs)).isOpen)
  | restore id => exact h.of_spares (sparing_restore h.orderly id)
  | restoreAll => exact h.of_spares (sparing_restoreAll h.orderly)

theorem isSound_foldl (h : j.IsSound m) (hdeeds : ∀ d ∈ deeds, d.IsFit) :
  (deeds.foldl (perform m) j).IsSound m
  := by
  induction deeds generalizing j with
  | nil => exact h
  | cons d deeds ih =>
      obtain ⟨hd, hdeeds⟩ := List.forall_mem_cons.mp hdeeds
      exact ih (isSound_perform h hd) hdeeds

end Deed

/-! ### What is certain about copies -/

/-- What is certain about the copies at a point of a run. -/
structure Journal.KeepsCopies (m : BackupStore) (j : Journal) : Prop where
  /-- Each copy has what its stylesheet had when it was taken. -/
  held : ∀ s ∈ j.snapshots, j.world.files.bytesAt? (s.copyPlace j.world) = some s.bytes
  /-- No two copies are at one place. -/
  distinct : (j.snapshots.map fun s => s.copyPlace j.world).Nodup
  /-- The copy that is taken next is where nothing is, be it taken alone or to prune a stylesheet. -/
  fresh : ∀ file, file.IsStylesheet → (∀ name ∈ file.names, Path.IsName name) →
    (∀ b w', m.take file j.world = .ok b w' → b.IsFresh file j.world w')
      ∧ ∀ options names o w', Prune.Plan.pruneFile m options file names j.world = .ok o w' →
        ∀ b, o.backup = some b → b.IsFresh file j.world w'
  /-- A copy that is put back next gives its stylesheet what that had when the copy was taken. -/
  rolledBack : ∀ s ∈ j.snapshots, ∀ w', m.rollback s.backup j.world = .ok () w' →
    w'.Holds s.backup.file s.bytes

theorem Journal.IsSound.keepsCopies (h : j.IsSound m) :
  j.KeepsCopies m
  := by
  constructor
  · intro s hs
    exact (h.kept s hs).held
  · exact h.distinct
  · intro file hfile hnames
    constructor
    · intro b w' htake
      exact .of_take h.orderly hfile hnames htake
    · intro options names
      exact (Prune.Plan.sparing_pruneFile h.orderly hfile hnames options names).2
  · intro s hs w' hrollback
    exact h.orderly.holds_of_rollback (h.kept s hs).isOpen (h.kept s hs).held hrollback

namespace Deed

/-- At each point of a run that starts from an orderly world, all copies are kept. -/
theorem keepsCopies_run (h : m.IsOrderly w) (hdeeds : ∀ d ∈ deeds, d.IsFit) :
  (run m deeds w).KeepsCopies m
  := by
  apply Journal.IsSound.keepsCopies
  apply isSound_foldl _ hdeeds
  refine ⟨h, ?_, List.nodup_nil⟩
  rintro s ⟨⟩

/-! ### Two runs -/

open Prune.Plan

theorem isFit_ofString {d : Deed} {s : String} (hs : (Path.ofString s).IsStylesheet)
    (hd : d.file? = none ∨ d.file? = some (Path.ofString s)) :
  d.IsFit
  := by
  intro file hfile
  rcases hd with hd | hd
  · rw [hd] at hfile
    cases hfile
  · rw [hd] at hfile
    obtain rfl := Option.some.inj hfile
    exact ⟨hs, fun name => Path.isName_of_mem_names_ofString⟩

/-- Backs a stylesheet up, prunes it within the same second and puts the first copy back. -/
def backUpAndPrune : List Deed :=
  [.backUp (Path.ofString "a.css"), .prune { dryRun := false } (Path.ofString "a.css") ["a".toList],
    .rollBack 0]

theorem isOrderly_twoSheets :
  (storeAt "m").IsOrderly twoSheets
  := by
  have hentries : ∀ entry ∈ twoSheets.files.entries,
      Files.suffixAt entry.1 ≠ Files.temporarySuffix := by
    decide +kernel
  refine ⟨isTree_twoSheets, ?_, ?_, ?_, ?_⟩
  · rintro name ⟨⟩
  · intro place hplace
    rw [Files.get?_of_mem_temporaries hentries (Files.backPlaces_subset_temporaries hplace)]
    rintro ⟨⟩
  · rw [Set.disjoint_left]
    rintro place ⟨manifest, hm, names, hinitial, rfl⟩ hback
    obtain rfl := Option.some.inj hm
    have hall : ∀ names ∈ (Path.ofString "m").names.inits,
        Files.suffixAt (twoSheets.files.placeOf ⟨.relative, names⟩) ≠ Files.temporarySuffix := by
      decide +kernel
    exact hall names (List.mem_inits _ _ |>.mpr hinitial) (Files.backPlaces_subset_temporaries hback)
  · rintro p ⟨manifest, hm, bytes, t, hbytes, -⟩
    obtain rfl := Option.some.inj hm
    have hnone : twoSheets.files.bytesAt? (twoSheets.files.placeOf
        (Manifest.path ⟨Path.ofString "m"⟩)) = none := by
      decide +kernel
    cases hnone.symm.trans hbytes

/-- A stylesheet that is backed up and pruned within a second has two copies, and has again what it had
at first when the first of them is put back. -/
theorem keepsCopies_run_backUpAndPrune :
  (storeAt "m").IsOrderly twoSheets ∧ (∀ d ∈ backUpAndPrune, d.IsFit)
    ∧ (run (storeAt "m") backUpAndPrune twoSheets).KeepsCopies (storeAt "m")
    ∧ (run (storeAt "m") backUpAndPrune twoSheets).snapshots.map (·.backup.copy)
      = [Path.ofString "a.css.20240101_000000.bak", Path.ofString "a.css.20240101_000000_000001.bak"]
    ∧ (run (storeAt "m") backUpAndPrune twoSheets).world.files.bytesAt? ["a.css"]
      = twoSheets.files.bytesAt? ["a.css"]
  := by
  have hfit : ∀ d ∈ backUpAndPrune, d.IsFit := by
    intro d hd
    apply @isFit_ofString d "a.css" (by decide +kernel)
    simp only [backUpAndPrune, List.mem_cons, List.not_mem_nil, or_false] at hd
    rcases hd with rfl | rfl | rfl
    · exact .inr rfl
    · exact .inr rfl
    · exact .inl rfl
  refine ⟨isOrderly_twoSheets, hfit, keepsCopies_run isOrderly_twoSheets hfit, ?_⟩
  decide +kernel

/-- A stylesheet, a copy of another one, and a manifest that records the copy as one of a stylesheet in
a directory that is not there, with a name for files that are put back. -/
def recordedAside : World :=
  { files := ((({} : Files).put ["a.css"] (.file (Text.Utf8.encode "A".toList))).put ["x.bak"]
      (.file (Text.Utf8.encode "X".toList))).put ["manifest.json"]
      (.file (Text.Utf8.encode (Manifest.listing [aside]).toText))
    now := { year := 2024, month := 1, day := 1 }
    tokens := fun i => String.ofList (Text.hex 6 i) }
where
  /-- The record. -/
  aside : Manifest.Record :=
    { id := "i", file := ".a.css.restore.tmp/a.css", copy := "x.bak", stamp := "", created := ""
      reason := "", hash := "4b68ab3847feda7d6c62c1fbcbeebfa35eab7351ed5e78f4ddadea5df64b8015" }

/-- Restores the record, backs up the stylesheet that it is one of and the other one, and puts the
copy of the other one back. -/
def restoreAside : List Deed :=
  [.restore (.str "i"), .backUp (Path.ofString ".a.css.restore.tmp/a.css"),
    .backUp (Path.ofString "a.css"), .rollBack 1]

/-- Where nothing has a temporary name and the manifest names stylesheets only, a copy that was taken
can still be overwritten. -/
theorem not_keepsCopies_run :
  recordedAside.files.IsTree ∧ Files.IsProper recordedAside.files.here
    ∧ (∀ place ∈ Files.temporaries, recordedAside.files.get? place = none)
    ∧ (∀ p ∈ (storeAt "").originals recordedAside, p.IsStylesheet)
    ∧ (∀ d ∈ restoreAside, d.IsFit)
    ∧ (∃ s ∈ (run (storeAt "") restoreAside recordedAside).snapshots,
        (run (storeAt "") restoreAside recordedAside).world.files.bytesAt?
          (s.copyPlace (run (storeAt "") restoreAside recordedAside).world) ≠ some s.bytes)
    ∧ ¬ (run (storeAt "") restoreAside recordedAside).KeepsCopies (storeAt "")
  := by
  have hlost : ∃ s ∈ (run (storeAt "") restoreAside recordedAside).snapshots,
      (run (storeAt "") restoreAside recordedAside).world.files.bytesAt?
        (s.copyPlace (run (storeAt "") restoreAside recordedAside).world) ≠ some s.bytes := by
    decide +kernel
  refine ⟨?_, ?_, ?_, ?_, ?_, hlost, ?_⟩
  · apply Files.IsTree.put (Files.IsTree.put (Files.IsTree.put Files.isTree_empty _ _ _) _ _ _)
    all_goals decide
  · rintro name ⟨⟩
  · intro place
    apply Files.get?_of_mem_temporaries
    decide +kernel
  · rintro p ⟨manifest, hm, bytes, t, hbytes, hdecode, record, hrecord, hpath⟩
    obtain rfl := Option.some.inj hm
    have htext : recordedAside.files.bytesAt? (recordedAside.files.placeOf
        (Manifest.path ⟨Path.ofString ""⟩))
          = some (Text.Utf8.encode (Manifest.listing [recordedAside.aside]).toText) := by
      rfl
    obtain rfl := Option.some.inj (htext.symm.trans hbytes)
    rw [Text.Utf8.decode_encode] at hdecode
    obtain rfl := Except.ok.inj hdecode
    rw [Manifest.ofText_toText, Manifest.backups_listing] at hrecord
    obtain rfl := List.mem_singleton.mp hrecord
    obtain rfl : Path.ofString recordedAside.aside.file = p := Except.ok.inj hpath
    decide +kernel
  · intro d hd
    simp only [restoreAside, List.mem_cons, List.not_mem_nil, or_false] at hd
    rcases hd with rfl | rfl | rfl | rfl
    · exact isFit_ofString (s := "a.css") (by decide +kernel) (.inl rfl)
    · exact isFit_ofString (by decide +kernel) (.inr rfl)
    · exact isFit_ofString (by decide +kernel) (.inr rfl)
    · exact isFit_ofString (s := "a.css") (by decide +kernel) (.inl rfl)
  · rintro ⟨hheld, -⟩
    obtain ⟨s, hs, hne⟩ := hlost
    exact hne (hheld s hs)

end Deed

end StylePrune
