import StylePrune.Proofs.Backup.RestoringAll
import StylePrune.Proofs.Instant.Order

/-!
# Histories of backups

Stylesheets are edited and backed up, in any order, while the clock goes on or stands still
(`History`).  When all is put back afterwards without an error, a stylesheet has what it had when it
was backed up first, unless it was backed up again before the clock went on: of the backups that were
taken at the time of the first one, the last is put back last (`bytesAt?_restoreAll_of_history`).
-/

namespace StylePrune

open Job BackupStore

/-- Whether a world comes from another one by edits of stylesheets and by backups, of which the
snapshots are listed, while the clock does not go back. -/
inductive History (manifest : Manifest) (start : World) : List Snapshot → World → Prop
  | start : History manifest start [] start
  | edit {snapshots : List Snapshot} {w w' : World} (h : History manifest start snapshots w)
      {file : String} {bytes : List UInt8} (hfile : (Path.ofString file).IsStylesheet)
      (hwrite : writeBytes (Path.ofString file) bytes w = .ok () w') :
      History manifest start snapshots w'
  | wait {snapshots : List Snapshot} {w : World} (h : History manifest start snapshots w)
      {now : Instant} (hshown : now.IsShown) (hlater : w.now ≤ now) :
      History manifest start snapshots { w with now }
  | backup {snapshots : List Snapshot} {w w' : World} (h : History manifest start snapshots w)
      {file : String} {bytes : List UInt8} {b : Backup} (hfile : (Path.ofString file).IsStylesheet)
      (hbytes : w.files.bytesAt? (w.files.placeOf (Path.ofString file)) = some bytes)
      (htake : (BackupStore.mk (some manifest)).take (Path.ofString file) w = .ok b w') :
      History manifest start (snapshots ++ [{ backup := b, taken := w.now, bytes }]) w'

/-- Whether a world has no manifest yet and is one that a history can start with: its directory and
its tokens are written properly, and its clock shows a time. -/
structure Manifest.IsNew (manifest : Manifest) (start : World) : Prop where
  tree : start.files.IsTree
  here : Files.IsProper start.files.here
  tokens : ∀ i, IsToken (start.tokens i)
  missing : start.files.bytesAt? (start.files.placeOf manifest.path) = none
  shown : start.now.IsShown

variable {manifest : Manifest} {start w w' : World} {snapshots later : List Snapshot}
    {s t : Snapshot}

/-! ### Times in order -/

/-- Whether snapshots that are not put back stand in the order in which they were taken. -/
structure AreTimely (snapshots : List Snapshot) (now : Instant) : Prop where
  shown : now.IsShown
  past : ∀ s ∈ snapshots, s.taken.IsShown ∧ s.taken ≤ now
  inOrder : snapshots.Pairwise fun s t => s.taken ≤ t.taken
  pending : ∀ s ∈ snapshots, s.restored = false

namespace AreTimely

theorem nil {now : Instant} (h : now.IsShown) :
  AreTimely [] now
  := by
  refine ⟨h, ?_, .nil, ?_⟩ <;> rintro s ⟨⟩

theorem of_le {now now' : Instant} (h : AreTimely snapshots now) (hshown : now'.IsShown)
    (hlater : now ≤ now') :
  AreTimely snapshots now'
  := ⟨hshown, fun s hs => ⟨(h.past s hs).1, (h.past s hs).2.trans hlater⟩, h.inOrder, h.pending⟩

theorem concat {now : Instant} (h : AreTimely snapshots now) (htaken : s.taken = now)
    (hpending : s.restored = false) :
  AreTimely (snapshots ++ [s]) now
  := by
  refine ⟨h.shown, ?_, ?_, ?_⟩
  · intro t ht
    rcases List.mem_append.mp ht with ht | ht
    · exact h.past t ht
    · rw [List.mem_singleton.mp ht, htaken]
      exact ⟨h.shown, le_refl now⟩
  · refine List.pairwise_append.mpr ⟨h.inOrder, List.pairwise_singleton _ s, ?_⟩
    intro t ht u hu
    rw [List.mem_singleton.mp hu, htaken]
    exact (h.past t ht).2
  · intro t ht
    rcases List.mem_append.mp ht with ht | ht
    · exact h.pending t ht
    · rw [List.mem_singleton.mp ht, hpending]

end AreTimely

/-- Nothing is put back yet, so all has to be. -/
theorem AreTimely.pending_eq {now : Instant} (h : AreTimely snapshots now) :
  Snapshot.pending snapshots = Snapshot.latestFirst snapshots
  := by
  rw [Snapshot.pending, List.filter_eq_self.mpr]
  intro s hs
  rw [h.pending s hs]
  rfl

/-- Along a history the manifest lists the snapshots, which stand in the order in which they were
taken. -/
theorem History.chronicle (h : History manifest start snapshots w) (hnew : manifest.IsNew start) :
  Chronicle manifest snapshots w ∧ AreTimely snapshots w.now ∧ w.tokens = start.tokens
    ∧ w.files.here = start.files.here
  := by
  induction h with
  | start => exact ⟨.of_missing hnew.tree hnew.here hnew.missing, .nil hnew.shown, rfl, rfl⟩
  | @edit snapshots w w' h file bytes hfile hwrite ih =>
      obtain ⟨hchronicle, htimely, hsame, hhere⟩ := ih
      have hplace := w.files.isStylesheetAt_placeOf hfile
      have hw : w.Becomes {w.files.placeOf (Path.ofString file)} ∅ w' :=
        (within_writeBytes hchronicle.tree (Set.mem_singleton _)).of_ok hwrite
      have hheld := (holds_of_writeBytes hchronicle.tree hwrite).bytes
      rw [hw.placeOf] at hheld
      refine ⟨hchronicle.of_becomes hw ?_ ?_ ?_, hw.now ▸ htimely, hw.tokens.trans hsame,
        hw.files.here.trans hhere⟩
      · exact Chronicle.path_ne (.inr (.inr hplace))
      · rintro place rfl hsuffix
        exact absurd hsuffix (hplace.suffixAt_ne (by decide))
      · intro s hs
        -- the stylesheet that was edited is still there, with other contents
        by_cases heq : s.place w = w.files.placeOf (Path.ofString file)
        · rw [heq, hheld]
          rintro ⟨⟩
        · rw [hw.files.bytes _ heq]
          exact (hchronicle.sound s hs).there
  | @wait snapshots w h now hnow hlater ih =>
      obtain ⟨hchronicle, htimely, hsame, hhere⟩ := ih
      exact ⟨hchronicle.of_files_eq rfl, htimely.of_le hnow hlater, hsame, hhere⟩
  | @backup snapshots w w' h file bytes b hfile hbytes htake ih =>
      obtain ⟨hchronicle, htimely, hsame, hhere⟩ := ih
      obtain ⟨bytes', hholds, -, -, hchronicle'⟩ := hchronicle.of_take (hsame ▸ hnew.tokens) hfile
        (fun _ => Path.isName_of_mem_names_ofString) htake
      obtain rfl : bytes' = bytes := Option.some.inj (hholds.bytes.symm.trans hbytes)
      have hw : w.Becomes Set.univ Set.univ w' :=
        (within_take hchronicle.tree hfile.names_ne (Set.subset_univ _) (Set.subset_univ _)
          (Set.subset_univ _)).of_ok htake
      refine ⟨hchronicle', ?_, hw.tokens.trans hsame, hw.files.here.trans hhere⟩
      rw [hw.now]
      exact htimely.concat rfl rfl

/-! ### Snapshots that were taken at once -/

namespace Snapshot

/-- Whether a snapshot is of the same stylesheet as another one and was taken at the same time. -/
def isAtOnce (w : World) (s t : Snapshot) : Bool := t.place w = s.place w ∧ t.taken = s.taken

theorem isAtOnce_iff :
  isAtOnce w s t ↔ t.place w = s.place w ∧ t.taken = s.taken
  := decide_eq_true_iff

/-- Of a snapshot and those of the same stylesheet that were taken later but at the same time, the
last. -/
def lastAtOnce (w : World) (s : Snapshot) (later : List Snapshot) : Snapshot :=
  (later.filter (isAtOnce w s)).getLast?.getD s

theorem lastAtOnce_of_forall_ne
    (h : ∀ t ∈ later, t.place w = s.place w → t.taken ≠ s.taken) :
  lastAtOnce w s later = s
  := by
  rw [lastAtOnce, List.filter_eq_nil_iff.mpr]
  · rfl
  · intro t ht htrue
    obtain ⟨hplace, htaken⟩ := isAtOnce_iff.mp htrue
    exact h t ht hplace htaken

/-! ### The order in which snapshots are put back -/

/-- Whether the first of two snapshots may come first where the latest comes first. -/
def mayComeFirst (s t : Snapshot) : Bool := !decide (s.taken.iso < t.taken.iso)

theorem mayComeFirst_iff :
  mayComeFirst s t ↔ t.taken.iso ≤ s.taken.iso
  := by
  rw [mayComeFirst, Bool.not_eq_true', decide_eq_false_iff_not, not_lt]

theorem mayComeFirst_trans (s t u : Snapshot) (hst : mayComeFirst s t) (htu : mayComeFirst t u) :
  mayComeFirst s u
  := mayComeFirst_iff.mpr ((mayComeFirst_iff.mp htu).trans (mayComeFirst_iff.mp hst))

theorem mayComeFirst_total (s t : Snapshot) :
  (mayComeFirst s t || mayComeFirst t s) = true
  := by
  rw [Bool.or_eq_true, mayComeFirst_iff, mayComeFirst_iff]
  exact le_total _ _

theorem pairwise_latestFirst (snapshots : List Snapshot) :
  (latestFirst snapshots).Pairwise fun s t => mayComeFirst s t
  := List.pairwise_mergeSort mayComeFirst_trans mayComeFirst_total snapshots

/-- Of two snapshots the later one comes first, or else the first one. -/
theorem latestFirst_pair (s t : Snapshot) :
  latestFirst [s, t] = if mayComeFirst s t then [s, t] else [t, s]
  := by
  change List.mergeSort [s, t] mayComeFirst = _
  by_cases h : mayComeFirst s t <;> simp [List.mergeSort, h]

/-- Snapshots that were taken at once keep their order. -/
theorem filter_isAtOnce_latestFirst (w : World) (s : Snapshot) (snapshots : List Snapshot) :
  (latestFirst snapshots).filter (isAtOnce w s) = snapshots.filter (isAtOnce w s)
  := by
  have hstable : (snapshots.filter (isAtOnce w s)).Sublist (latestFirst snapshots) := by
    apply List.sublist_mergeSort mayComeFirst_trans mayComeFirst_total _ List.filter_sublist
    apply List.pairwise_of_forall_mem_list
    intro t ht u hu
    rw [mayComeFirst_iff, (isAtOnce_iff.mp (List.mem_filter.mp ht).2).2,
      (isAtOnce_iff.mp (List.mem_filter.mp hu).2).2]
  have hsublist := hstable.filter (isAtOnce w s)
  rw [List.filter_filter] at hsublist
  simp only [Bool.and_self] at hsublist
  exact (hsublist.eq_of_length ((List.mergeSort_perm _ _).filter _).length_eq.symm).symm

/-- A snapshot that was taken no earlier and comes no earlier in the order in which snapshots are put
back was taken at the same time. -/
theorem taken_eq_of_mayComeFirst (hs : s.taken.IsShown) (ht : t.taken.IsShown)
    (hle : s.taken ≤ t.taken) (h : mayComeFirst s t) :
  t.taken = s.taken
  := by
  have hnot : ¬ s.taken < t.taken := by
    rw [← Instant.iso_lt_iso_iff hs ht, not_lt]
    exact mayComeFirst_iff.mp h
  exact (hle.eq_of_not_lt hnot).symm

/-- Of the snapshots of a stylesheet that are put back, the latest first, the last one is the last of
those that were taken at the time of the first. -/
theorem exists_split_latestFirst {front : List Snapshot} {now : Instant} (w : World)
    (htimely : AreTimely (front ++ s :: later) now) (hfirst : ∀ t ∈ front, t.place w ≠ s.place w) :
  (lastAtOnce w s later).place w = s.place w ∧ ∃ before after,
    latestFirst (front ++ s :: later) = before ++ lastAtOnce w s later :: after
      ∧ ∀ t ∈ after, t.place w ≠ s.place w
  := by
  have hatOnce : (latestFirst (front ++ s :: later)).filter (isAtOnce w s)
      = s :: later.filter (isAtOnce w s) := by
    rw [filter_isAtOnce_latestFirst, List.filter_append,
      List.filter_cons_of_pos (isAtOnce_iff.mpr ⟨rfl, rfl⟩), List.filter_eq_nil_iff.mpr,
      List.nil_append]
    exact fun t ht htrue => hfirst t ht (isAtOnce_iff.mp htrue).1
  obtain ⟨others, hlast⟩ : ∃ others,
      s :: later.filter (isAtOnce w s) = others ++ [lastAtOnce w s later] :=
    List.getLast?_eq_some_iff.mp List.getLast?_cons
  rw [hlast] at hatOnce
  obtain ⟨front₁, rest, hsplit, -, hrest⟩ := List.filter_eq_append_iff.mp hatOnce
  obtain ⟨front₂, after, rfl, -, htrue, hnone⟩ := List.filter_eq_cons_iff.mp hrest
  rw [← List.append_assoc] at hsplit
  obtain ⟨hplace, htaken⟩ := isAtOnce_iff.mp htrue
  refine ⟨hplace, front₁ ++ front₂, after, hsplit, ?_⟩
  intro t ht hsame
  have hmem : t ∈ front ++ s :: later := by
    apply (List.mergeSort_perm _ mayComeFirst).mem_iff.mp
    change t ∈ latestFirst _
    rw [hsplit]
    exact List.mem_append_right _ (List.mem_cons_of_mem _ ht)
  have hle : s.taken ≤ t.taken := by
    rcases List.mem_append.mp hmem with hfront | hlater
    · exact absurd hsame (hfirst t hfront)
    · rcases List.mem_cons.mp hlater with rfl | hlater
      · exact le_refl _
      · have hinOrder := (List.pairwise_append.mp htimely.inOrder).2.1
        exact (List.pairwise_cons.mp hinOrder).1 t hlater
  have hafter : mayComeFirst (lastAtOnce w s later) t := by
    have hpairwise := pairwise_latestFirst (front ++ s :: later)
    rw [hsplit] at hpairwise
    exact (List.pairwise_cons.mp (List.pairwise_append.mp hpairwise).2.1).1 t ht
  have hequal : t.taken = s.taken := by
    apply taken_eq_of_mayComeFirst (htimely.past s (by simp)).1 (htimely.past t hmem).1 hle
    rw [mayComeFirst_iff, ← htaken]
    exact mayComeFirst_iff.mp hafter
  exact List.filter_eq_nil_iff.mp hnone t ht (isAtOnce_iff.mpr ⟨hsame, hequal⟩)

end Snapshot

/-! ### Putting all back after a history -/

/-- After a history, when all is put back without an error, a stylesheet has what it had at the last
of its snapshots that were taken at the time of the first; if that is the first alone, what it had
when it was backed up first. -/
theorem bytesAt?_restoreAll_of_history (hnew : manifest.IsNew start)
    (h : History manifest start snapshots w)
    (hids : (snapshots.map Snapshot.id).Nodup) {r : Restoration}
    (hrestore : (BackupStore.mk (some manifest)).restoreAll w = .ok r w') (herrors : r.errors = [])
    {front : List Snapshot} (hsplit : snapshots = front ++ s :: later)
    (hfirst : ∀ t ∈ front, t.place w ≠ s.place w) :
  w'.files.bytesAt? (s.place w) = some (Snapshot.lastAtOnce w s later).bytes
    ∧ ((∀ t ∈ later, t.place w = s.place w → t.taken ≠ s.taken) →
      w'.files.bytesAt? (s.place w) = some s.bytes)
  := by
  obtain ⟨hchronicle, htimely, -⟩ := h.chronicle hnew
  have hback := hchronicle.of_restoreAll hids hrestore herrors
  subst hsplit
  rw [htimely.pending_eq] at hback
  obtain ⟨hplace, before, after, hsorted, hafter⟩ :=
    Snapshot.exists_split_latestFirst w htimely hfirst
  have hbytes := hback.last before _ after hsorted fun t ht => by
    rw [hplace]
    exact hafter t ht
  rw [hplace] at hbytes
  refine ⟨hbytes, fun hnone => ?_⟩
  rw [hbytes, Snapshot.lastAtOnce_of_forall_ne hnone]

/-! ### Histories of one stylesheet -/

/-- Backs a stylesheet up before each of some edits, after which the clock shows a time. -/
def backUpAndEdit (manifest : Manifest) (file : String) :
    List (List UInt8 × Instant) → Job (List Snapshot)
  | [] => return []
  | (new, now) :: rest => do
    let taken := (← get).now
    let bytes ← readBytes (Path.ofString file)
    let b ← (BackupStore.mk (some manifest)).take (Path.ofString file)
    writeBytes (Path.ofString file) new
    modify fun w => { w with now }
    return { backup := b, taken, bytes } :: (← backUpAndEdit manifest file rest)

namespace History

theorem now_of_take_of_write {file : Path} {b : Backup} {bytes : List UInt8} {w₁ : World}
    (tree : w.files.IsTree) (hfile : file.names ≠ [])
    (htake : (BackupStore.mk (some manifest)).take file w = .ok b w₁)
    (hwrite : writeBytes file bytes w₁ = .ok () w') :
  w'.now = w.now
  := by
  have h₁ : w.Becomes Set.univ Set.univ w₁ :=
    (within_take tree hfile (Set.subset_univ _) (Set.subset_univ _) (Set.subset_univ _)).of_ok htake
  have h₂ : w₁.Becomes Set.univ Set.univ w' :=
    (within_writeBytes h₁.files.tree (Set.mem_univ _)).of_ok hwrite
  exact h₂.now.trans h₁.now

/-- Backups and edits are a history if the clock does not go back. -/
theorem of_backUpAndEdit (hnew : manifest.IsNew start) {file : String}
    {edits : List (List UInt8 × Instant)} {added : List Snapshot}
    (hfile : (Path.ofString file).IsStylesheet) (h : History manifest start snapshots w)
    (hshown : ∀ edit ∈ edits, edit.2.IsShown)
    (hlater : (w.now :: edits.map Prod.snd).IsChain (· ≤ ·))
    (hrun : backUpAndEdit manifest file edits w = .ok added w') :
  History manifest start (snapshots ++ added) w'
  := by
  induction edits generalizing snapshots w added with
  | nil =>
      obtain ⟨rfl, rfl⟩ := EStateM.Result.ok.inj hrun
      rw [List.append_nil]
      exact h
  | cons edit edits ih =>
      obtain ⟨_, _, hget, h₁⟩ := bind_eq_ok_iff.mp hrun
      obtain ⟨rfl, rfl⟩ := EStateM.Result.ok.inj hget
      obtain ⟨bytes, w₁, hread, h₂⟩ := bind_eq_ok_iff.mp h₁
      obtain ⟨hholds, rfl⟩ := readBytes_eq_ok_iff.mp hread
      obtain ⟨b, w₂, htake, h₃⟩ := bind_eq_ok_iff.mp h₂
      obtain ⟨_, w₃, hwrite, h₄⟩ := bind_eq_ok_iff.mp h₃
      obtain ⟨_, _, hmodify, h₅⟩ := bind_eq_ok_iff.mp h₄
      obtain ⟨-, rfl⟩ := EStateM.Result.ok.inj hmodify
      obtain ⟨others, w₄, hrest, hpure⟩ := bind_eq_ok_iff.mp h₅
      obtain ⟨rfl, rfl⟩ := EStateM.Result.ok.inj hpure
      obtain ⟨hnow, hrestLater⟩ := List.isChain_cons_cons.mp hlater
      have hsame := now_of_take_of_write (h.chronicle hnew).1.tree hfile.names_ne htake hwrite
      have hstep := ((h.backup hfile hholds.bytes htake).edit hfile hwrite).wait
        (hshown edit List.mem_cons_self) (hsame ▸ hnow)
      have hall := ih hstep (fun e he => hshown e (List.mem_cons_of_mem edit he)) hrestLater hrest
      rw [List.append_assoc] at hall
      exact hall

/-- After a history, what the snapshots say is put back, the latest first. -/
theorem restoreAll_apply (h : History manifest start snapshots w) (hnew : manifest.IsNew start)
    (hne : snapshots ≠ []) :
  (BackupStore.mk (some manifest)).restoreAll w
    = (BackupStore.mk (some manifest)).restoreEach
        ((Snapshot.latestFirst snapshots).map fun s => (s.record w).toJson) {} w
  := by
  obtain ⟨hchronicle, htimely, -⟩ := h.chronicle hnew
  have hunrestored := Manifest.unrestored_apply hchronicle.shows (mt List.map_eq_nil_iff.mp hne)
  rw [Snapshot.map_record_pending, htimely.pending_eq, List.map_map] at hunrestored
  rw [BackupStore.restoreAll_apply, bind_of_ok hunrestored]
  rfl

/-- Backs a stylesheet up before each of some edits, and puts all back at the end in an order. -/
def backUpEditAndRestore (manifest : Manifest) (file : String)
    (order : List Snapshot → List Snapshot) (edits : List (List UInt8 × Instant)) :
    Job (List Snapshot × Restoration) := do
  let snapshots ← backUpAndEdit manifest file edits
  let w ← get
  let r ← (BackupStore.mk (some manifest)).restoreEach
    ((order snapshots).map fun s => (s.record w).toJson) {}
  return (snapshots, r)

theorem of_backUpEditAndRestore (hnew : manifest.IsNew start) {file : String}
    {order : List Snapshot → List Snapshot} {edits : List (List UInt8 × Instant)} {r : Restoration}
    (hfile : (Path.ofString file).IsStylesheet) (hshown : ∀ edit ∈ edits, edit.2.IsShown)
    (hlater : (start.now :: edits.map Prod.snd).IsChain (· ≤ ·)) (hne : snapshots ≠ [])
    (horder : order snapshots = Snapshot.latestFirst snapshots)
    (hrun : backUpEditAndRestore manifest file order edits start = .ok (snapshots, r) w') :
  ∃ w, History manifest start snapshots w
    ∧ (BackupStore.mk (some manifest)).restoreAll w = .ok r w'
  := by
  obtain ⟨_, w, hedit, h₁⟩ := bind_eq_ok_iff.mp hrun
  obtain ⟨_, _, hget, h₂⟩ := bind_eq_ok_iff.mp h₁
  obtain ⟨rfl, rfl⟩ := EStateM.Result.ok.inj hget
  obtain ⟨_, w₂, hrestore, hpure⟩ := bind_eq_ok_iff.mp h₂
  obtain ⟨heq, rfl⟩ := EStateM.Result.ok.inj hpure
  obtain ⟨rfl, rfl⟩ := Prod.mk.inj heq
  have h := of_backUpAndEdit hnew hfile .start hshown hlater hedit
  rw [List.nil_append] at h
  refine ⟨w, h, ?_⟩
  rw [h.restoreAll_apply hnew hne, ← horder]
  exact hrestore

end History

/-! ### One stylesheet, edited twice -/

/-- A stylesheet that says that it is the first one, and no manifest. -/
def oneSheet : World :=
  { files := ({} : Files).put ["a.css"] (.file (Text.Utf8.encode "one".toList))
    now := { year := 2024, month := 1, day := 1 }
    tokens := fun i => String.ofList (Text.hex 6 i) }

theorem isNew_oneSheet :
  Manifest.IsNew ⟨Path.ofString "m"⟩ oneSheet
  := by
  refine ⟨?_, ?_, fun i => ⟨i, rfl⟩, by decide +kernel, ?_⟩
  · apply Files.IsTree.put Files.isTree_empty
    all_goals decide
  · rintro name ⟨⟩
  · constructor <;> decide

/-- The edits of the stylesheet; the clock shows an hour after each. -/
def twoEdits (hour : Nat) : List (List UInt8 × Instant) :=
  [(Text.Utf8.encode "two".toList, { oneSheet.now with hour }),
    (Text.Utf8.encode "three".toList, { oneSheet.now with hour })]

/-- A snapshot of the stylesheet. -/
def snapshotOf (hour : Nat) (copy stamp id text : String) : Snapshot :=
  { backup := { file := Path.ofString "a.css", copy := Path.ofString copy, stamp, id }
    taken := { oneSheet.now with hour }
    bytes := Text.Utf8.encode text.toList }

theorem taken_snapshotOf (hour : Nat) (copy stamp id text : String) :
  (snapshotOf hour copy stamp id text).taken = { oneSheet.now with hour }
  := rfl

deriving instance DecidableEq for Snapshot

namespace History

/-- The snapshots before the two edits, the errors with putting them back in an order, and what the
stylesheet has in the end. -/
def ofTwoEdits (order : List Snapshot → List Snapshot) (hour : Nat) :
    Option (List Snapshot × List String × Option (List UInt8)) :=
  match backUpEditAndRestore ⟨Path.ofString "m"⟩ "a.css" order (twoEdits hour) oneSheet with
  | .ok (snapshots, r) w' => some (snapshots, r.errors, w'.files.bytesAt? ["a.css"])
  | .error .. => none

theorem exists_of_ofTwoEdits {order : List Snapshot → List Snapshot} {hour : Nat}
    {bytes : List UInt8} (h : ofTwoEdits order hour = some (snapshots, [], some bytes))
    (horder : order snapshots = Snapshot.latestFirst snapshots) (hhour : hour < 24)
    (hlater : (oneSheet.now :: (twoEdits hour).map Prod.snd).IsChain (· ≤ ·))
    (hne : snapshots ≠ []) (hfile : ∀ s ∈ snapshots, s.backup.file = Path.ofString "a.css") :
  ∃ w r w', History ⟨Path.ofString "m"⟩ oneSheet snapshots w ∧ (∀ s ∈ snapshots, s.place w = ["a.css"])
    ∧ (BackupStore.mk (some ⟨Path.ofString "m"⟩)).restoreAll w = .ok r w' ∧ r.errors = []
    ∧ w'.files.bytesAt? ["a.css"] = some bytes
  := by
  unfold ofTwoEdits at h
  cases hrun : backUpEditAndRestore ⟨Path.ofString "m"⟩ "a.css" order (twoEdits hour) oneSheet with
  | error fault w' =>
      rw [hrun] at h
      cases h
  | ok answer w' =>
    obtain ⟨snapshots', r⟩ := answer
    rw [hrun] at h
    obtain ⟨rfl, hrest⟩ := Prod.mk.inj (Option.some.inj h)
    obtain ⟨herrors, hbytes⟩ := Prod.mk.inj hrest
    have hshown : ∀ edit ∈ twoEdits hour, edit.2.IsShown := by
      intro edit hedit
      have htime : edit.2 = { oneSheet.now with hour } := by
        rcases List.mem_pair.mp hedit with rfl | rfl <;> rfl
      rw [htime]
      obtain ⟨hyear, hmonth, hday, -, hminute, hsecond, hmicrosecond⟩ := isNew_oneSheet.shown
      exact ⟨hyear, hmonth, hday, hhour, hminute, hsecond, hmicrosecond⟩
    obtain ⟨w, hhistory, hrestore⟩ := of_backUpEditAndRestore isNew_oneSheet (by decide +kernel)
      hshown hlater hne horder hrun
    refine ⟨w, r, w', hhistory, ?_, hrestore, herrors, hbytes⟩
    intro s hs
    rw [Snapshot.place, hfile s hs, Files.placeOf_congr (hhistory.chronicle isNew_oneSheet).2.2.2]
    decide +kernel

end History

/-- A stylesheet that was backed up twice, with an hour in between, has in the end what it had when it
was backed up first. -/
theorem bytesAt?_restoreAll_of_history_hours :
  ∃ s t w r w', Manifest.IsNew ⟨Path.ofString "m"⟩ oneSheet
    ∧ History ⟨Path.ofString "m"⟩ oneSheet [s, t] w ∧ (List.map Snapshot.id [s, t]).Nodup
    ∧ (BackupStore.mk (some ⟨Path.ofString "m"⟩)).restoreAll w = .ok r w' ∧ r.errors = []
    ∧ s.place w = ["a.css"] ∧ t.place w = ["a.css"] ∧ t.taken ≠ s.taken
    ∧ s.bytes = Text.Utf8.encode "one".toList ∧ t.bytes = Text.Utf8.encode "two".toList
    ∧ w'.files.bytesAt? ["a.css"] = some s.bytes
  := by
  let s := snapshotOf 0 "a.css.20240101_000000.bak" "20240101_000000" "20240101_000000_000000" "one"
  let t := snapshotOf 1 "a.css.20240101_010000.bak" "20240101_010000" "20240101_010000_000001" "two"
  have hlatest : List.reverse [s, t] = Snapshot.latestFirst [s, t] := by
    rw [Snapshot.latestFirst_pair, if_neg (by decide)]
    rfl
  have hedits : History.ofTwoEdits List.reverse 1
      = some ([s, t], [], some (Text.Utf8.encode "one".toList)) := by
    decide +kernel
  obtain ⟨w, r, w', hhistory, hplace, hrestore, herrors, -⟩ :=
    History.exists_of_ofTwoEdits hedits hlatest (by decide) (by decide) (by decide)
      (by decide +kernel)
  have hids : (List.map Snapshot.id [s, t]).Nodup := by decide
  have hfirst : s.place w = ["a.css"] := hplace s (by simp)
  have hsecond : t.place w = ["a.css"] := hplace t (by simp)
  have hbytes := (bytesAt?_restoreAll_of_history isNew_oneSheet hhistory hids hrestore herrors
    (show [s, t] = [] ++ s :: [t] from rfl) (by simp)).2 (by
      rintro u hu -
      rw [List.mem_singleton.mp hu]
      decide)
  rw [hfirst] at hbytes
  exact ⟨s, t, w, r, w', isNew_oneSheet, hhistory, hids, hrestore, herrors, hfirst, hsecond,
    by decide, rfl, rfl, hbytes⟩

/-- A stylesheet that was backed up twice while the clock stood still has in the end what it had when
it was backed up again. -/
theorem bytesAt?_restoreAll_ne_first :
  ∃ s t w r w', Manifest.IsNew ⟨Path.ofString "m"⟩ oneSheet
    ∧ History ⟨Path.ofString "m"⟩ oneSheet [s, t] w ∧ (List.map Snapshot.id [s, t]).Nodup
    ∧ (BackupStore.mk (some ⟨Path.ofString "m"⟩)).restoreAll w = .ok r w' ∧ r.errors = []
    ∧ s.place w = ["a.css"] ∧ t.place w = ["a.css"] ∧ t.taken = s.taken
    ∧ w'.files.bytesAt? ["a.css"] = some t.bytes ∧ t.bytes ≠ s.bytes
  := by
  let s := snapshotOf 0 "a.css.20240101_000000.bak" "20240101_000000" "20240101_000000_000000" "one"
  let t := snapshotOf 0 "a.css.20240101_000000_000001.bak" "20240101_000000"
    "20240101_000000_000002" "two"
  have hlatest : id [s, t] = Snapshot.latestFirst [s, t] := by
    rw [Snapshot.latestFirst_pair, if_pos (by decide)]
    rfl
  have hedits : History.ofTwoEdits id 0
      = some ([s, t], [], some (Text.Utf8.encode "two".toList)) := by
    decide +kernel
  obtain ⟨w, r, w', hhistory, hplace, hrestore, herrors, hbytes⟩ :=
    History.exists_of_ofTwoEdits hedits hlatest (by decide) (by decide) (by decide)
      (by decide +kernel)
  exact ⟨s, t, w, r, w', isNew_oneSheet, hhistory, by decide, hrestore, herrors, hplace s (by simp),
    hplace t (by simp), (taken_snapshotOf ..).trans (taken_snapshotOf ..).symm, hbytes, by decide⟩

end StylePrune
