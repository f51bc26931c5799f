import StylePrune.Proofs.Backup.Checking
import StylePrune.Proofs.Backup.Snapshots

/-!
# Putting all copies back

The snapshots that are not put back yet are put back one after the other, the latest first.  If that
goes without errors, each stylesheet has what it had at the last of its snapshots in this order
(`Chronicle.of_restoreAll`).
-/

namespace StylePrune

open Job BackupStore

variable {manifest : Manifest} {snapshots todo : List Snapshot} {s : Snapshot} {w w' : World}

/-! ### One record -/

theorem Manifest.find?_id_of_mem {records : List Manifest.Record} {r : Manifest.Record}
    (hids : (records.map Manifest.Record.id).Nodup) (hr : r ∈ records) :
  records.find? (fun r' => r'.id = r.id) = some r
  := by
  induction records with
  | nil => cases hr
  | cons first records ih =>
      obtain ⟨hfirst, hids⟩ := List.nodup_cons.mp hids
      rcases List.mem_cons.mp hr with rfl | hr
      · rw [List.find?_cons, decide_eq_true rfl]
      · rw [List.find?_cons, decide_eq_false, ih hids hr]
        intro heq
        apply hfirst
        rw [heq]
        exact List.mem_map_of_mem hr

/-- Restoring a record that is listed and not marked puts the copy back and marks the record. -/
theorem BackupStore.of_restore {records : List Manifest.Record} {r : Manifest.Record}
    (hshows : manifest.Shows w (Manifest.listing records))
    (hids : (records.map Manifest.Record.id).Nodup) (hr : r ∈ records) (hnot : r.restored = false)
    (h : (BackupStore.mk (some manifest)).restore (.str r.id) w = .ok () w') :
  ∃ w₁, copyBack (Path.ofString r.copy) (Path.ofString r.file) w = .ok () w₁
    ∧ manifest.markRestored (.str r.id) w₁ = .ok () w'
  := by
  rcases restore_cases manifest (.str r.id) w with ⟨fault, hfault, -⟩ | ⟨c, record, hread, hfound, hcase⟩
  · rw [hfault] at h
    cases h
  obtain ⟨-, rfl⟩ := Manifest.eq_of_read hread hshows
  rw [Manifest.backups_listing, Manifest.findRecord_map_toJson,
    Manifest.find?_id_of_mem hids hr] at hfound
  obtain rfl := Option.some.inj (Except.ok.inj hfound)
  rw [Manifest.Record.isRestored_toJson, hnot] at hcase
  rcases hcase with ⟨hrestored, -⟩ | ⟨-, copy, file, bytes, hchecked, hrun⟩
  · cases hrestored
  obtain rfl := Except.ok.inj hchecked.path
  obtain rfl := Except.ok.inj hchecked.original
  rw [hrun] at h
  obtain ⟨_, w₁, hback, hmark⟩ := bind_eq_ok_iff.mp h
  exact ⟨w₁, hback, hmark⟩

/-- Whether the stylesheet of a snapshot has what it had then, and all others are as they were. -/
structure Snapshot.IsPutBack (s : Snapshot) (w w' : World) : Prop where
  here : w'.files.here = w.files.here
  held : w'.files.bytesAt? (s.place w) = some s.bytes
  others : ∀ place, Files.IsStylesheetAt place → place ≠ s.place w →
    w'.files.bytesAt? place = w.files.bytesAt? place

namespace Chronicle

/-- Putting the copy of a snapshot back keeps what the manifest lists. -/
theorem of_copyBack (h : Chronicle manifest snapshots w) (hs : s ∈ snapshots)
    (hback : copyBack (Path.fromRoot (s.copyPlace w)) (Path.fromRoot (s.place w)) w = .ok () w') :
  Chronicle manifest snapshots w' ∧ s.IsPutBack w w'
  := by
  have hsound := h.sound s hs
  have hplace : ∀ fs : Files, fs.placeOf (Path.fromRoot (s.place w)) = s.place w :=
    fun fs => Files.placeOf_fromRoot hsound.proper
  have hnames : (Path.fromRoot (s.place w)).names ≠ [] := by
    intro hnil
    have hstylesheet := hsound.isStylesheetAt
    rw [show s.place w = [] from hnil] at hstylesheet
    exact hstylesheet.suffixAt_ne (s := "") (by decide) (by decide)
  obtain ⟨bytes, w₁, hmade, hcopy, hheld, hbecomes⟩ := BackupStore.of_copyBack h.tree hnames
    (by rw [hplace]; exact hsound.there) (Set.subset_univ _) hback
  have hbytes : bytes = s.bytes := by
    have hthere := hcopy.bytes
    rw [Files.placeOf_fromRoot hsound.copyProper, hmade.files.bytes _ (Set.notMem_empty _),
      hsound.held] at hthere
    exact (Option.some.inj hthere).symm
  have hput : w'.files.bytesAt? (s.place w) = some s.bytes := by
    have hthere := hheld.bytes
    rw [hplace, hbytes] at hthere
    exact hthere
  rw [hplace] at hbecomes
  have hleft : ∀ place, Files.IsStylesheetAt place → place ≠ s.place w →
      w'.files.bytesAt? place = w.files.bytesAt? place := by
    intro place hstylesheet hne
    apply hbecomes.files.bytes
    rintro (heq | htemporary)
    · exact hne heq
    · exact not_isStylesheetAt_of_mem_temporaries htemporary hstylesheet
  refine ⟨?_, hbecomes.files.here, hput, hleft⟩
  apply h.of_becomes hbecomes
  · rintro (heq | htemporary)
    · exact path_ne (.inr (.inr hsound.isStylesheetAt)) heq
    · exact path_ne (.inr (.inl htemporary)) rfl
  · rintro place (rfl | htemporary) hsuffix
    · exact absurd hsuffix (hsound.isStylesheetAt.suffixAt_ne (by decide))
    · exact absurd hsuffix (suffixAt_ne_of_mem_temporaries htemporary)
  · intro t ht
    by_cases heq : t.place w = s.place w
    · rw [heq, hput]
      rintro ⟨⟩
    · rw [hleft _ (h.sound t ht).isStylesheetAt heq]
      exact (h.sound t ht).there

/-- A snapshot that was put back gives its stylesheet what that had, and leaves all others. -/
theorem of_restore (h : Chronicle manifest snapshots w) (hids : (snapshots.map Snapshot.id).Nodup)
    (hs : s ∈ snapshots) (hnot : s.restored = false)
    (hrestore : (BackupStore.mk (some manifest)).restore (.str s.id) w = .ok () w') :
  Chronicle manifest (Snapshot.marking s.id snapshots) w' ∧ s.IsPutBack w w'
  := by
  have hsound := h.sound s hs
  have hrecords : ((snapshots.map (Snapshot.record w)).map Manifest.Record.id).Nodup := by
    rw [List.map_map]
    exact hids
  obtain ⟨w₁, hback, hmark⟩ := BackupStore.of_restore (r := s.record w) h.shows hrecords
    (List.mem_map_of_mem hs) hnot hrestore
  have hback' : copyBack (Path.fromRoot (s.copyPlace w)) (Path.fromRoot (s.place w)) w
      = .ok () w₁ := by
    rw [← Files.ofString_toString_of_isProper hsound.proper,
      ← Files.ofString_toString_of_isProper hsound.copyProper]
    exact hback
  obtain ⟨h₁, hput⟩ := h.of_copyBack hs hback'
  obtain ⟨h', hledger⟩ := h₁.of_markRestored hids hmark
  have hstay : ∀ place, Files.IsStylesheetAt place →
      w'.files.bytesAt? place = w₁.files.bytesAt? place := by
    intro place hstylesheet
    apply hledger.files.bytes
    intro hplace
    exact not_isStylesheetAt_of_mem_ledger hplace hstylesheet
  refine ⟨h', hledger.files.here.trans hput.here, ?_, ?_⟩
  · rw [hstay _ hsound.isStylesheetAt]
    exact hput.held
  · intro place hstylesheet hne
    rw [hstay place hstylesheet]
    exact hput.others place hstylesheet hne

end Chronicle

/-! ### One record after the other -/

section

variable {m : BackupStore} {id record : Json} {records rest : List Json} {r r' : Restoration} {w₁ : World}

/-- Restoring goes on with the next record after one that was restored. -/
theorem BackupStore.restoreEach_cons_of_ok (hid : Manifest.need record "id" = .ok id)
    (h : m.restore id w = .ok () w₁) :
  m.restoreEach (record :: rest) r w
    = m.restoreEach rest { r with restored := r.restored ++ [record] } w₁
  := by
  rw [restoreEach, bind_of_ok (ofExcept_eq_ok_iff.mpr ⟨hid, rfl⟩)]
  exact bind_of_ok (tryCatch_eq_ok_iff.mpr (.inl (bind_of_ok h)))

/-- Restoring goes on with the next record after one that was passed over, and ends otherwise. -/
theorem BackupStore.restoreEach_cons_of_error {fault : Fault}
    (hid : Manifest.need record "id" = .ok id) (h : m.restore id w = .error fault w₁) :
  m.restoreEach (record :: rest) r w
    = if isPassedOver fault then m.restoreEach rest
        { r with errors := r.errors ++ [id.describe ++ ": " ++ fault.message] } w₁
      else .error fault w₁
  := by
  rw [restoreEach, bind_of_ok (ofExcept_eq_ok_iff.mpr ⟨hid, rfl⟩)]
  cases hpassed : isPassedOver fault with
  | true =>
      apply bind_of_ok
      apply tryCatch_eq_ok_iff.mpr (.inr ⟨fault, w₁, bind_of_error h, _⟩)
      rw [hpassed]
      rfl
  | false =>
      apply bind_of_error
      apply tryCatch_eq_error_iff.mpr ⟨fault, w₁, bind_of_error h, _⟩
      rw [hpassed]
      rfl

/-- Each record is counted as restored, or an error that names it is. -/
theorem BackupStore.restoreEach_cons_eq_ok (h : m.restoreEach (record :: rest) r w = .ok r' w') :
  ∃ id, Manifest.need record "id" = .ok id ∧ ∃ r₁ w₁, m.restoreEach rest r₁ w₁ = .ok r' w'
    ∧ (m.restore id w = .ok () w₁ ∧ r₁ = { r with restored := r.restored ++ [record] }
      ∨ ∃ fault : Fault, r₁ = { r with errors := r.errors ++ [id.describe ++ ": " ++ fault.message] })
  := by
  obtain ⟨id, _, hneed, -⟩ := bind_eq_ok_iff.mp h
  obtain ⟨hid, -⟩ := ofExcept_eq_ok_iff.mp hneed
  refine ⟨id, hid, ?_⟩
  cases hrestore : m.restore id w with
  | ok _ w₁ =>
      rw [restoreEach_cons_of_ok hid hrestore] at h
      exact ⟨_, w₁, h, .inl ⟨rfl, rfl⟩⟩
  | error fault w₁ =>
      rw [restoreEach_cons_of_error hid hrestore] at h
      split at h
      · exact ⟨_, w₁, h, .inr ⟨fault, rfl⟩⟩
      · cases h

/-- Errors are only added to. -/
theorem BackupStore.errors_isPrefix_of_restoreEach (h : m.restoreEach records r w = .ok r' w') :
  r.errors <+: r'.errors
  := by
  induction records generalizing r w with
  | nil =>
      obtain ⟨rfl, -⟩ := EStateM.Result.ok.inj h
      exact List.prefix_rfl
  | cons record rest ih =>
      obtain ⟨id, -, r₁, w₁, hrest, ⟨-, rfl⟩ | ⟨fault, rfl⟩⟩ := restoreEach_cons_eq_ok h
      · have hinitial := ih hrest
        exact hinitial
      · exact (List.prefix_append _ _).trans (ih hrest)

end

/-- Whether each stylesheet has what it had at its last snapshot of a list, and is as it was where the
list has none of it. -/
structure PutBack (todo : List Snapshot) (w w' : World) : Prop where
  others : ∀ place, Files.IsStylesheetAt place → (∀ s ∈ todo, s.place w ≠ place) →
    w'.files.bytesAt? place = w.files.bytesAt? place
  last : ∀ front s rest, todo = front ++ s :: rest → (∀ t ∈ rest, t.place w ≠ s.place w) →
    w'.files.bytesAt? (s.place w) = some s.bytes

theorem PutBack.nil (w : World) :
  PutBack [] w w
  := by
  refine ⟨fun _ _ _ => rfl, ?_⟩
  intro front s rest hnil
  exact absurd hnil.symm (List.append_ne_nil_of_right_ne_nil _ (List.cons_ne_nil _ _))

/-- A snapshot that is put back before others are. -/
theorem PutBack.cons {w₁ : World} (h : PutBack todo w₁ w') (hput : s.IsPutBack w w₁)
    (hstylesheet : Files.IsStylesheetAt (s.place w)) :
  PutBack (s :: todo) w w'
  := by
  have hplace : ∀ t : Snapshot, t.place w₁ = t.place w := Snapshot.place_congr hput.here
  constructor
  · intro place hplace' hnever
    rw [h.others place hplace', hput.others place hplace']
    · exact (hnever s List.mem_cons_self).symm
    · intro t ht
      rw [hplace]
      exact hnever t (List.mem_cons_of_mem s ht)
  · intro front t rest heq hlast
    cases front with
    | nil =>
        obtain ⟨rfl, rfl⟩ := List.cons.inj heq
        rw [h.others _ hstylesheet]
        · exact hput.held
        · intro t ht
          rw [hplace]
          exact hlast t ht
    | cons first front =>
        obtain ⟨-, rfl⟩ := List.cons.inj heq
        rw [← hplace]
        apply h.last front t rest rfl
        intro t' ht'
        rw [hplace, hplace]
        exact hlast t' ht'

namespace Chronicle

/-- Snapshots that are put back one after the other, without an error. -/
theorem of_restoreEach (h : Chronicle manifest snapshots w) (hids : (snapshots.map Snapshot.id).Nodup)
    (htodo : ∀ s ∈ todo, s ∈ snapshots ∧ s.restored = false)
    (hdistinct : (todo.map Snapshot.id).Nodup) {r r' : Restoration}
    (hrestore : (BackupStore.mk (some manifest)).restoreEach
      (todo.map fun s => (s.record w).toJson) r w = .ok r' w')
    (herrors : r'.errors = []) :
  PutBack todo w w'
  := by
  induction todo generalizing snapshots r w with
  | nil =>
      obtain ⟨-, rfl⟩ := EStateM.Result.ok.inj hrestore
      exact .nil w
  | cons s todo ih =>
      obtain ⟨id, hid, r₁, w₁, hrest, hcase⟩ := restoreEach_cons_eq_ok hrestore
      rw [Manifest.Record.need_id] at hid
      obtain rfl := Except.ok.inj hid
      -- errors are only added, so the first snapshot was put back without one
      have hnone : r₁.errors = [] := by
        have hinitial := errors_isPrefix_of_restoreEach hrest
        rw [herrors] at hinitial
        exact List.prefix_nil.mp hinitial
      have hrestored : (BackupStore.mk (some manifest)).restore (.str s.id) w = .ok () w₁ := by
        rcases hcase with ⟨hok, -⟩ | ⟨fault, rfl⟩
        · exact hok
        · exact absurd hnone (List.append_ne_nil_of_right_ne_nil _ (List.cons_ne_nil _ _))
      obtain ⟨hs, hnot⟩ := htodo s List.mem_cons_self
      obtain ⟨hnotMem, hdistinct'⟩ := List.nodup_cons.mp hdistinct
      obtain ⟨h₁, hput⟩ := h.of_restore hids hs hnot hrestored
      have hlater : PutBack todo w₁ w' := by
        apply ih h₁ _ _ hdistinct'
        · rw [Snapshot.record_congr hput.here]
          exact hrest
        · rw [Snapshot.map_id_marking]
          exact hids
        · intro t ht
          obtain ⟨ht', hnot'⟩ := htodo t (List.mem_cons_of_mem s ht)
          refine ⟨Snapshot.mem_marking_of_id_ne ht' ?_, hnot'⟩
          intro heq
          exact hnotMem (heq ▸ List.mem_map_of_mem ht)
      exact hlater.cons hput (h.sound s hs).isStylesheetAt

end Chronicle

/-! ### All records -/

/-- Snapshots with the latest first; of those that were taken at one time, the one that was taken
first comes first. -/
def Snapshot.latestFirst (snapshots : List Snapshot) : List Snapshot :=
  snapshots.mergeSort fun s t => !decide (s.taken.iso < t.taken.iso)

/-- The snapshots that are not put back yet, in the order in which they are. -/
def Snapshot.pending (snapshots : List Snapshot) : List Snapshot :=
  latestFirst (snapshots.filter fun s => !s.restored)

theorem Snapshot.mem_pending_iff :
  s ∈ Snapshot.pending snapshots ↔ s ∈ snapshots ∧ s.restored = false
  := by
  rw [pending, latestFirst, List.mem_mergeSort, List.mem_filter, Bool.not_eq_true']

theorem Snapshot.nodup_pending (h : (snapshots.map Snapshot.id).Nodup) :
  ((Snapshot.pending snapshots).map Snapshot.id).Nodup
  := by
  rw [pending, latestFirst]
  apply ((List.mergeSort_perm _ _).map Snapshot.id).nodup_iff.mpr
  exact h.sublist (List.filter_sublist.map _)

/-- The records that are put back are those of the snapshots. -/
theorem Snapshot.map_record_pending (snapshots : List Snapshot) (w : World) :
  Manifest.latestFirst ((snapshots.map (Snapshot.record w)).filter (!·.restored))
    = (Snapshot.pending snapshots).map (Snapshot.record w)
  := by
  rw [Manifest.latestFirst, pending, latestFirst, List.filter_map, List.map_mergeSort]
  · rfl
  · exact fun _ _ _ _ => rfl

theorem Manifest.eq_of_unrestored {records : List Manifest.Record} {found : List Json}
    (hshows : manifest.Shows w (Manifest.listing records))
    (h : manifest.unrestored w = .ok found w') :
  w' = w
    ∧ found = (Manifest.latestFirst (records.filter (!·.restored))).map Manifest.Record.toJson
  := by
  obtain ⟨all, w₁, hall, -⟩ := bind_eq_ok_iff.mp h
  obtain ⟨c, w₂, hread, -⟩ := bind_eq_ok_iff.mp hall
  obtain ⟨rfl, rfl⟩ := Manifest.eq_of_read hread hshows
  rw [unrestored_of_read_listing hread] at h
  obtain ⟨rfl, rfl⟩ := EStateM.Result.ok.inj h
  exact ⟨rfl, rfl⟩

/-- The records that a manifest lists are answered with, the newest first. -/
theorem Manifest.unrestored_apply {records : List Manifest.Record}
    (hshows : manifest.Shows w (Manifest.listing records)) (hne : records ≠ []) :
  manifest.unrestored w
    = .ok ((Manifest.latestFirst (records.filter (!·.restored))).map Manifest.Record.toJson) w
  := unrestored_of_read_listing (hshows.read hne)

theorem BackupStore.restoreAll_apply (manifest : Manifest) (w : World) :
  (BackupStore.mk (some manifest)).restoreAll w
    = (manifest.unrestored >>= fun pending =>
        (BackupStore.mk (some manifest)).restoreEach pending {}) w
  := rfl

namespace Chronicle

/-- Where all is put back without an error, each stylesheet has what it had at the last of its
snapshots, the latest of which come first. -/
theorem of_restoreAll (h : Chronicle manifest snapshots w)
    (hids : (snapshots.map Snapshot.id).Nodup) {r : Restoration}
    (hrestore : (BackupStore.mk (some manifest)).restoreAll w = .ok r w')
    (herrors : r.errors = []) :
  PutBack (Snapshot.pending snapshots) w w'
  := by
  obtain ⟨_, _, hneed, hrest⟩ := bind_eq_ok_iff.mp hrestore
  obtain ⟨rfl, rfl⟩ := EStateM.Result.ok.inj hneed
  obtain ⟨found, w₁, hfound, heach⟩ := bind_eq_ok_iff.mp hrest
  obtain ⟨rfl, rfl⟩ := Manifest.eq_of_unrestored h.shows hfound
  rw [Snapshot.map_record_pending, List.map_map] at heach
  exact h.of_restoreEach hids (fun s => Snapshot.mem_pending_iff.mp) (Snapshot.nodup_pending hids)
    heach herrors

end Chronicle

/-! ### Records that are in order -/

/-- Whether records stand with the newest first already. -/
def Manifest.AreInOrder (records : List Json) : Prop :=
  records.Pairwise fun r s => (!((createdOf r).less? (createdOf s)).getD false) = true

instance (records : List Json) : Decidable (Manifest.AreInOrder records) :=
  inferInstanceAs (Decidable (List.Pairwise _ _))

theorem Manifest.newestFirst_of_areInOrder {records : List Json}
    (h : Manifest.AreInOrder records) :
  Manifest.newestFirst records = records
  := List.mergeSort_of_pairwise h

theorem Manifest.unrestored_of_areInOrder {c : Manifest.Contents} {pending : List Json}
    (hread : manifest.read w = .ok c w) (hpending : Manifest.unrestoredOf c.backups = .ok pending)
    (hcomparable : Manifest.comparable pending = true) (horder : Manifest.AreInOrder pending) :
  manifest.unrestored w = .ok pending w
  := by
  rw [unrestored_of_read hread hpending, if_pos hcomparable, newestFirst_of_areInOrder horder]

/-- Puts back what is not put back yet as it is listed, and says whether that was in order. -/
def BackupStore.restoreListed (manifest : Manifest) : Job (Bool × Restoration) := do
  let pending ← Job.ofExcept (Manifest.unrestoredOf (← manifest.all))
  let r ← (BackupStore.mk (some manifest)).restoreEach pending {}
  return (Manifest.comparable pending && decide (Manifest.AreInOrder pending), r)

/-- Records that are in order are put back as they are listed. -/
theorem BackupStore.restoreAll_of_restoreListed {r : Restoration}
    (h : restoreListed manifest w = .ok (true, r) w') :
  (BackupStore.mk (some manifest)).restoreAll w = .ok r w'
  := by
  obtain ⟨all, w₁, hall, h₁⟩ := bind_eq_ok_iff.mp h
  obtain ⟨c, w₂, hread, hpure⟩ := bind_eq_ok_iff.mp hall
  obtain ⟨rfl, rfl⟩ := EStateM.Result.ok.inj hpure
  obtain rfl := Manifest.world_of_read hread
  obtain ⟨pending, w₃, hpending, h₂⟩ := bind_eq_ok_iff.mp h₁
  obtain ⟨hlisted, rfl⟩ := ofExcept_eq_ok_iff.mp hpending
  obtain ⟨r', w₄, heach, hpure⟩ := bind_eq_ok_iff.mp h₂
  obtain ⟨heq, rfl⟩ := EStateM.Result.ok.inj hpure
  obtain ⟨htrue, rfl⟩ := Prod.mk.inj heq
  obtain ⟨hcomparable, horder⟩ := Bool.and_eq_true_iff.mp htrue
  rw [restoreAll_apply, bind_of_ok (Manifest.unrestored_of_areInOrder hread hlisted hcomparable
    (of_decide_eq_true horder))]
  exact heach

end StylePrune
