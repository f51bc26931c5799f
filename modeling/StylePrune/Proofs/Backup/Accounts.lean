import StylePrune.Proofs.Backup.Answering
import StylePrune.Proofs.Backup.Atomic
import StylePrune.Proofs.Backup.RestoringAll

/-!
# Accounting for all records

Restoring all records goes through those that are not marked, and counts each of them as restored or by
an error that names it (`BackupStore.Accounts`).  A fault with one record is passed over unless the
record lacks something that it is asked for.  So where no record does, and none of the files that are
put back is the manifest, all records are accounted for (`BackupStore.accounts_of_restoreAll`); and one
record without a hash keeps others from being restored (`BackupStore.not_accounts_of_restoreAll`).
-/

namespace StylePrune

open Job BackupStore

namespace Manifest

variable {m : Manifest} {c : Contents} {record : Json} {records : List Json} {w w' : World}

/-! ### Records that are not marked -/

/-- Whether a record is not marked as restored. -/
def isPending (record : Json) : Bool :=
  match isRestored record with
  | .ok restored => !restored
  | .error _ => false

theorem HasId.exists_isRestored (h : HasId record) :
  ∃ restored, isRestored record = .ok restored
  := by
  obtain ⟨value, hneed⟩ := h
  obtain ⟨ms, rfl, -⟩ := need_eq_ok_iff.mp hneed
  exact ⟨_, rfl⟩

theorem unrestoredOf_of_hasId (h : ∀ record ∈ records, HasId record) :
  unrestoredOf records = .ok (records.filter isPending)
  := by
  induction records with
  | nil => rfl
  | cons record rest ih =>
      obtain ⟨hrecord, hrest⟩ := List.forall_mem_cons.mp h
      obtain ⟨restored, hrestored⟩ := hrecord.exists_isRestored
      rw [unrestoredOf, hrestored, ih hrest, List.filter_cons, isPending, hrestored]
      cases restored <;> rfl

/-! ### Records that can be used -/

/-- Whether a record has an identifier and either is marked as restored, and not by a number, or has
the paths of its copy and of the original and a hash. -/
structure IsUsable (record : Json) : Prop where
  id : HasId record
  rest : (∃ mark, need record "restored" = .ok mark ∧ mark.outline.holds = true)
    ∨ (∃ copy, pathIn record "backup_path" = .ok copy) ∧ (∃ hash, need record "file_hash" = .ok hash)
      ∧ ∃ file, pathIn record "original_path" = .ok file

theorem isSeen_isUsable :
  IsSeen IsUsable
  where
  outline {record record'} houtline h := by
    refine ⟨isSeen_hasId.outline houtline h.id, h.rest.imp ?_ ?_⟩
    · rintro ⟨mark, hneed, hholds⟩
      obtain ⟨mark', hneed', heq⟩ := need_of_outline_eq houtline hneed
      exact ⟨mark', hneed', heq ▸ hholds⟩
    · rintro ⟨⟨copy, hcopy⟩, ⟨hash, hhash⟩, file, hfile⟩
      obtain ⟨hash', hhash', -⟩ := need_of_outline_eq houtline hhash
      exact ⟨⟨copy, pathIn_of_outline_eq houtline hcopy⟩, ⟨hash', hhash'⟩, file,
        pathIn_of_outline_eq houtline hfile⟩
  mark {record} h := by
    refine ⟨isSeen_hasId.mark h.id, .inl ⟨.bool true, ?_, rfl⟩⟩
    obtain ⟨value, hneed⟩ := h.id
    obtain ⟨ms, rfl, -⟩ := need_eq_ok_iff.mp hneed
    exact need_eq_ok_iff.mpr ⟨_, rfl, Json.member?_setMember ms "restored" (.bool true)⟩

theorem holds_of_holds_outline {x : Json} (h : x.outline.holds = true) :
  x.holds = true
  := by
  cases x with
  | int n => cases h
  | real r => cases h
  | arr items =>
      cases items with
      | nil => cases h
      | cons x xs => rfl
  | obj members =>
      cases members with
      | nil => cases h
      | cons member ms => rfl
  | _ => exact h

theorem IsUsable.isComplete (h : IsUsable record) :
  IsComplete record
  := by
  refine ⟨h.id, ?_⟩
  obtain ⟨restored, hrestored⟩ := h.id.exists_isRestored
  rw [hrestored]
  cases restored with
  | true => exact .inl rfl
  | false =>
      rcases h.rest with ⟨mark, hneed, hholds⟩ | hrest
      · obtain ⟨ms, rfl, hmember⟩ := need_eq_ok_iff.mp hneed
        have hmark : isRestored (.obj ms) = .ok mark.holds := by
          rw [isRestored, optional, hmember]
          rfl
        rw [hmark, holds_of_holds_outline hholds] at hrestored
        cases hrestored
      · exact .inr ⟨rfl, hrest⟩

end Manifest

namespace BackupStore

variable {manifest : Manifest} {m : BackupStore} {c : Manifest.Contents} {id record : Json}
    {records : List Json} {r r' : Restoration} {w w' : World} {touched made : Set Place} {fault : Fault}

/-! ### Accounting -/

/-- Whether each record is accounted for once: as one of those that were restored, or by one of the
errors, which starts with its identifier. -/
inductive Accounts : List Json → List Json → List String → Prop
  | nil : Accounts [] [] []
  | restored {record records restored errors} (h : Accounts records restored errors) :
      Accounts (record :: records) (record :: restored) errors
  | failed {record records restored errors id message}
      (hid : Manifest.need record "id" = .ok (.str id)) (h : Accounts records restored errors) :
      Accounts (record :: records) restored ((id ++ ": " ++ message) :: errors)

/-- Records that were gone through are accounted for. -/
theorem accounts_of_restoreEach
    (hids : ∀ record ∈ records, ∃ id, Manifest.need record "id" = .ok (.str id))
    (h : m.restoreEach records r w = .ok r' w') :
  ∃ restored errors, Accounts records restored errors
    ∧ r'.restored = r.restored ++ restored ∧ r'.errors = r.errors ++ errors
  := by
  induction records generalizing r w with
  | nil =>
      obtain ⟨rfl, -⟩ := EStateM.Result.ok.inj h
      exact ⟨[], [], .nil, (List.append_nil _).symm, (List.append_nil _).symm⟩
  | cons record rest ih =>
      obtain ⟨⟨id, hid⟩, hrest⟩ := List.forall_mem_cons.mp hids
      obtain ⟨id', hid', r₁, w₁, heach, hcase⟩ := restoreEach_cons_eq_ok h
      obtain rfl := Except.ok.inj (hid.symm.trans hid')
      obtain ⟨restored, errors, haccounts, hrestored, herrors⟩ := ih hrest heach
      rcases hcase with ⟨-, rfl⟩ | ⟨fault, rfl⟩
      · refine ⟨record :: restored, errors, .restored haccounts, ?_, herrors⟩
        rw [hrestored, List.append_assoc, List.singleton_append]
      · refine ⟨restored, (id ++ ": " ++ fault.message) :: errors, .failed hid haccounts,
          hrestored, ?_⟩
        rw [herrors, List.append_assoc, List.singleton_append]
        rfl

/-! ### One record after the other -/

/-- Whether a manifest is one of records that can be used, and restoring them leaves it so: none of the
originals is the manifest itself, and no directory stands where an original is written first, nor is
made there on the way to an original or to the manifest. -/
structure IsRestorable (manifest : Manifest) (w : World) : Prop where
  tree : w.files.IsTree
  records : manifest.Lists Manifest.IsUsable w
  apart : ∀ p ∈ manifest.originals w, w.files.placeOf manifest.path ≠ w.files.placeOf p
  clear : ∀ p ∈ manifest.originals w,
    w.files.get? (w.files.placeOf (backPath p)) ≠ some .directory
  way : ∀ p ∈ manifest.originals w, ∀ q ∈ manifest.originals w,
    w.files.placeOf (backPath p) ∉ w.files.onTheWay q.parent
  ledgerWay : ∀ p ∈ manifest.originals w,
    w.files.placeOf (backPath p) ∉ w.files.onTheWay manifest.directory

/-- Changes to other files than the manifest leave it restorable. -/
theorem IsRestorable.of_becomes (h : IsRestorable manifest w) (hw : w.Becomes touched made w')
    (hrecords : manifest.Lists Manifest.IsUsable w')
    (horiginals : manifest.originals w' ⊆ manifest.originals w)
    (hmade : ∀ p ∈ manifest.originals w, w.files.placeOf (backPath p) ∉ made) :
  IsRestorable manifest w'
  := by
  refine ⟨hw.files.tree, hrecords, ?_, ?_, ?_, ?_⟩
  · intro p hp
    rw [hw.placeOf, hw.placeOf]
    exact h.apart p (horiginals hp)
  · intro p hp hdirectory
    rw [hw.placeOf] at hdirectory
    rcases hw.files.directory _ hdirectory with hbefore | hnew
    · exact h.clear p (horiginals hp) hbefore
    · exact hmade p (horiginals hp) hnew
  · intro p hp q hq
    rw [hw.placeOf, Files.onTheWay_congr hw.files.here]
    exact h.way p (horiginals hp) q (horiginals hq)
  · intro p hp
    rw [hw.placeOf, Files.onTheWay_congr hw.files.here]
    exact h.ledgerWay p (horiginals hp)

/-- Putting the copy of an original back leaves a manifest restorable. -/
theorem IsRestorable.of_copyBack (h : IsRestorable manifest w) (copy : Path) {file : Path}
    (hfile : file ∈ manifest.originals w) :
  IsRestorable manifest (left (copyBack copy file w))
  := by
  have hw := within_copyBack h.tree ⟨h.clear file hfile, h.way file hfile file hfile⟩ copy
  have hpath := placeOf_path_notMem_pair w.files manifest (h.apart file hfile)
  apply h.of_becomes hw
  · exact (Manifest.lists_of_becomes hw hpath).mpr h.records
  · rw [Manifest.originals_of_becomes hw hpath]
  · exact fun p hp => h.way p hp file hfile

/-- Marking a record leaves a manifest restorable. -/
theorem IsRestorable.of_markRestored (h : IsRestorable manifest w) (id : Json) :
  IsRestorable manifest (left (manifest.markRestored id w))
  := by
  have hw : Within (manifest.places w) (w.files.onTheWay manifest.directory)
      (manifest.markRestored id) w :=
    Manifest.within_markRestored h.tree (Set.Subset.refl _) (Set.Subset.refl _) id
  apply h.of_becomes hw
  · exact Manifest.lists_of_markRestored h.tree Manifest.isSeen_isUsable id h.records
  · exact Manifest.originals_of_markRestored h.tree id
  · exact h.ledgerWay

/-- A usable record that cannot be marked leaves the others to be restored. -/
theorem IsRestorable.isPassedOver_of_markRestored (h : IsRestorable manifest w)
    (hmark : manifest.markRestored id w = .error fault w') :
  isPassedOver fault = true
  := by
  rcases bind_eq_error_iff.mp hmark with hread | ⟨c, w₁, hread, hrest⟩
  · exact isPassedOver_of_read hread
  have hids : ∀ record ∈ c.backups, Manifest.HasId record :=
    fun record hrecord => ((Manifest.of_read hread).2.2 _ h.records record hrecord).id
  obtain ⟨marked, hmarked⟩ := Manifest.exists_markRecords hids id
  rcases bind_eq_error_iff.mp hrest with hfailed | ⟨records, w₂, -, hwrite⟩
  · rw [hmarked] at hfailed
    cases hfailed
  · exact isPassedOver_of_calls (Manifest.failsByCalls_write (fun _ => trivial) _) hwrite

/-- A record is restored or passed over, and the manifest stays restorable. -/
theorem IsRestorable.restore (h : IsRestorable manifest w) (id : Json) :
  ∃ w', IsRestorable manifest w' ∧ ((BackupStore.mk (some manifest)).restore id w = .ok () w'
    ∨ ∃ fault, (BackupStore.mk (some manifest)).restore id w = .error fault w'
      ∧ isPassedOver fault = true)
  := by
  rcases restore_cases manifest id w with ⟨fault, hfault, hcause⟩ | ⟨c, record, hread, hfound, hcase⟩
  · refine ⟨w, h, .inr ⟨fault, hfault, hcause.resolve_right ?_⟩⟩
    rintro ⟨c, hread, record, hrecord, hnot⟩
    exact hnot ((Manifest.of_read hread).2.2 _ h.records record hrecord).isComplete
  rcases hcase with ⟨-, hok⟩ | ⟨-, copy, file, bytes, hchecked, hrun⟩
  · exact ⟨w, h, .inl hok⟩
  have hfile : file ∈ manifest.originals w :=
    Manifest.mem_originals_of_read hread (Manifest.mem_of_findRecord hfound) hchecked.original
  have h₁ := h.of_copyBack copy hfile
  rw [hrun]
  cases hback : copyBack copy file w with
  | error fault w₁ =>
      rw [hback] at h₁
      exact ⟨w₁, h₁, .inr ⟨fault, bind_of_error hback, isPassedOver_of_copyBack hback⟩⟩
  | ok _ w₁ =>
      rw [hback] at h₁
      have h₂ := h₁.of_markRestored id
      rw [bind_of_ok hback]
      cases hmark : manifest.markRestored id w₁ with
      | error fault w₂ =>
          rw [left, hmark] at h₂
          exact ⟨w₂, h₂, .inr ⟨fault, rfl, h₁.isPassedOver_of_markRestored hmark⟩⟩
      | ok _ w₂ =>
          rw [left, hmark] at h₂
          exact ⟨w₂, h₂, .inl rfl⟩

/-- Records of a manifest that is restorable are gone through to the end. -/
theorem IsRestorable.exists_restoreEach (h : IsRestorable manifest w)
    (hids : ∀ record ∈ records, Manifest.HasId record) (r : Restoration) :
  ∃ r' w', (BackupStore.mk (some manifest)).restoreEach records r w = .ok r' w'
  := by
  induction records generalizing r w with
  | nil => exact ⟨r, w, rfl⟩
  | cons record rest ih =>
      obtain ⟨⟨id, hid⟩, hrest⟩ := List.forall_mem_cons.mp hids
      obtain ⟨w₁, h₁, hok | ⟨fault, hfault, hpassed⟩⟩ := h.restore id
      · rw [restoreEach_cons_of_ok hid hok]
        exact ih h₁ hrest _
      · rw [restoreEach_cons_of_error hid hfault, if_pos hpassed]
        exact ih h₁ hrest _

/-! ### All records -/

/-- Where all records of a manifest have identifiers, those that are not marked as restored are all
accounted for when restoring them returns, and it does so if the manifest is restorable and the times
of these records can be compared. -/
theorem accounts_of_restoreAll (hread : manifest.read w = .ok c w)
    (hids : ∀ record ∈ c.backups, ∃ id, Manifest.need record "id" = .ok (.str id)) :
  (∀ r w', (BackupStore.mk (some manifest)).restoreAll w = .ok r w' →
      ∃ pending, pending.Perm (c.backups.filter Manifest.isPending)
        ∧ Accounts pending r.restored r.errors)
    ∧ (IsRestorable manifest w → Manifest.comparable (c.backups.filter Manifest.isPending) = true →
      ∃ r w', (BackupStore.mk (some manifest)).restoreAll w = .ok r w')
  := by
  have hhasId : ∀ record ∈ c.backups, Manifest.HasId record := by
    intro record hrecord
    obtain ⟨id, hid⟩ := hids record hrecord
    exact ⟨.str id, hid⟩
  have hunrestored := Manifest.unrestored_of_read hread (Manifest.unrestoredOf_of_hasId hhasId)
  have hperm : (Manifest.newestFirst (c.backups.filter Manifest.isPending)).Perm
      (c.backups.filter Manifest.isPending) :=
    List.mergeSort_perm _ _
  have hmem : ∀ record ∈ Manifest.newestFirst (c.backups.filter Manifest.isPending),
      record ∈ c.backups :=
    fun record hrecord => (List.mem_filter.mp (hperm.mem_iff.mp hrecord)).1
  cases hcomparable : Manifest.comparable (c.backups.filter Manifest.isPending) with
  | false =>
      rw [hcomparable, if_neg Bool.false_ne_true] at hunrestored
      refine ⟨?_, fun _ htrue => absurd htrue Bool.false_ne_true⟩
      intro r w' hrestore
      rw [restoreAll_apply, bind_of_error hunrestored] at hrestore
      cases hrestore
  | true =>
      rw [hcomparable, if_pos rfl] at hunrestored
      rw [restoreAll_apply, bind_of_ok hunrestored]
      constructor
      · intro r w' heach
        obtain ⟨restored, errors, haccounts, hrestored, herrors⟩ :=
          accounts_of_restoreEach (fun record hrecord => hids record (hmem record hrecord)) heach
        refine ⟨_, hperm, ?_⟩
        rw [hrestored, herrors]
        exact haccounts
      · intro h _
        exact h.exists_restoreEach (fun record hrecord => hhasId record (hmem record hrecord)) {}

/-! ### Two records -/

/-- A record of the copy without its hash. -/
def withoutHash (original : String) : Json :=
  .obj [("id", .str "j"), ("original_path", .str original), ("backup_path", .str "x.bak"),
    ("timestamp", .str "20240101_000000"), ("created_at", .str "2024-01-01T00:00:00"),
    ("reason", .str Manifest.defaultReason), ("restored", .bool false)]

theorem isPlain_withoutHash (original : String) :
  (withoutHash original).IsPlain
  := by
  simp [withoutHash, Json.IsPlain, Json.ArePlainMembers]

/-- The records of the copy and of one that is gone. -/
def copyAndGone : List Json := [copyOf "i" "a.css" "x.bak", copyOf "j" "b.css" "y.bak"]

theorem arePlainItems_copyAndGone :
  Json.ArePlainItems copyAndGone
  := ⟨isPlain_copyOf _ _ _, isPlain_copyOf _ _ _, trivial⟩

theorem originals_copyAndGone :
  Manifest.originals ⟨Path.ofString ""⟩ (oneCopy copyAndGone)
    = {Path.ofString "a.css", Path.ofString "b.css"}
  := by
  rw [originals_oneCopy arePlainItems_copyAndGone]
  ext p
  constructor
  · rintro ⟨record, hrecord, hpath⟩
    rcases List.mem_pair.mp hrecord with rfl | rfl
    · exact .inl (Except.ok.inj hpath).symm
    · exact .inr (Except.ok.inj hpath).symm
  · rintro (rfl | rfl)
    · exact ⟨_, List.mem_pair.mpr (.inl rfl), rfl⟩
    · exact ⟨_, List.mem_pair.mpr (.inr rfl), rfl⟩

theorem isRestorable_copyAndGone :
  IsRestorable ⟨Path.ofString ""⟩ (oneCopy copyAndGone)
  := by
  have hall : ∀ {P : Path → Prop}, P (Path.ofString "a.css") → P (Path.ofString "b.css") →
      ∀ p ∈ Manifest.originals ⟨Path.ofString ""⟩ (oneCopy copyAndGone), P p := by
    rw [originals_copyAndGone]
    rintro P hfirst hsecond p (rfl | rfl)
    · exact hfirst
    · exact hsecond
  have husable : ∀ record ∈ copyAndGone, Manifest.IsUsable record := by
    intro record hrecord
    rcases List.mem_pair.mp hrecord with rfl | rfl
    · exact ⟨⟨_, rfl⟩, .inr ⟨⟨_, rfl⟩, ⟨_, rfl⟩, _, rfl⟩⟩
    · exact ⟨⟨_, rfl⟩, .inr ⟨⟨_, rfl⟩, ⟨_, rfl⟩, _, rfl⟩⟩
  have hway : ∀ p q : Path, q.names = [] →
      (oneCopy copyAndGone).files.placeOf (backPath p) ≠ (oneCopy copyAndGone).files.placeOf q →
      (oneCopy copyAndGone).files.placeOf (backPath p) ∉ (oneCopy copyAndGone).files.onTheWay q := by
    intro p q hq hne
    rw [Files.mem_onTheWay_of_names_eq_nil _ hq]
    exact hne
  refine ⟨isTree_oneCopy _, ?_, hall ?_ ?_, hall ?_ ?_, hall (hall ?_ ?_) (hall ?_ ?_), hall ?_ ?_⟩
  · exact Manifest.lists_of_shows (shows_oneCopy arePlainItems_copyAndGone) husable
  · decide +kernel
  · decide +kernel
  · decide +kernel
  · decide +kernel
  all_goals
    apply hway
    · decide +kernel
    · decide +kernel

/-- Of two records one is restored, and the other one has a copy that is gone. -/
theorem accounts_of_restoreAll_copyAndGone :
  IsRestorable ⟨Path.ofString ""⟩ (oneCopy copyAndGone)
    ∧ ∃ r w', (BackupStore.mk (some ⟨Path.ofString ""⟩)).restoreAll (oneCopy copyAndGone) = .ok r w'
      ∧ r.errors = ["j: Backup file not found: y.bak"]
      ∧ ∃ pending, pending.Perm copyAndGone ∧ Accounts pending r.restored r.errors
  := by
  have hread := read_oneCopy arePlainItems_copyAndGone
  have hids : ∀ record ∈ (Manifest.Contents.empty.setBackups copyAndGone).backups,
      ∃ id, Manifest.need record "id" = .ok (.str id) := by
    intro record hrecord
    rcases List.mem_pair.mp hrecord with rfl | rfl
    · exact ⟨"i", rfl⟩
    · exact ⟨"j", rfl⟩
  obtain ⟨haccounts, hreturns⟩ := accounts_of_restoreAll hread hids
  obtain ⟨r, w', hrestore⟩ := hreturns isRestorable_copyAndGone (by decide +kernel)
  have hends : endsWith (fun r _ => decide (r.errors = ["j: Backup file not found: y.bak"]))
      (fun _ _ => false) ((BackupStore.mk (some ⟨Path.ofString ""⟩)).restoreEach copyAndGone {}
        (oneCopy copyAndGone)) = true := by
    decide +kernel
  obtain ⟨r', w'', heach, herrors⟩ := exists_of_returned hends
  have hsame := hrestore
  rw [restoreAll_apply, bind_of_ok (Manifest.unrestored_of_areInOrder hread rfl (by decide +kernel)
    (by decide +kernel))] at hsame
  obtain ⟨rfl, -⟩ := EStateM.Result.ok.inj (heach.symm.trans hsame)
  exact ⟨isRestorable_copyAndGone, _, w', hrestore, of_decide_eq_true herrors, haccounts _ w' hrestore⟩

/-- A record without a hash keeps another one from being restored. -/
theorem not_accounts_of_restoreAll :
  (oneCopy [withoutHash "b.css", copyOf "i" "a.css" "x.bak"]).files.IsTree
    ∧ Manifest.read ⟨Path.ofString ""⟩ (oneCopy [withoutHash "b.css", copyOf "i" "a.css" "x.bak"])
      = .ok (Manifest.Contents.empty.setBackups [withoutHash "b.css", copyOf "i" "a.css" "x.bak"])
        (oneCopy [withoutHash "b.css", copyOf "i" "a.css" "x.bak"])
    ∧ Manifest.need (withoutHash "b.css") "id" = .ok (.str "j")
    ∧ Manifest.need (copyOf "i" "a.css" "x.bak") "id" = .ok (.str "i")
    ∧ ∃ w', (BackupStore.mk (some ⟨Path.ofString ""⟩)).restoreAll
        (oneCopy [withoutHash "b.css", copyOf "i" "a.css" "x.bak"]) = .error .missingMember w'
      ∧ w'.files.bytesAt? ["a.css"] = none
  := by
  have hread := @read_oneCopy [withoutHash "b.css", copyOf "i" "a.css" "x.bak"]
    ⟨isPlain_withoutHash _, isPlain_copyOf _ _ _, trivial⟩
  refine ⟨isTree_oneCopy _, hread, rfl, rfl, ?_⟩
  rw [restoreAll_apply, bind_of_ok (Manifest.unrestored_of_areInOrder hread rfl (by decide +kernel)
    (by decide +kernel))]
  have hends : endsWith (fun _ _ => false) (fun fault w' => decide
      (fault = .missingMember ∧ w'.files.bytesAt? ["a.css"] = none))
      ((BackupStore.mk (some ⟨Path.ofString ""⟩)).restoreEach
        [withoutHash "b.css", copyOf "i" "a.css" "x.bak"] {}
        (oneCopy [withoutHash "b.css", copyOf "i" "a.css" "x.bak"])) = true := by
    decide +kernel
  obtain ⟨fault, w', hfails, hleft⟩ := exists_of_failed hends
  obtain ⟨rfl, hnone⟩ := of_decide_eq_true hleft
  exact ⟨w', hfails, hnone⟩

end BackupStore

end StylePrune
