import StylePrune.Proofs.Backup.Restoring

/-!
# What restoring a record comes to

Restoring looks up the first record with an identifier and checks its copy before it changes anything
(`BackupStore.restore_cases`): either it ends and leaves the world as it is, or it puts the copy back
and marks the record.
-/

namespace StylePrune

open Job

namespace Manifest

variable {id record : Json} {front rest records : List Json}

/-! ### The first record with an identifier -/

/-- Whether a record has an identifier, if it has any. -/
def isOf (id record : Json) : Except Fault Bool := return (← need record "id").agrees id

theorem isOf_eq_ok_iff {b : Bool} :
  isOf id record = .ok b ↔ ∃ value, need record "id" = .ok value ∧ value.agrees id = b
  := by
  rw [isOf]
  cases need record "id" with
  | error fault => simp [bind, Except.bind]
  | ok value => simp [bind, Except.bind, pure, Except.pure]

theorem findRecord_cons_of_isOf {b : Bool} (h : isOf id record = .ok b) :
  findRecord id (record :: rest) = if b then .ok (some record) else findRecord id rest
  := by
  obtain ⟨value, hneed, rfl⟩ := isOf_eq_ok_iff.mp h
  rw [findRecord, hneed]
  rfl

theorem markRecords_cons_of_isOf {b : Bool} (h : isOf id record = .ok b) :
  markRecords id (record :: rest)
    = if b then .ok (markRecord record :: rest) else (markRecords id rest).map (record :: ·)
  := by
  obtain ⟨value, hneed, rfl⟩ := isOf_eq_ok_iff.mp h
  rw [markRecords, hneed]
  change (if value.agrees id then _ else _) = _
  cases markRecords id rest <;> rfl

theorem isOf_of_findRecord_cons {found : Option Json} (h : findRecord id (record :: rest) = .ok found) :
  ∃ b, isOf id record = .ok b
  := by
  rw [findRecord] at h
  cases hneed : need record "id" with
  | error fault =>
      rw [hneed] at h
      cases h
  | ok value => exact ⟨_, isOf_eq_ok_iff.mpr ⟨value, hneed, rfl⟩⟩

/-- The record that is found is the first with the identifier. -/
theorem exists_split_of_findRecord (h : findRecord id records = .ok (some record)) :
  ∃ front rest, records = front ++ record :: rest ∧ (∀ r ∈ front, isOf id r = .ok false)
    ∧ isOf id record = .ok true
  := by
  induction records with
  | nil => cases h
  | cons first records ih =>
      obtain ⟨b, hb⟩ := isOf_of_findRecord_cons h
      rw [findRecord_cons_of_isOf hb] at h
      cases b with
      | true =>
          obtain rfl := Option.some.inj (Except.ok.inj h)
          exact ⟨[], records, rfl, List.forall_mem_nil _, hb⟩
      | false =>
          obtain ⟨front, rest, rfl, hfront, hrecord⟩ := ih h
          exact ⟨first :: front, rest, rfl, List.forall_mem_cons.mpr ⟨hb, hfront⟩, hrecord⟩

theorem mem_of_findRecord (h : findRecord id records = .ok (some record)) :
  record ∈ records
  := by
  obtain ⟨front, rest, rfl, -⟩ := exists_split_of_findRecord h
  exact List.mem_append_right front List.mem_cons_self

/-- The first record with an identifier is marked, and all others are left. -/
theorem markRecords_append (hfront : ∀ r ∈ front, isOf id r = .ok false)
    (hrecord : isOf id record = .ok true) :
  markRecords id (front ++ record :: rest) = .ok (front ++ markRecord record :: rest)
  := by
  induction front with
  | nil => exact markRecords_cons_of_isOf hrecord
  | cons first front ih =>
      obtain ⟨hfirst, hfront⟩ := List.forall_mem_cons.mp hfront
      rw [List.cons_append, markRecords_cons_of_isOf hfirst, ih hfront]
      rfl

/-- Looking a record up fails at one without an identifier. -/
theorem exists_of_findRecord_eq_error {fault : Fault} (h : findRecord id records = .error fault) :
  ∃ record ∈ records, ∃ fault, need record "id" = .error fault
  := by
  induction records with
  | nil => cases h
  | cons first records ih =>
      cases hneed : need first "id" with
      | error fault => exact ⟨first, List.mem_cons_self, fault, hneed⟩
      | ok value =>
          rw [findRecord_cons_of_isOf (isOf_eq_ok_iff.mpr ⟨value, hneed, rfl⟩)] at h
          split at h
          · cases h
          · obtain ⟨record, hrecord, hfault⟩ := ih h
            exact ⟨record, List.mem_cons_of_mem first hrecord, hfault⟩

end Manifest

namespace BackupStore

variable {manifest : Manifest} {id record : Json} {copy file : Path} {bytes : List UInt8}
    {w w' : World} {fault : Fault}

/-! ### Checking a record -/

/-- Whether a record has what restoring asks it for: an identifier, and, unless it is marked as
restored, the paths of its copy and of the original and a hash. -/
structure IsComplete (record : Json) : Prop where
  id : ∃ value, Manifest.need record "id" = .ok value
  rest : Manifest.isRestored record = .ok true
    ∨ Manifest.isRestored record = .ok false ∧ (∃ copy, pathIn record "backup_path" = .ok copy)
      ∧ (∃ hash, Manifest.need record "file_hash" = .ok hash)
      ∧ ∃ file, pathIn record "original_path" = .ok file

theorem IsComplete.exists_of_not_restored (h : IsComplete record)
    (hnot : Manifest.isRestored record = .ok false) :
  (∃ copy, pathIn record "backup_path" = .ok copy)
    ∧ (∃ hash, Manifest.need record "file_hash" = .ok hash)
    ∧ ∃ file, pathIn record "original_path" = .ok file
  := by
  rcases h.rest with hrestored | ⟨-, hrest⟩
  · rw [hrestored] at hnot
    cases hnot
  · exact hrest

/-- What is found out about a record before its copy is put back. -/
structure IsChecked (record : Json) (copy file : Path) (bytes : List UInt8) (w : World) : Prop where
  path : pathIn record "backup_path" = .ok copy
  original : pathIn record "original_path" = .ok file
  held : w.Holds copy bytes
  hash : Manifest.need record "file_hash" = .ok (.str (Digest.Sha256.digest bytes))

theorem str_agrees_iff {s : String} {x : Json} :
  (Json.str s).agrees x = true ↔ x = .str s
  := by
  cases x with
  | str t =>
      rw [Json.agrees, beq_iff_eq, Json.str.injEq]
      exact eq_comm
  | _ => simp [Json.agrees, Json.numeric, Json.Numeric.agrees]

/-- A call that fails with one record leaves the others to be restored. -/
theorem isPassedOver_of_calls {α : Type} {x : Job α} (hx : FailsByCalls True x)
    (h : x w = .error fault w') :
  isPassedOver fault = true
  := by
  rcases hx w fault w' h with ⟨error, rfl⟩ | ⟨rfl, -⟩
  · rfl
  · rfl

theorem failsByCalls_doesExist {null : Prop} (p : Path) :
  FailsByCalls null (doesExist p)
  := .bind (.find? p) fun _ => .pure _

theorem isPassedOver_of_read (h : manifest.read w = .error fault w') :
  isPassedOver fault = true
  := by
  obtain rfl | ⟨cause, rfl⟩ := Manifest.fault_of_read h
  · rfl
  · rfl

/-- Putting the copy of a record back if it has the hash that was recorded, and marking the record. -/
def verifying (manifest : Manifest) (id record : Json) (copy : Path) : Job Unit := do
  let hash ← Job.hash copy
  if !(Json.str hash).agrees (← Job.ofExcept (Manifest.need record "file_hash")) then
    throw (.backup (.copyAltered copy))
  copyBack copy (← Job.ofExcept (pathIn record "original_path"))
  manifest.markRestored id

/-- Restoring a record that was found. -/
def restoring (manifest : Manifest) (id record : Json) : Job Unit := do
  if ← Job.ofExcept (Manifest.isRestored record) then return
  let copy ← Job.ofExcept (pathIn record "backup_path")
  if !(← Job.doesExist copy) then throw (.backup (.copyMissing copy))
  verifying manifest id record copy

theorem restore_apply (manifest : Manifest) (id : Json) (w : World) :
  (BackupStore.mk (some manifest)).restore id w
    = (manifest.find? id >>= fun found =>
        match found with
        | some record => restoring manifest id record
        | none => throw (.unknownBackup id.describe)) w
  := by
  rw [restore]
  refine congrArg (fun rest => (manifest.find? id >>= rest) w) (funext fun found => ?_)
  cases found with
  | none => rfl
  | some record => rfl

theorem except_cases {α : Type} (e : Except Fault α) :
  (∃ fault, e = .error fault) ∨ ∃ a, e = .ok a
  := by
  cases e with
  | error fault => exact .inl ⟨fault, rfl⟩
  | ok a => exact .inr ⟨a, rfl⟩

/-- A job that only looks fails or answers in the world as it is. -/
theorem cases_of_left_eq {α : Type} {x : Job α} (h : left (x w) = w) :
  (∃ fault, x w = .error fault w) ∨ ∃ a, x w = .ok a w
  := by
  cases hx : x w with
  | error fault w' =>
      rw [hx] at h
      exact .inl ⟨fault, congrArg _ h⟩
  | ok a w' =>
      rw [hx] at h
      exact .inr ⟨a, congrArg _ h⟩

/-- The copy of a record is put back only if it has the hash that was recorded. -/
theorem verifying_cases (manifest : Manifest) (id : Json) (w : World)
    (hpath : pathIn record "backup_path" = .ok copy)
    (hnot : Manifest.isRestored record = .ok false) :
  (∃ fault, verifying manifest id record copy w = .error fault w
      ∧ (isPassedOver fault = true ∨ ¬ IsComplete record))
    ∨ ∃ file bytes, IsChecked record copy file bytes w
      ∧ verifying manifest id record copy w
        = (copyBack copy file >>= fun _ => manifest.markRestored id) w
  := by
  rw [verifying]
  rcases cases_of_left_eq (left_hash copy w) with ⟨fault, hfault⟩ | ⟨hash, hhash⟩
  · refine .inl ⟨fault, bind_of_error hfault, .inl ?_⟩
    exact isPassedOver_of_calls (FailsByCalls.hash fun _ => trivial) hfault
  rw [bind_of_ok hhash]
  obtain ⟨bytes, hheld, rfl, -⟩ := hash_eq_ok_iff.mp hhash
  rcases except_cases (Manifest.need record "file_hash") with ⟨fault, hfault⟩ | ⟨recorded, hrecorded⟩
  · refine .inl ⟨fault, bind_of_error (by rw [hfault]; rfl), .inr fun hcomplete => ?_⟩
    obtain ⟨-, ⟨hash, hhash⟩, -⟩ := hcomplete.exists_of_not_restored hnot
    rw [hfault] at hhash
    cases hhash
  rw [bind_of_ok (ofExcept_eq_ok_iff.mpr ⟨hrecorded, rfl⟩)]
  cases hagrees : (Json.str (Digest.Sha256.digest bytes)).agrees recorded with
  | false => exact .inl ⟨_, rfl, .inl rfl⟩
  | true =>
      rw [Bool.not_true, if_neg Bool.false_ne_true]
      rcases except_cases (pathIn record "original_path") with ⟨fault, hfault⟩ | ⟨file, horiginal⟩
      · refine .inl ⟨fault, bind_of_error (by rw [hfault]; rfl), .inr fun hcomplete => ?_⟩
        obtain ⟨-, -, file, hfile⟩ := hcomplete.exists_of_not_restored hnot
        rw [hfault] at hfile
        cases hfile
      · rw [str_agrees_iff.mp hagrees] at hrecorded
        refine .inr ⟨file, bytes, ⟨hpath, horiginal, hheld, hrecorded⟩, ?_⟩
        exact bind_of_ok (ofExcept_eq_ok_iff.mpr ⟨horiginal, rfl⟩)

/-- A record that was found is checked before anything is changed. -/
theorem restoring_cases (manifest : Manifest) (id record : Json) (w : World) :
  (∃ fault, restoring manifest id record w = .error fault w
      ∧ (isPassedOver fault = true ∨ ¬ IsComplete record))
    ∨ Manifest.isRestored record = .ok true ∧ restoring manifest id record w = .ok () w
    ∨ Manifest.isRestored record = .ok false ∧ ∃ copy file bytes, IsChecked record copy file bytes w
      ∧ restoring manifest id record w
        = (copyBack copy file >>= fun _ => manifest.markRestored id) w
  := by
  rcases except_cases (Manifest.isRestored record) with ⟨fault, hfault⟩ | ⟨restored, hrestored⟩
  · refine .inl ⟨fault, bind_of_error (by rw [hfault]; rfl), .inr fun hcomplete => ?_⟩
    rcases hcomplete.rest with h | ⟨h, -⟩ <;> rw [hfault] at h <;> cases h
  rw [restoring, bind_of_ok (ofExcept_eq_ok_iff.mpr ⟨hrestored, rfl⟩)]
  cases restored with
  | true => exact .inr (.inl ⟨hrestored, rfl⟩)
  | false =>
      rw [if_neg Bool.false_ne_true]
      rcases except_cases (pathIn record "backup_path") with ⟨fault, hfault⟩ | ⟨copy, hpath⟩
      · refine .inl ⟨fault, bind_of_error (by rw [hfault]; rfl), .inr fun hcomplete => ?_⟩
        obtain ⟨⟨copy, hcopy⟩, -⟩ := hcomplete.exists_of_not_restored hrestored
        rw [hfault] at hcopy
        cases hcopy
      rw [bind_of_ok (ofExcept_eq_ok_iff.mpr ⟨hpath, rfl⟩)]
      rcases cases_of_left_eq (left_doesExist copy w) with ⟨fault, hfault⟩ | ⟨found, hfound⟩
      · refine .inl ⟨fault, bind_of_error hfault, .inl ?_⟩
        exact isPassedOver_of_calls (failsByCalls_doesExist copy) hfault
      rw [bind_of_ok hfound]
      cases found with
      | false => exact .inl ⟨_, rfl, .inl rfl⟩
      | true =>
          rcases verifying_cases manifest id w hpath hrestored with h | ⟨file, bytes, hchecked, h⟩
          · exact .inl h
          · exact .inr (.inr ⟨hrestored, copy, file, bytes, hchecked, h⟩)

/-- Looking a record up fails with a fault that is passed over, or at an incomplete record. -/
theorem find?_cases (manifest : Manifest) (id : Json) (w : World) :
  (∃ fault, manifest.find? id w = .error fault w ∧ (isPassedOver fault = true
      ∨ ∃ c, manifest.read w = .ok c w ∧ ∃ record ∈ c.backups, ¬ IsComplete record))
    ∨ ∃ c found, manifest.read w = .ok c w ∧ Manifest.findRecord id c.backups = .ok found
      ∧ manifest.find? id w = .ok found w
  := by
  rw [Manifest.find?]
  rcases cases_of_left_eq (Manifest.left_read manifest w) with ⟨fault, hfault⟩ | ⟨c, hread⟩
  · exact .inl ⟨fault, bind_of_error hfault, .inl (isPassedOver_of_read hfault)⟩
  rw [bind_of_ok hread]
  rcases except_cases (Manifest.findRecord id c.backups) with ⟨fault, hfault⟩ | ⟨found, hfound⟩
  · obtain ⟨record, hrecord, fault', hneed⟩ := Manifest.exists_of_findRecord_eq_error hfault
    refine .inl ⟨fault, by rw [hfault]; rfl, .inr ⟨c, hread, record, hrecord, fun hcomplete => ?_⟩⟩
    obtain ⟨value, hvalue⟩ := hcomplete.id
    rw [hneed] at hvalue
    cases hvalue
  · exact .inr ⟨c, found, hread, hfound, ofExcept_eq_ok_iff.mpr ⟨hfound, rfl⟩⟩

/-- Restoring a record ends with a fault that is passed over or at an incomplete record, and leaves the
world as it is; or it finds the record restored already; or it puts the copy back, once that is
checked, and marks the record. -/
theorem restore_cases (manifest : Manifest) (id : Json) (w : World) :
  (∃ fault, (BackupStore.mk (some manifest)).restore id w = .error fault w
      ∧ (isPassedOver fault = true
        ∨ ∃ c, manifest.read w = .ok c w ∧ ∃ record ∈ c.backups, ¬ IsComplete record))
    ∨ ∃ c record, manifest.read w = .ok c w ∧ Manifest.findRecord id c.backups = .ok (some record)
      ∧ (Manifest.isRestored record = .ok true
          ∧ (BackupStore.mk (some manifest)).restore id w = .ok () w
        ∨ Manifest.isRestored record = .ok false ∧ ∃ copy file bytes,
          IsChecked record copy file bytes w
          ∧ (BackupStore.mk (some manifest)).restore id w
            = (copyBack copy file >>= fun _ => manifest.markRestored id) w)
  := by
  rw [restore_apply]
  rcases find?_cases manifest id w with ⟨fault, hfault, hcause⟩ | ⟨c, found, hread, hfound, hfind⟩
  · exact .inl ⟨fault, bind_of_error hfault, hcause⟩
  rw [bind_of_ok hfind]
  cases found with
  | none => exact .inl ⟨_, rfl, .inl rfl⟩
  | some record =>
      have hmem := Manifest.mem_of_findRecord hfound
      rcases restoring_cases manifest id record w with ⟨fault, hfault, hcause⟩ | h
      · refine .inl ⟨fault, hfault, hcause.imp_right fun hnot => ?_⟩
        exact ⟨c, hread, record, hmem, hnot⟩
      · exact .inr ⟨c, record, hread, hfound, h⟩

/-! ### Putting a copy back where nothing stands in the way -/

/-- Whether no directory stands where a copy is written before it takes the place of a file, and none is
made there. -/
structure IsUnobstructed (file : Path) (w : World) : Prop where
  clear : w.files.get? (w.files.placeOf (backPath file)) ≠ some .directory
  way : w.files.placeOf (backPath file) ∉ w.files.onTheWay file.parent

theorem IsUnobstructed.get?_ne {touched : Set Place} (h : IsUnobstructed file w)
    (hw : w.Becomes touched (w.files.onTheWay file.parent) w') :
  w'.files.get? (w'.files.placeOf (backPath file)) ≠ some .directory
  := by
  rw [hw.placeOf]
  intro hdirectory
  rcases hw.files.directory _ hdirectory with hbefore | hmade
  · exact h.clear hbefore
  · exact h.way hmade

theorem IsUnobstructed.of_reaches (hreach : w.files.Reaches file) (hfile : file.names ≠ [])
    (hclear : w.files.get? (w.files.placeOf (backPath file)) ≠ some .directory) :
  IsUnobstructed file w
  := ⟨hclear, fun hway => hclear (hreach.get?_of_mem_onTheWay_parent hfile hway)⟩

/-- A copy that was put back where nothing stands in the way gives the file what it has. -/
theorem IsUnobstructed.of_copyBack (h : IsUnobstructed file w) (tree : w.files.IsTree)
    (hfile : file.names ≠ []) (hback : copyBack copy file w = .ok () w') :
  ∃ bytes, w.files.bytesAt? (w.files.placeOf copy) = some bytes ∧ w'.Holds file bytes
    ∧ w.Becomes (insert (w.files.placeOf file) Files.temporaries) (w.files.onTheWay file.parent) w'
  := by
  have hclear : ∀ w₁, makeDirs file.parent w = .ok () w₁ →
      w₁.files.get? (w₁.files.placeOf (backPath file)) ≠ some .directory := by
    intro w₁ hdirs
    have hw : w.Becomes ∅ (w.files.onTheWay file.parent) w₁ :=
      (within_makeDirs tree (Set.Subset.refl _)).of_ok hdirs
    exact h.get?_ne hw
  obtain ⟨bytes, w₁, h₁, hcopy, hheld, hbecomes⟩ :=
    of_replacing_of_clear tree (Set.Subset.refl _) hclear (replacing_of_copyBack hfile hback)
  have hbytes := hcopy.bytes
  rw [h₁.placeOf, h₁.files.bytes _ (Set.notMem_empty _)] at hbytes
  exact ⟨bytes, hbytes, hheld, hbecomes⟩

/-- Where nothing stands in the way, replacing a file touches it and what is written beside it. -/
theorem within_replacing (tree : w.files.IsTree) (h : IsUnobstructed file w) (copy : Path) :
  Within {w.files.placeOf (backPath file), w.files.placeOf file} (w.files.onTheWay file.parent)
    (replacing copy file) w
  := by
  apply Within.bind (within_makeDirs tree (Set.Subset.refl _))
  rintro _ w₁ - h₁
  apply Within.bind
  · apply within_copy h₁.files.tree
    rw [copyTarget_of_get?_ne (h.get?_ne h₁), h₁.placeOf]
    exact Set.mem_insert _ _
  · rintro _ w₂ - h₂
    have hclear := h.get?_ne (h₁.trans h₂)
    apply within_rename h₂.files.tree
    · rw [h₂.placeOf, h₁.placeOf]
      exact Set.mem_insert _ _
    · rw [h₂.placeOf, h₁.placeOf]
      exact Set.mem_insert_of_mem _ rfl
    · intro hdirectory
      exact absurd hdirectory hclear

/-- No copy takes the place of what has no name. -/
theorem exists_fault_of_nameless (hfile : file.names = []) (copy : Path) (w : World) :
  ∃ fault, copyBack copy file w = .error fault w ∧ isPassedOver fault = true
  := by
  rw [copyBack]
  rcases cases_of_left_eq (left_doesExist copy w) with ⟨fault, hfault⟩ | ⟨found, hfound⟩
  · exact ⟨fault, bind_of_error hfault, isPassedOver_of_calls (failsByCalls_doesExist copy) hfault⟩
  rw [bind_of_ok hfound]
  cases found with
  | false => exact ⟨_, rfl, rfl⟩
  | true =>
      refine ⟨.nameless file, ?_, rfl⟩
      rw [Bool.not_true, if_neg Bool.false_ne_true]
      apply bind_of_error
      rw [withName, Path.withName?, if_pos hfile]
      rfl

/-- Where nothing stands in the way, putting a copy back touches the file and what is written beside
it. -/
theorem within_copyBack (tree : w.files.IsTree) (h : IsUnobstructed file w) (copy : Path) :
  Within {w.files.placeOf (backPath file), w.files.placeOf file} (w.files.onTheWay file.parent)
    (copyBack copy file) w
  := by
  by_cases hfile : file.names = []
  · obtain ⟨fault, hfault, -⟩ := exists_fault_of_nameless hfile copy w
    rw [Within, hfault]
    exact .refl tree
  · rw [Within, copyBack_apply hfile]
    apply Within.bind (.of_left_eq tree (left_doesExist copy w))
    rintro found w₁ hfound -
    obtain rfl := eq_of_doesExist hfound
    cases found with
    | false => exact .throw tree _
    | true =>
        apply Within.tryCatch (within_replacing tree h copy)
        rintro fault w₂ - h₂
        apply within_giveUp h₂.files.tree
        rw [h₂.placeOf]
        exact Set.mem_insert _ _

/-- A copy that cannot be put back leaves the others to be restored. -/
theorem isPassedOver_of_copyBack (h : copyBack copy file w = .error fault w') :
  isPassedOver fault = true
  := by
  by_cases hfile : file.names = []
  · obtain ⟨fault', hfault, hpassed⟩ := exists_fault_of_nameless hfile copy w
    rw [hfault] at h
    obtain ⟨rfl, -⟩ := EStateM.Result.error.inj h
    exact hpassed
  · rw [copyBack_apply hfile] at h
    rcases bind_eq_error_iff.mp h with h | ⟨found, w₁, -, h⟩
    · exact isPassedOver_of_calls (failsByCalls_doesExist copy) h
    · cases found with
      | false =>
          obtain ⟨rfl, -⟩ := EStateM.Result.error.inj h
          rfl
      | true =>
          obtain ⟨fault₁, w₂, hreplacing, hgive⟩ := tryCatch_eq_error_iff.mp h
          have hcalls : FailsByCalls True (replacing copy file) :=
            failsByCalls_replacing (fun _ => trivial) (fun _ => trivial)
          rcases hcalls _ _ _ hreplacing with ⟨error, rfl⟩ | ⟨rfl, -⟩
          · rcases bind_eq_error_iff.mp hgive with hgive | ⟨_, w₃, -, hthrow⟩
            · exact isPassedOver_of_calls (FailsByCalls.change _ fun _ => trivial) hgive
            · obtain ⟨rfl, -⟩ := EStateM.Result.error.inj hthrow
              rfl
          · obtain ⟨rfl, -⟩ := EStateM.Result.error.inj hgive
            rfl

end BackupStore

end StylePrune
