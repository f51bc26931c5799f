import StylePrune.Backup.Manifest
import StylePrune.Proofs.Json.Reading

/-!
# Records of backups

The records that backups leave in a manifest, as data (`Manifest.Record`).  What the manifest looks
for in a record, marks in it and sorts it by is read off the data, and a manifest of such records is
read back as it was written (`ofText_toText`).
-/

namespace StylePrune.Manifest

/-- What is recorded of a backup. -/
structure Record where
  id : String
  file : String
  copy : String
  stamp : String
  created : String
  reason : String
  hash : String
  restored : Bool := false
  deriving DecidableEq, Repr

namespace Record

/-- The record as it stands in a manifest. -/
def toJson (r : Record) : Json :=
  .obj [("id", .str r.id), ("original_path", .str r.file), ("backup_path", .str r.copy),
    ("timestamp", .str r.stamp), ("created_at", .str r.created), ("reason", .str r.reason),
    ("file_hash", .str r.hash), ("restored", .bool r.restored)]

/-- The record marked as restored. -/
def marked (r : Record) : Record := { r with restored := true }

theorem isPlain_toJson (r : Record) :
  r.toJson.IsPlain
  := by
  simp [toJson, Json.IsPlain, Json.ArePlainMembers]

theorem need_id (r : Record) :
  need r.toJson "id" = .ok (.str r.id)
  := rfl

theorem isRestored_toJson (r : Record) :
  isRestored r.toJson = .ok r.restored
  := rfl

theorem markRecord_toJson (r : Record) :
  markRecord r.toJson = r.marked.toJson
  := rfl

theorem createdOf_toJson (r : Record) :
  createdOf r.toJson = .str r.created
  := rfl

theorem agrees_id (r : Record) (id : String) :
  (Json.str r.id).agrees (.str id) = decide (r.id = id)
  := by
  rw [Json.agrees]
  rfl

end Record

variable (records : List Record)

/-! ### Looking records up -/

theorem findRecord_cons (r : Record) (id : String) (rest : List Json) :
  findRecord (.str id) (r.toJson :: rest)
    = if r.id = id then .ok (some r.toJson) else findRecord (.str id) rest
  := by
  rw [findRecord, Record.need_id]
  change (if (Json.str r.id).agrees (.str id) then _ else _) = _
  rw [Record.agrees_id]
  by_cases h : r.id = id
  · rw [if_pos h, if_pos (decide_eq_true h)]
    rfl
  · rw [if_neg h, if_neg (by simpa using h)]

theorem findRecord_map_toJson (id : String) :
  findRecord (.str id) (records.map Record.toJson)
    = .ok ((records.find? fun r => r.id = id).map Record.toJson)
  := by
  induction records with
  | nil => rfl
  | cons r records ih =>
      rw [List.map_cons, findRecord_cons, ih]
      by_cases h : r.id = id
      · rw [if_pos h, List.find?_cons, decide_eq_true h]
        rfl
      · rw [if_neg h, List.find?_cons, decide_eq_false h]

theorem markRecords_cons (r : Record) (id : String) (rest : List Json) :
  markRecords (.str id) (r.toJson :: rest)
    = if r.id = id then .ok (r.marked.toJson :: rest)
      else (markRecords (.str id) rest).map (r.toJson :: ·)
  := by
  rw [markRecords, Record.need_id]
  change (if (Json.str r.id).agrees (.str id) then _ else _) = _
  rw [Record.agrees_id]
  by_cases h : r.id = id
  · rw [if_pos h, if_pos (decide_eq_true h)]
    rfl
  · rw [if_neg h, if_neg (by simpa using h)]
    cases markRecords (.str id) rest <;> rfl

/-- The records in which the one with an identifier is marked as restored. -/
def marking (id : String) (records : List Record) : List Record :=
  records.map fun r => if r.id = id then r.marked else r

theorem marking_of_notMem {id : String} {records : List Record}
    (h : id ∉ records.map Record.id) :
  marking id records = records
  := by
  rw [marking, List.map_congr_left (g := fun r => r), List.map_id']
  intro r hr
  rw [if_neg]
  rintro rfl
  exact h (List.mem_map_of_mem hr)

/-- The records in which the first one with an identifier is marked as restored. -/
def markFirst (id : String) : List Record → List Record
  | [] => []
  | r :: records => if r.id = id then r.marked :: records else r :: markFirst id records

theorem markRecords_map_toJson_eq_markFirst (id : String) :
  markRecords (.str id) (records.map Record.toJson) = .ok ((markFirst id records).map Record.toJson)
  := by
  induction records with
  | nil => rfl
  | cons r records ih =>
      rw [List.map_cons, markRecords_cons, ih, markFirst]
      by_cases hid : r.id = id
      · rw [if_pos hid, if_pos hid]
        rfl
      · rw [if_neg hid, if_neg hid]
        rfl

/-- With different identifiers, the first record that has an identifier is the only one. -/
theorem markFirst_eq_marking {id : String} {records : List Record}
    (h : (records.map Record.id).Nodup) :
  markFirst id records = marking id records
  := by
  induction records with
  | nil => rfl
  | cons r records ih =>
      obtain ⟨hr, hrecords⟩ := List.nodup_cons.mp h
      change _ = (if r.id = id then r.marked else r) :: marking id records
      rw [markFirst]
      by_cases hid : r.id = id
      · rw [hid] at hr
        rw [if_pos hid, if_pos hid, marking_of_notMem hr]
      · rw [if_neg hid, if_neg hid, ih hrecords]

/-- With different identifiers, the one record that has an identifier is marked. -/
theorem markRecords_map_toJson (id : String) (h : (records.map Record.id).Nodup) :
  markRecords (.str id) (records.map Record.toJson)
    = .ok ((marking id records).map Record.toJson)
  := by
  rw [markRecords_map_toJson_eq_markFirst, markFirst_eq_marking h]

theorem unrestoredOf_map_toJson :
  unrestoredOf (records.map Record.toJson)
    = .ok ((records.filter (!·.restored)).map Record.toJson)
  := by
  induction records with
  | nil => rfl
  | cons r records ih =>
      rw [List.map_cons, unrestoredOf, Record.isRestored_toJson, ih]
      cases h : r.restored with
      | true =>
          rw [List.filter_cons_of_neg (by rw [h]; exact Bool.false_ne_true)]
          rfl
      | false =>
          rw [List.filter_cons_of_pos (by rw [h]; rfl)]
          rfl

/-! ### Putting records in order -/

theorem less?_createdOf (r s : Record) :
  (createdOf r.toJson).less? (createdOf s.toJson) = some (decide (r.created < s.created))
  := by
  rw [Record.createdOf_toJson, Record.createdOf_toJson, Json.less?]

theorem comparable_map_toJson :
  comparable (records.map Record.toJson) = true
  := by
  induction records with
  | nil => rfl
  | cons r records ih =>
      rw [List.map_cons, comparable, ih, Bool.and_true, List.all_map, List.all_eq_true]
      intro s _
      rw [Function.comp, less?_createdOf]
      rfl

/-- Records with the newest first. -/
def latestFirst (records : List Record) : List Record :=
  records.mergeSort fun r s => !decide (r.created < s.created)

theorem newestFirst_map_toJson :
  newestFirst (records.map Record.toJson) = (latestFirst records).map Record.toJson
  := by
  rw [newestFirst, latestFirst, List.map_mergeSort]
  intro r _ s _
  rw [less?_createdOf, Option.getD_some]

/-! ### Contents -/

/-- The contents of a manifest that lists records. -/
def listing (records : List Record) : Contents :=
  ⟨[("version", .str version), ("backups", .arr (records.map Record.toJson))]⟩

theorem backups_listing :
  (listing records).backups = records.map Record.toJson
  := rfl

theorem setBackups_listing (records' : List Record) :
  (listing records).setBackups (records'.map Record.toJson) = listing records'
  := rfl

theorem listing_concat (r : Record) :
  listing (records ++ [r])
    = (listing records).setBackups ((listing records).backups ++ [r.toJson])
  := by
  rw [backups_listing, ← List.map_singleton (f := Record.toJson), ← List.map_append,
    setBackups_listing]

theorem arePlainItems_map_toJson :
  Json.ArePlainItems (records.map Record.toJson)
  := by
  induction records with
  | nil => exact trivial
  | cons r records ih => exact ⟨r.isPlain_toJson, ih⟩

/-- A manifest of records without numbers is read back as it was written. -/
theorem ofText_toText_setBackups {records : List Json} (h : Json.ArePlainItems records) :
  Contents.ofText (Contents.empty.setBackups records).toText = Contents.empty.setBackups records
  := by
  have hplain : (Json.obj [("version", .str version), ("backups", .arr records)]).IsPlain :=
    ⟨by simp, trivial, by simp, h, trivial⟩
  change Contents.ofText (Contents.mk [("version", .str version), ("backups", .arr records)]).toText = _
  rw [Contents.toText, Contents.ofText, Json.read?_renderAt hplain]
  rfl

/-- A manifest is read back as it was written. -/
theorem ofText_toText :
  Contents.ofText (listing records).toText = listing records
  := ofText_toText_setBackups (arePlainItems_map_toJson records)

end StylePrune.Manifest
