import StylePrune.Backup.Store
import StylePrune.Proofs.Backup.Ledger
import StylePrune.Proofs.Json.Rereading

/-!
# What all records of a manifest have

A property of records that is seen from their outlines, and kept when a record is marked
(`Manifest.IsSeen`), is one that all records of a manifest go on having (`Manifest.Lists`): adding a
record that has it, and marking one, leave it, whatever the manifest had in it.
-/

namespace StylePrune

open Job

namespace Json

theorem exists_of_outline_eq_obj {x : Json} {ms : Json.Members} (h : x.outline = .obj ms) :
  ∃ ms', x = .obj ms' ∧ Json.outlineMembers ms' = ms
  := by
  cases x with
  | obj ms' => exact ⟨ms', rfl, Json.obj.inj h⟩
  | _ => cases h

end Json

namespace Manifest

variable {m : Manifest} {c : Contents} {records : List Json} {w w' : World} {P : Json → Prop}
    {touched made : Set Place}

/-! ### Tidy contents -/

/-- Whether the records in a list are tidy. -/
theorem areTidyItems_iff {xs : List Json} :
  Json.AreTidyItems xs ↔ ∀ x ∈ xs, x.IsTidy
  := by
  induction xs with
  | nil => exact ⟨fun _ _ hx => absurd hx List.not_mem_nil, fun _ => trivial⟩
  | cons x xs ih => rw [Json.AreTidyItems, ih, List.forall_mem_cons]

theorem isTidy_of_member? {ms : Json.Members} (h : Json.AreTidyMembers ms) {name : String} {x : Json}
    (hx : Json.member? ms name = some x) :
  x.IsTidy
  := by
  induction ms with
  | nil => cases hx
  | cons member ms ih =>
      obtain ⟨name', y⟩ := member
      obtain ⟨-, hy, hms⟩ := h
      rw [Json.member?, List.find?_cons] at hx
      split at hx
      · obtain rfl := Option.some.inj hx
        exact hy
      · exact ih hms hx

/-- Whether the contents of a manifest are tidy. -/
def Contents.IsTidy (c : Contents) : Prop := Json.AreTidyMembers c.members

theorem Contents.IsTidy.backups (h : c.IsTidy) :
  Json.AreTidyItems c.backups
  := by
  rw [Contents.backups]
  split
  · next records hmember => exact isTidy_of_member? h hmember
  · exact trivial

theorem Contents.IsTidy.setBackups (h : c.IsTidy) (hrecords : ∀ record ∈ records, record.IsTidy) :
  (c.setBackups records).IsTidy
  := Json.AreTidyMembers.setMember h (areTidyItems_iff.mpr hrecords)

theorem Contents.isTidy_empty :
  Contents.empty.IsTidy
  := by
  refine ⟨by decide, trivial, ?_⟩
  exact ⟨List.not_mem_nil, trivial, trivial⟩

/-- What the text of a manifest stands for: an object that lists backups, or nothing. -/
theorem Contents.ofText_cases (t : Text) :
  Contents.ofText t = .empty
    ∨ ∃ ms records, Json.read? t = some (.obj ms)
      ∧ Json.member? ms "backups" = some (.arr records) ∧ Contents.ofText t = ⟨ms⟩
  := by
  rw [Contents.ofText]
  cases hread : Json.read? t with
  | none => exact .inl rfl
  | some x =>
      cases x with
      | obj ms =>
          cases hmember : Json.member? ms "backups" with
          | none =>
              left
              simp only [Option.bind_some, Contents.ofJson?, hmember]
              rfl
          | some y =>
              cases y with
              | arr records =>
                  right
                  refine ⟨ms, records, rfl, hmember, ?_⟩
                  simp only [Option.bind_some, Contents.ofJson?, hmember]
                  rfl
              | _ =>
                  left
                  simp only [Option.bind_some, Contents.ofJson?, hmember]
                  rfl
      | _ => exact .inl rfl

theorem Contents.isTidy_ofText (t : Text) :
  (Contents.ofText t).IsTidy
  := by
  rcases Contents.ofText_cases t with h | ⟨ms, records, hread, -, h⟩
  · rw [h]
    exact isTidy_empty
  · rw [h]
    exact Json.isTidy_of_read? hread

theorem Contents.backups_mk {ms : Json.Members}
    (h : Json.member? ms "backups" = some (.arr records)) :
  (Contents.mk ms).backups = records
  := by
  rw [Contents.backups, h]

theorem Contents.backups_setBackups (c : Contents) (records : List Json) :
  (c.setBackups records).backups = records
  := Contents.backups_mk (Json.member?_setMember ..)

theorem isTidy_markRecord {record : Json} (h : record.IsTidy) :
  (markRecord record).IsTidy
  := by
  cases record with
  | obj ms => exact Json.AreTidyMembers.setMember h trivial
  | _ => exact h

/-! ### Looking into records -/

theorem need_eq_ok_iff {record x : Json} {name : String} :
  need record name = .ok x ↔ ∃ ms, record = .obj ms ∧ Json.member? ms name = some x
  := by
  constructor
  · intro h
    rw [need.eq_def] at h
    split at h
    · next ms =>
      split at h
      · next value hmember => exact ⟨ms, rfl, hmember.trans (congrArg some (Except.ok.inj h))⟩
      · cases h
    · cases h
  · rintro ⟨ms, rfl, hmember⟩
    rw [need, hmember]

/-- What a record has is seen from its outline. -/
theorem need_of_outline_eq {record record' x : Json} {name : String}
    (h : record'.outline = record.outline) (hx : need record name = .ok x) :
  ∃ x', need record' name = .ok x' ∧ x'.outline = x.outline
  := by
  obtain ⟨ms, rfl, hmember⟩ := need_eq_ok_iff.mp hx
  obtain ⟨ms', rfl, hms⟩ := Json.exists_of_outline_eq_obj h
  have hoption := congrArg (Json.member? · name) hms
  simp only [Json.member?_outlineMembers, hmember] at hoption
  obtain ⟨x', hmember', houtline⟩ := Option.map_eq_some_iff.mp hoption
  exact ⟨x', need_eq_ok_iff.mpr ⟨ms', rfl, hmember'⟩, houtline⟩

/-- A record that is marked has all else as it was. -/
theorem need_markRecord (record : Json) {name : String} (h : name ≠ "restored") :
  need (markRecord record) name = need record name
  := by
  cases record with
  | obj ms => rw [markRecord, need, need, Json.member?_setMember_of_ne _ _ h]
  | _ => rfl

/-! ### Properties of records -/

/-- Whether a property of records is seen from their outlines, and a record keeps it when it is
marked. -/
structure IsSeen (P : Json → Prop) : Prop where
  outline : ∀ {record record' : Json}, record'.outline = record.outline → P record → P record'
  mark : ∀ {record : Json}, P record → P (markRecord record)

/-- Records of one outline have the properties that are seen from it. -/
theorem IsSeen.of_outlineItems_eq (hP : IsSeen P) {records' : List Json}
    (h : Json.outlineItems records' = Json.outlineItems records) (hall : ∀ record ∈ records, P record) :
  ∀ record ∈ records', P record
  := by
  intro record' hrecord'
  rw [Json.outlineItems_eq_map, Json.outlineItems_eq_map] at h
  have hmem := List.mem_map_of_mem (f := Json.outline) hrecord'
  rw [h] at hmem
  obtain ⟨record, hrecord, houtline⟩ := List.mem_map.mp hmem
  exact hP.outline houtline.symm (hall record hrecord)

/-- Contents that are written and read again have records with the properties that they had. -/
theorem IsSeen.ofText_toText (hP : IsSeen P) (h : c.IsTidy) (hall : ∀ record ∈ c.backups, P record) :
  ∀ record ∈ (Contents.ofText c.toText).backups, P record
  := by
  rcases Contents.ofText_cases c.toText with hempty | ⟨ms, records, hread, hmember, heq⟩
  · rw [hempty]
    intro record hrecord
    exact absurd hrecord List.not_mem_nil
  · have houtline := Json.obj.inj (@Json.outline_of_read?_renderAt (.obj c.members) _ h 0 hread)
    have hoption := congrArg (Json.member? · "backups") houtline
    simp only [Json.member?_outlineMembers, hmember] at hoption
    obtain ⟨x, hx, hitems⟩ := Option.map_eq_some_iff.mp hoption.symm
    cases x with
    | arr records' =>
        have hbackups : c.backups = records' := Contents.backups_mk hx
        rw [hbackups] at hall
        rw [heq, Contents.backups_mk hmember]
        exact hP.of_outlineItems_eq (Json.arr.inj hitems).symm hall
    | _ => cases hitems

/-- Records of which one is marked are tidy, and have the properties that they had. -/
theorem IsSeen.of_markRecords (hP : IsSeen P) {id : Json} {marked : List Json}
    (htidy : ∀ record ∈ records, record.IsTidy) (hall : ∀ record ∈ records, P record)
    (hmark : markRecords id records = .ok marked) :
  (∀ record ∈ marked, record.IsTidy) ∧ ∀ record ∈ marked, P record
  := by
  induction records generalizing marked with
  | nil =>
      obtain rfl := Except.ok.inj hmark
      exact ⟨htidy, hall⟩
  | cons record rest ih =>
      obtain ⟨htidy₁, htidy⟩ := List.forall_mem_cons.mp htidy
      obtain ⟨hall₁, hall⟩ := List.forall_mem_cons.mp hall
      rw [markRecords] at hmark
      cases hneed : need record "id" with
      | error fault =>
          rw [hneed] at hmark
          cases hmark
      | ok value =>
          rw [hneed] at hmark
          change (if value.agrees id then _ else _) = _ at hmark
          split at hmark
          · obtain rfl := Except.ok.inj hmark
            exact ⟨List.forall_mem_cons.mpr ⟨isTidy_markRecord htidy₁, htidy⟩,
              List.forall_mem_cons.mpr ⟨hP.mark hall₁, hall⟩⟩
          · cases hmarked : markRecords id rest with
            | error fault =>
                rw [hmarked] at hmark
                cases hmark
            | ok rest' =>
                rw [hmarked] at hmark
                obtain rfl := Except.ok.inj hmark
                obtain ⟨htidy', hall'⟩ := ih htidy hall hmarked
                exact ⟨List.forall_mem_cons.mpr ⟨htidy₁, htidy'⟩,
                  List.forall_mem_cons.mpr ⟨hall₁, hall'⟩⟩

/-! ### The records of a manifest -/

/-- Whether all records in the file of a manifest have a property. -/
def Lists (m : Manifest) (P : Json → Prop) (w : World) : Prop :=
  ∀ bytes t, w.files.bytesAt? (w.files.placeOf m.path) = some bytes →
    Text.Utf8.decode bytes = .ok t → ∀ record ∈ (Contents.ofText t).backups, P record

theorem lists_of_becomes (hw : w.Becomes touched made w') (hm : w.files.placeOf m.path ∉ touched) :
  m.Lists P w' ↔ m.Lists P w
  := by
  rw [Lists, Lists, hw.placeOf, hw.files.bytes _ hm]

theorem lists_of_shows (h : m.Shows w c) (hall : ∀ record ∈ c.backups, P record) :
  m.Lists P w
  := by
  intro bytes t hbytes hdecode
  rcases h with ⟨hnone, -⟩ | ⟨bytes', t', hholds, hdecode', rfl⟩
  · rw [hnone] at hbytes
    cases hbytes
  · obtain rfl := Option.some.inj (hholds.bytes.symm.trans hbytes)
    obtain rfl := Except.ok.inj (hdecode'.symm.trans hdecode)
    exact hall

/-- What is read has the records of the manifest. -/
theorem of_read (h : m.read w = .ok c w') :
  w' = w ∧ c.IsTidy ∧ ∀ P, m.Lists P w → ∀ record ∈ c.backups, P record
  := by
  refine ⟨world_of_read h, ?_⟩
  rcases read_cases h with ⟨bytes, t, hholds, hdecode, rfl⟩ | rfl
  · exact ⟨Contents.isTidy_ofText t, fun P hlists => hlists bytes t hholds.bytes hdecode⟩
  · refine ⟨Contents.isTidy_empty, ?_⟩
    intro P _ record hrecord
    exact absurd hrecord List.not_mem_nil

/-- A manifest that was written has the records that were written, and where it could not be written,
it has those that it had. -/
theorem lists_of_write (tree : w.files.IsTree) (hP : IsSeen P) (h : c.IsTidy)
    (hall : ∀ record ∈ c.backups, P record) (hlists : m.Lists P w) :
  m.Lists P (left (m.write c w))
  := by
  cases hwrite : m.write c w with
  | ok a w' =>
      intro bytes t hbytes hdecode
      have hheld := (holds_of_write tree hwrite).bytes
      rw [left, hheld] at hbytes
      obtain rfl := Option.some.inj hbytes
      rw [Text.Utf8.decode_encode] at hdecode
      obtain rfl := Except.ok.inj hdecode
      exact hP.ofText_toText h hall
  | error fault w' =>
      apply (lists_of_becomes (becomes_of_write_eq_error tree hwrite) _).mpr hlists
      exact placeOf_path_ne_temporaryPath w.files m

/-- All records of a manifest have a property after a record that has it was added. -/
theorem lists_of_add (tree : w.files.IsTree) (hP : IsSeen P) {id file copy stamp hash reason : String}
    (hnew : ∀ created, P (newRecord id file copy stamp created reason hash)) (hlists : m.Lists P w) :
  m.Lists P (left (m.add id file copy stamp hash reason w))
  := by
  rcases left_add_cases m id file copy stamp hash reason w with hleft | ⟨c, hread, hleft⟩
  · rw [hleft]
    exact hlists
  · obtain ⟨-, htidy, hall⟩ := of_read hread
    have hrecords : ∀ {Q : Json → Prop}, (∀ record ∈ c.backups, Q record) →
        Q (newRecord id file copy stamp w.now.iso reason hash) →
        ∀ record ∈ c.backups ++ [newRecord id file copy stamp w.now.iso reason hash], Q record := by
      intro Q hold hnewest record hrecord
      rcases List.mem_append.mp hrecord with hrecord | hrecord
      · exact hold record hrecord
      · rw [List.mem_singleton.mp hrecord]
        exact hnewest
    rw [hleft]
    apply lists_of_write tree hP
    · apply htidy.setBackups
      apply hrecords (areTidyItems_iff.mp htidy.backups)
      simp [newRecord, Json.IsTidy, Json.AreTidyMembers]
    · rw [Contents.backups_setBackups]
      exact hrecords (hall P hlists) (hnew _)
    · exact hlists

/-- All records of a manifest have a property after one was marked. -/
theorem lists_of_markRestored (tree : w.files.IsTree) (hP : IsSeen P) (id : Json)
    (hlists : m.Lists P w) :
  m.Lists P (left (m.markRestored id w))
  := by
  rcases left_markRestored_cases m id w with hleft | ⟨c, marked, hread, hmark, hleft⟩
  · rw [hleft]
    exact hlists
  · obtain ⟨-, htidy, hall⟩ := of_read hread
    obtain ⟨htidy', hall'⟩ :=
      hP.of_markRecords (areTidyItems_iff.mp htidy.backups) (hall P hlists) hmark
    rw [hleft]
    apply lists_of_write tree hP (htidy.setBackups htidy') _ hlists
    rw [Contents.backups_setBackups]
    exact hall'

end Manifest

end StylePrune
