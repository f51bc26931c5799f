import StylePrune.Proofs.Backup.Listed

/-!
# What a manifest names as originals

Each record of a manifest names the path to which its copy is put back.  A record that is added names
one more (`Manifest.originals_of_add`), and one that is marked names none that was not named before
(`Manifest.originals_of_markRestored`), whatever the manifest had in it.
-/

namespace StylePrune

open Job BackupStore

/-! ### The paths in records -/

namespace BackupStore

variable {record record' : Json} {name : String} {p : Path}

theorem pathIn_eq_ok_iff :
  pathIn record name = .ok p ↔ ∃ s, Manifest.need record name = .ok (.str s) ∧ p = Path.ofString s
  := by
  rw [pathIn]
  cases Manifest.need record name with
  | error fault => simp [bind, Except.bind]
  | ok x =>
      cases x <;> simp [bind, Except.bind, pure, Except.pure, throw, throwThe, MonadExceptOf.throw,
        eq_comm]

theorem outline_eq_str_iff {x : Json} {s : String} :
  x.outline = .str s ↔ x = .str s
  := by
  cases x <;> simp [Json.outline]

/-- The paths in a record are seen from its outline. -/
theorem pathIn_of_outline_eq (h : record'.outline = record.outline)
    (hpath : pathIn record name = .ok p) :
  pathIn record' name = .ok p
  := by
  obtain ⟨s, hneed, rfl⟩ := pathIn_eq_ok_iff.mp hpath
  obtain ⟨x, hneed', hx⟩ := Manifest.need_of_outline_eq h hneed
  rw [outline_eq_str_iff.mp hx] at hneed'
  exact pathIn_eq_ok_iff.mpr ⟨s, hneed', rfl⟩

/-- A record that is marked has the paths that it had. -/
theorem pathIn_markRecord (record : Json) (h : name ≠ "restored") :
  pathIn (Manifest.markRecord record) name = pathIn record name
  := by
  rw [pathIn, pathIn, Manifest.need_markRecord record h]

end BackupStore

namespace Manifest

variable {m : Manifest} {c : Contents} {w w' : World} {p : Path} {touched made : Set Place}

/-- Whether a record names no original, or one of the given paths. -/
def NamesOneOf (paths : Set Path) (record : Json) : Prop :=
  ∀ p, pathIn record "original_path" = .ok p → p ∈ paths

theorem isSeen_namesOneOf (paths : Set Path) :
  IsSeen (NamesOneOf paths)
  where
  outline houtline h p hpath := h p (pathIn_of_outline_eq houtline.symm hpath)
  mark {record} h p hpath := by
    rw [pathIn_markRecord record (by decide)] at hpath
    exact h p hpath

/-! ### The originals of a manifest -/

/-- The paths that the records in the file of a manifest name as originals. -/
def originals (m : Manifest) (w : World) : Set Path :=
  { p | ∃ bytes t, w.files.bytesAt? (w.files.placeOf m.path) = some bytes
    ∧ Text.Utf8.decode bytes = .ok t
    ∧ ∃ record ∈ (Contents.ofText t).backups, pathIn record "original_path" = .ok p }

theorem originals_subset_iff {paths : Set Path} :
  m.originals w ⊆ paths ↔ m.Lists (NamesOneOf paths) w
  := by
  constructor
  · intro h bytes t hbytes hdecode record hrecord p hpath
    exact h ⟨bytes, t, hbytes, hdecode, record, hrecord, hpath⟩
  · rintro h p ⟨bytes, t, hbytes, hdecode, record, hrecord, hpath⟩
    exact h bytes t hbytes hdecode record hrecord p hpath

theorem originals_of_becomes (hw : w.Becomes touched made w') (hm : w.files.placeOf m.path ∉ touched) :
  m.originals w' = m.originals w
  := by
  rw [originals, originals, hw.placeOf, hw.files.bytes _ hm]

/-- A record that is read names an original of the manifest. -/
theorem mem_originals_of_read (h : m.read w = .ok c w') {record : Json} (hrecord : record ∈ c.backups)
    (hpath : pathIn record "original_path" = .ok p) :
  p ∈ m.originals w
  := (of_read h).2.2 _ (originals_subset_iff.mp (Set.Subset.refl _)) record hrecord p hpath

/-- A record that is added names one original more. -/
theorem originals_of_add (tree : w.files.IsTree) (id file copy stamp hash reason : String) :
  m.originals (left (m.add id file copy stamp hash reason w))
    ⊆ insert (Path.ofString file) (m.originals w)
  := by
  rw [originals_subset_iff]
  apply lists_of_add tree (isSeen_namesOneOf _)
  · intro created p hpath
    exact .inl (Except.ok.inj hpath).symm
  · exact originals_subset_iff.mp (Set.subset_insert _ _)

/-- Marking a record names no other originals. -/
theorem originals_of_markRestored (tree : w.files.IsTree) (id : Json) :
  m.originals (left (m.markRestored id w)) ⊆ m.originals w
  := originals_subset_iff.mpr (lists_of_markRestored tree (isSeen_namesOneOf _) id
    (originals_subset_iff.mp (Set.Subset.refl _)))

end Manifest

end StylePrune
