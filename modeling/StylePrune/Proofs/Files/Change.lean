import Mathlib.Data.Set.Insert
import StylePrune.Proofs.Files.Walk

/-!
# What calls change

One tree becomes another by changes to the files at certain places and by new directories at others;
no directory goes away.  Each call that succeeds is such a step, and steps one after the other make a
longer one, so that what a sequence of calls leaves alone is seen from the places it touches.
-/

namespace StylePrune.Files

/-- Whether a tree has become another by changes to the files at some places and by new directories
at others. -/
structure Becomes (touched made : Set Place) (fs fs' : Files) : Prop where
  tree : fs'.IsTree
  here : fs'.here = fs.here
  stay : fs.DirectoriesStay fs'
  directory : ∀ p, fs'.get? p = some .directory → fs.get? p = some .directory ∨ p ∈ made
  bytes : ∀ p, p ∉ touched → fs'.bytesAt? p = fs.bytesAt? p

namespace Becomes

variable {touched touched' made made' : Set Place} {fs fs' fs'' : Files}

theorem refl (tree : fs.IsTree) :
  Becomes touched made fs fs
  := ⟨tree, rfl, fun _ => id, fun _ => .inl, fun _ _ => rfl⟩

theorem mono (h : Becomes touched made fs fs') (htouched : touched ⊆ touched')
    (hmade : made ⊆ made') :
  Becomes touched' made' fs fs'
  := by
  constructor
  · exact h.tree
  · exact h.here
  · exact h.stay
  · intro p hp
    exact (h.directory p hp).imp_right (@hmade p)
  · intro p hp
    exact h.bytes p (mt (@htouched p) hp)

theorem trans (h : Becomes touched made fs fs') (h' : Becomes touched made fs' fs'') :
  Becomes touched made fs fs''
  := by
  constructor
  · exact h'.tree
  · rw [h'.here, h.here]
  · exact fun p hp => h'.stay p (h.stay p hp)
  · intro p hp
    rcases h'.directory p hp with hp' | hmade
    · exact h.directory p hp'
    · exact .inr hmade
  · intro p hp
    rw [h'.bytes p hp, h.bytes p hp]

theorem reaches (h : Becomes touched made fs fs') {p : Path} (hp : fs.Reaches p) :
  fs'.Reaches p
  := hp.of_directoriesStay h.here h.stay

theorem placeOf (h : Becomes touched made fs fs') (p : Path) :
  fs'.placeOf p = fs.placeOf p
  := placeOf_congr h.here p

theorem directory_iff (h : Becomes touched ∅ fs fs') (p : Place) :
  fs'.get? p = some .directory ↔ fs.get? p = some .directory
  := ⟨fun hp => (h.directory p hp).resolve_right (Set.notMem_empty p), h.stay p⟩

/-- Where no directory is made, a path leads where it led. -/
theorem reaches_iff (h : Becomes touched ∅ fs fs') {p : Path} :
  fs'.Reaches p ↔ fs.Reaches p
  := ⟨.of_directoriesStay h.here.symm fun q => (h.directory_iff q).mp, h.reaches⟩

/-- A file that has its contents in the end counts as not touched. -/
theorem of_insert {place : Place} (h : Becomes (insert place touched) made fs fs')
    (hplace : fs'.bytesAt? place = fs.bytesAt? place) :
  Becomes touched made fs fs'
  := by
  refine ⟨h.tree, h.here, h.stay, h.directory, ?_⟩
  intro p hp
  by_cases heq : p = place
  · rw [heq, hplace]
  · apply h.bytes
    rintro (hp' | hp')
    · exact heq hp'
    · exact hp hp'

/-- No directory is made where one is already. -/
theorem of_made (h : Becomes touched made fs fs')
    (hmade : ∀ p ∈ made, fs.get? p = some .directory ∨ p ∈ made') :
  Becomes touched made' fs fs'
  := by
  refine ⟨h.tree, h.here, h.stay, ?_, h.bytes⟩
  intro p hp
  rcases h.directory p hp with hdirectory | hp
  · exact .inl hdirectory
  · exact hmade p hp

/-- Where neither a file is touched nor a directory made, something is there as before. -/
theorem get?_eq_none_iff (h : Becomes touched made fs fs') {p : Place} (hp : p ∉ touched)
    (hmade : p ∈ made → fs.get? p = some .directory) :
  fs'.get? p = none ↔ fs.get? p = none
  := by
  have hbytes := h.bytes p hp
  rcases fs.get?_cases p with hnone | hdirectory | ⟨bytes, hfile⟩
  · rcases fs'.get?_cases p with hnone' | hdirectory' | ⟨bytes', hfile'⟩
    · rw [hnone, hnone']
    · rcases h.directory p hdirectory' with hd | hm
      · rw [hd] at hnone
        cases hnone
      · rw [hmade hm] at hnone
        cases hnone
    · rw [bytesAt?, bytesAt?, hfile', hnone] at hbytes
      cases hbytes
  · rw [h.stay p hdirectory, hdirectory]
  · rw [bytesAt?_eq_some_iff.mpr hfile] at hbytes
    rw [bytesAt?_eq_some_iff.mp hbytes, hfile]

/-- A tree in which only the entry at one place is another, be it a file or nothing. -/
theorem of_get? (tree : fs'.IsTree) (here : fs'.here = fs.here) {place : Place}
    (h : fs.get? place ≠ some .directory) (h' : fs'.get? place ≠ some .directory)
    (hget : ∀ p, p ≠ place → fs'.get? p = fs.get? p) :
  Becomes {place} made fs fs'
  := by
  constructor
  · exact tree
  · exact here
  · intro p hp
    by_cases heq : p = place
    · exact absurd (heq ▸ hp) h
    · rw [hget p heq, hp]
  · intro p hp
    by_cases heq : p = place
    · exact absurd (heq ▸ hp) h'
    · rw [hget p heq] at hp
      exact .inl hp
  · intro p hp
    exact bytesAt?_congr (hget p hp)

end Becomes

/-! ### Calls -/

variable {fs fs' : Files} (tree : fs.IsTree) {p q : Path} {bytes : List UInt8}

include tree

/-- Writing touches the place that the path leads to, and the file there has the new contents. -/
theorem becomes_of_write (h : fs.write p bytes = .ok fs') :
  Becomes {fs.placeOf p} ∅ fs fs' ∧ fs'.bytesAt? (fs.placeOf p) = some bytes
  := by
  obtain ⟨hreach, hne, rfl⟩ := write_eq_ok_iff.mp h
  have hnil := ne_nil_of_get?_ne hne
  have hparent := tree.parent_of_reaches hreach
  have hget : (fs.put (fs.placeOf p) (.file bytes)).get? (fs.placeOf p) = some (.file bytes) := by
    rw [get?_put fs hnil, if_pos rfl]
  constructor
  · apply Becomes.of_get?
    · exact tree.put hnil hparent fun h => absurd h hne
    · rfl
    · exact hne
    · rw [hget]
      rintro ⟨⟩
    · intro r hr
      rw [get?_put fs hnil, if_neg hr]
  · exact bytesAt?_eq_some_iff.mpr hget

/-- Removing touches the place that the path leads to. -/
theorem becomes_of_remove (h : fs.remove p = .ok fs') :
  Becomes {fs.placeOf p} ∅ fs fs'
  := by
  obtain ⟨hreach, hfile, rfl⟩ := remove_eq_ok_iff.mp h
  have hne : fs.get? (fs.placeOf p) ≠ some .directory := mt bytesAt?_of_directory hfile
  have hnil := ne_nil_of_get?_ne hne
  apply Becomes.of_get?
  · exact tree.erase hne
  · rfl
  · exact hne
  · rw [get?_erase fs hnil, if_pos rfl]
    rintro ⟨⟩
  · intro r hr
    rw [get?_erase fs hnil, if_neg hr]

/-- Creating a directory makes one at the place that the path leads to. -/
theorem becomes_of_makeDir (h : fs.makeDir p = .ok fs') :
  Becomes ∅ {fs.placeOf p} fs fs' ∧ fs'.get? (fs.placeOf p) = some .directory
  := by
  obtain ⟨hreach, hnone, rfl⟩ := makeDir_eq_ok_iff.mp h
  have hnil : fs.placeOf p ≠ [] := by
    apply ne_nil_of_get?_ne
    rw [hnone]
    rintro ⟨⟩
  have hget := get?_put fs hnil .directory
  constructor
  · constructor
    · exact tree.put hnil (tree.parent_of_reaches hreach) fun _ => rfl
    · rfl
    · intro r hr
      rw [hget]
      split
      · rfl
      · exact hr
    · intro r hr
      rw [hget] at hr
      split at hr
      · next heq => exact .inr heq
      · exact .inl hr
    · intro r _
      by_cases heq : r = fs.placeOf p
      · subst heq
        rw [bytesAt?, bytesAt?, hget, if_pos rfl, hnone]
      · apply bytesAt?_congr
        rw [hget, if_neg heq]
  · rw [hget, if_pos rfl]

/-- Renaming a file touches its old place and its new one, where it has its contents. -/
theorem becomes_of_rename (hfile : fs.bytesAt? (fs.placeOf p) = some bytes)
    (h : fs.rename p q = .ok fs') :
  Becomes {fs.placeOf p, fs.placeOf q} ∅ fs fs' ∧ fs'.bytesAt? (fs.placeOf q) = some bytes
  := by
  obtain ⟨-, -, hreach, hne, rfl⟩ := (rename_eq_ok_iff (reaches_of_rename h) hfile).mp h
  rw [bytesAt?_eq_some_iff] at hfile
  by_cases heq : fs.placeOf p = fs.placeOf q
  · rw [if_pos heq]
    exact ⟨Becomes.refl tree, bytesAt?_eq_some_iff.mpr (heq ▸ hfile)⟩
  · rw [if_neg heq]
    have hget := tree.get?_move hfile hne
    have hmoved : (fs.move (fs.placeOf p) (fs.placeOf q)).get? (fs.placeOf q)
        = some (.file bytes) := by
      rw [hget, if_pos rfl]
    constructor
    · constructor
      · exact tree.move hfile hne (tree.parent_of_reaches hreach)
      · exact here_move fs _ _
      · intro r hr
        rw [hget, if_neg, if_neg]
        · exact hr
        · rintro rfl
          rw [hfile] at hr
          cases hr
        · rintro rfl
          exact hne hr
      · intro r hr
        rw [hget] at hr
        split at hr
        · cases hr
        · split at hr
          · cases hr
          · exact .inl hr
      · intro r hr
        obtain ⟨hp, hq⟩ := not_or.mp hr
        apply bytesAt?_congr
        rw [hget, if_neg (mt Set.mem_singleton_iff.mpr hq), if_neg hp]
    · exact bytesAt?_eq_some_iff.mpr hmoved

end StylePrune.Files
