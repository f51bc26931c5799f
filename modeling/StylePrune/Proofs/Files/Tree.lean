import Mathlib.Data.List.Infix
import StylePrune.Files.Calls

/-!
# Trees

A file tree as it is found on a disk has every file and directory in a directory, and relative
paths start from a directory (`Files.IsTree`).  In such a tree nothing lies below a file, so that
each call changes what is at the places it is made for and nothing else, and it leaves a tree.
-/

namespace StylePrune.Files

/-- Whether everything lies in a directory, and the place that relative paths start from is one. -/
structure IsTree (fs : Files) : Prop where
  parent : ∀ {p e}, fs.get? p = some e → fs.get? p.dropLast = some .directory
  here : fs.get? fs.here = some .directory

/-- The contents of the file at a place, if a file is there. -/
def bytesAt? (fs : Files) (p : Place) : Option (List UInt8) :=
  match fs.get? p with
  | some (.file bytes) => some bytes
  | _ => none

theorem bytesAt?_eq_some_iff {fs : Files} {p : Place} {bytes : List UInt8} :
  fs.bytesAt? p = some bytes ↔ fs.get? p = some (.file bytes)
  := by
  rw [bytesAt?]
  split
  · next h => simp [h]
  · next h =>
    constructor
    · rintro ⟨⟩
    · intro hfile
      exact absurd hfile (h bytes)

theorem bytesAt?_of_directory {fs : Files} {p : Place} (h : fs.get? p = some .directory) :
  fs.bytesAt? p = none
  := by
  rw [bytesAt?, h]

theorem bytesAt?_congr {fs fs' : Files} {p q : Place} (h : fs'.get? q = fs.get? p) :
  fs'.bytesAt? q = fs.bytesAt? p
  := by
  rw [bytesAt?, bytesAt?, h]

/-- A place holds nothing, a directory, or a file. -/
theorem get?_cases (fs : Files) (p : Place) :
  fs.get? p = none ∨ fs.get? p = some .directory ∨ ∃ bytes, fs.get? p = some (.file bytes)
  := by
  cases h : fs.get? p with
  | none => exact .inl rfl
  | some e =>
      cases e with
      | directory => exact .inr (.inl rfl)
      | file bytes => exact .inr (.inr ⟨bytes, rfl⟩)

theorem ne_nil_of_get?_ne {fs : Files} {p : Place} (h : fs.get? p ≠ some .directory) :
  p ≠ []
  := by
  rintro rfl
  exact h (get?_nil fs)

/-- The root alone is a tree. -/
theorem isTree_empty :
  ({} : Files).IsTree
  := by
  constructor
  · intro p e h
    by_cases hp : p = []
    · rw [hp, List.dropLast_nil, get?_nil]
    · rw [get?, if_neg hp] at h
      cases h
  · exact get?_nil _

namespace IsTree

variable {fs : Files} (tree : fs.IsTree)

include tree

/-- Nothing lies below what is no directory. -/
theorem get?_append {p : Place} (h : fs.get? p ≠ some .directory) {q : Place} (hq : q ≠ []) :
  fs.get? (p ++ q) = none
  := by
  induction q using List.reverseRecOn with
  | nil => exact absurd rfl hq
  | append_singleton q name ih =>
      rw [← List.append_assoc]
      apply Option.eq_none_iff_forall_not_mem.mpr
      intro e he
      have hparent := tree.parent he
      rw [List.dropLast_concat] at hparent
      by_cases hnil : q = []
      · rw [hnil, List.append_nil] at hparent
        exact h hparent
      · rw [ih hnil] at hparent
        cases hparent

theorem get?_of_isPrefix {p q : Place} (h : fs.get? p ≠ some .directory) (hpq : p <+: q)
    (hne : q ≠ p) :
  fs.get? q = none
  := by
  obtain ⟨r, rfl⟩ := hpq
  apply tree.get?_append h
  rintro rfl
  exact hne (List.append_nil p)

theorem put {p : Place} {e : Entry} (hp : p ≠ []) (hparent : fs.get? p.dropLast = some .directory)
    (h : fs.get? p = some .directory → e = .directory) :
  (fs.put p e).IsTree
  := by
  have hdirectory : ∀ {q}, fs.get? q = some .directory →
      (fs.put p e).get? q = some .directory := by
    intro q hq
    rw [get?_put fs hp]
    split
    · next heq => rw [h (heq ▸ hq)]
    · exact hq
  constructor
  · intro q e' hq
    rw [get?_put fs hp] at hq
    split at hq
    · next heq => exact hdirectory (heq ▸ hparent)
    · exact hdirectory (tree.parent hq)
  · exact hdirectory tree.here

theorem erase {p : Place} (h : fs.get? p ≠ some .directory) :
  (fs.erase p).IsTree
  := by
  have hp := ne_nil_of_get?_ne h
  have hdirectory : ∀ {q}, fs.get? q = some .directory →
      (fs.erase p).get? q = some .directory := by
    intro q hq
    rw [get?_erase fs hp, if_neg]
    · exact hq
    · rintro rfl
      exact h hq
  constructor
  · intro q e hq
    rw [get?_erase fs hp] at hq
    split at hq
    · cases hq
    · exact hdirectory (tree.parent hq)
  · exact hdirectory tree.here

end IsTree

/-! ### Moving a file -/

theorem get?_eraseTree (fs : Files) {p : Place} (hp : p ≠ []) (q : Place) :
  (fs.eraseTree p).get? q = if p <+: q then none else fs.get? q
  := by
  by_cases hq : q = []
  · subst hq
    rw [if_neg (fun h => hp (List.prefix_nil.mp h)), get?_nil, get?_nil]
  · rw [get?, get?, if_neg hq, if_neg hq, eraseTree, List.find?_filter]
    by_cases h : p <+: q
    · rw [if_pos h, List.find?_eq_none.mpr]
      · rfl
      · rintro ⟨r, e⟩ -
        simp only [Bool.not_eq_true', decide_eq_true_eq, not_and]
        rintro hr rfl
        rw [List.isPrefixOf_iff_prefix.mpr h] at hr
        cases hr
    · rw [if_neg h]
      congr 2
      funext listed
      obtain ⟨r, e⟩ := listed
      by_cases hr : r = q
      · subst hr
        simp [Bool.eq_false_iff.mpr (mt List.isPrefixOf_iff_prefix.mp h)]
      · simp [hr]

/-- Whatever is listed at a place below the root is there. -/
theorem get?_ne_none_of_mem {fs : Files} {p : Place} {e : Entry} (hp : p ≠ [])
    (h : (p, e) ∈ fs.entries) :
  fs.get? p ≠ none
  := by
  rw [get?, if_neg hp, ne_eq, Option.map_eq_none_iff, List.find?_eq_none]
  intro hnone
  exact hnone (p, e) h (decide_eq_true rfl)

/-- Whatever is at a place below the root is listed. -/
theorem mem_entries_of_get? {fs : Files} {p : Place} {e : Entry} (hp : p ≠ [])
    (h : fs.get? p = some e) :
  (p, e) ∈ fs.entries
  := by
  rw [get?, if_neg hp] at h
  obtain ⟨⟨q, e'⟩, hfind, rfl⟩ := Option.map_eq_some_iff.mp h
  have hq := List.find?_some hfind
  obtain rfl : q = p := of_decide_eq_true hq
  exact List.mem_of_find?_eq_some hfind

/-- Whether everything lies in a directory can be seen from the entries. -/
theorem isTree_of_entries {fs : Files} (hhere : fs.get? fs.here = some .directory)
    (h : ∀ x ∈ fs.entries, fs.get? x.1.dropLast = some .directory) :
  fs.IsTree
  := by
  refine ⟨?_, hhere⟩
  intro p e hp
  by_cases hnil : p = []
  · rw [hnil, List.dropLast_nil, get?_nil]
  · exact h _ (mem_entries_of_get? hnil hp)

/-- Nothing lies below a file. -/
theorem IsTree.below_eq_nil {fs : Files} (tree : fs.IsTree) {p : Place}
    (h : fs.get? p ≠ some .directory) :
  fs.below p = []
  := by
  rw [below, List.filterMap_eq_nil_iff]
  rintro ⟨q, e⟩ hmem
  dsimp only
  rw [if_neg]
  rintro ⟨hinitial, hlength⟩
  have hpq := List.isPrefixOf_iff_prefix.mp hinitial
  have hq : q ≠ [] := by
    rintro rfl
    apply ne_nil_of_get?_ne h
    exact List.prefix_nil.mp hpq
  apply get?_ne_none_of_mem hq hmem
  apply tree.get?_of_isPrefix h hpq
  rintro rfl
  exact hlength rfl

/-- A file that is moved is at its new place and no longer at its old one, and nothing else has
changed. -/
theorem IsTree.get?_move {fs : Files} (tree : fs.IsTree) {p q : Place} {bytes : List UInt8}
    (hp : fs.get? p = some (.file bytes)) (hq : fs.get? q ≠ some .directory) (r : Place) :
  (fs.move p q).get? r
    = if r = q then some (.file bytes) else if r = p then none else fs.get? r
  := by
  have hfile : fs.get? p ≠ some .directory := by
    rw [hp]
    rintro ⟨⟩
  rw [move, hp]
  dsimp only
  rw [tree.below_eq_nil hfile, graft, List.foldl_nil, get?_put _ (ne_nil_of_get?_ne hq),
    get?_eraseTree _ (ne_nil_of_get?_ne hq), get?_eraseTree _ (ne_nil_of_get?_ne hfile)]
  by_cases hrq : r = q
  · rw [if_pos hrq, if_pos hrq]
  · rw [if_neg hrq, if_neg hrq]
    by_cases hrp : r = p
    · subst hrp
      rw [if_pos List.prefix_rfl, if_pos rfl, ite_self]
    · rw [if_neg hrp]
      by_cases hq' : q <+: r
      · rw [if_pos hq', tree.get?_of_isPrefix hq hq' hrq]
      · rw [if_neg hq']
        by_cases hp' : p <+: r
        · rw [if_pos hp', tree.get?_of_isPrefix hfile hp' hrp]
        · rw [if_neg hp']

theorem here_graft (fs : Files) (p : Place) (e : Entry) (children : List (Place × Entry)) :
  (fs.graft p e children).here = fs.here
  := by
  have hfold : ∀ (fs : Files), (children.foldl (fun fs c => fs.put (p ++ c.1) c.2) fs).here
      = fs.here := by
    induction children with
    | nil => exact fun _ => rfl
    | cons c children ih => exact fun fs => ih (fs.put (p ++ c.1) c.2)
  exact hfold (fs.put p e)

theorem here_move (fs : Files) (p q : Place) :
  (fs.move p q).here = fs.here
  := by
  rw [move]
  split
  · rfl
  · exact here_graft _ _ _ _

theorem IsTree.move {fs : Files} (tree : fs.IsTree) {p q : Place} {bytes : List UInt8}
    (hp : fs.get? p = some (.file bytes)) (hq : fs.get? q ≠ some .directory)
    (hparent : fs.get? q.dropLast = some .directory) :
  (fs.move p q).IsTree
  := by
  have hdirectory : ∀ {r}, fs.get? r = some .directory →
      (fs.move p q).get? r = some .directory := by
    intro r hr
    rw [tree.get?_move hp hq, if_neg, if_neg]
    · exact hr
    · rintro rfl
      rw [hp] at hr
      cases hr
    · rintro rfl
      exact hq hr
  constructor
  · intro r e hr
    rw [tree.get?_move hp hq] at hr
    split at hr
    · next heq => exact hdirectory (heq ▸ hparent)
    · split at hr
      · cases hr
      · exact hdirectory (tree.parent hr)
  · rw [here_move]
    exact hdirectory tree.here

end StylePrune.Files
