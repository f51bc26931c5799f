import StylePrune.Path.Basic
import StylePrune.Proofs.Text.Trim

/-!
# Paths as strings

A path from the root through proper names is read back from the string that it is written as, and
what is read from any string has proper names.  The length of a path that ends with a name depends
on the name through its length only.
-/

namespace StylePrune.Path

/-- Whether a name can stand between two slashes. -/
structure IsName (name : String) : Prop where
  ne_empty : name ≠ ""
  ne_dot : name ≠ "."
  noSlash : '/' ∉ name.toList

theorem isName_iff {name : String} :
  IsName name ↔ name ≠ "" ∧ name ≠ "." ∧ '/' ∉ name.toList
  := ⟨fun h => ⟨h.ne_empty, h.ne_dot, h.noSlash⟩, fun h => ⟨h.1, h.2.1, h.2.2⟩⟩

instance (name : String) : Decidable (IsName name) := decidable_of_iff _ isName_iff.symm

/-! ### Reading and writing -/

/-- Names with slashes between them are a text that was joined. -/
theorem toList_intercalate_slash (names : List String) :
  (String.intercalate "/" names).toList = Text.joinWith '/' (names.map String.toList)
  := by
  induction names with
  | nil => rfl
  | cons name names ih =>
      cases names with
      | nil => simp [Text.joinWith]
      | cons next names =>
          rw [String.intercalate_cons_cons, String.toList_append, String.toList_append, ih]
          simp [Text.joinWith]

theorem isName_of_mem_namesOf {t : Text} {name : String} (h : name ∈ namesOf t) :
  IsName name
  := by
  obtain ⟨piece, hpiece, rfl⟩ := List.mem_map.mp h
  obtain ⟨hmem, hne⟩ := List.mem_filter.mp hpiece
  simp only [bne_iff_ne, ne_eq, Bool.and_eq_true] at hne
  constructor
  · intro h
    apply hne.1
    simpa using congrArg String.toList h
  · intro h
    apply hne.2
    simpa using congrArg String.toList h
  · rw [String.toList_ofList]
    exact Text.notMem_of_mem_splitOn hmem

/-- What is read from a string has proper names. -/
theorem isName_of_mem_names_ofString {s name : String} (h : name ∈ (ofString s).names) :
  IsName name
  := isName_of_mem_namesOf h

theorem namesOf_cons_slash (t : Text) :
  namesOf ('/' :: t) = namesOf t
  := by
  rw [namesOf, Text.splitOn, if_pos rfl]
  rfl

theorem namesOf_joinWith {names : List String} (h : ∀ name ∈ names, IsName name) :
  namesOf (Text.joinWith '/' (names.map String.toList)) = names
  := by
  by_cases hne : names = []
  · subst hne
    rfl
  · rw [namesOf, Text.splitOn_joinWith]
    · rw [List.filter_eq_self.mpr, List.map_map]
      · simp
      · intro piece hpiece
        obtain ⟨name, hname, rfl⟩ := List.mem_map.mp hpiece
        have hempty := (h name hname).ne_empty
        have hdot := (h name hname).ne_dot
        rw [Bool.and_eq_true, bne_iff_ne, bne_iff_ne]
        constructor
        · intro heq
          exact hempty (String.toList_injective heq)
        · intro heq
          exact hdot (String.toList_injective heq)
    · simpa using hne
    · intro piece hpiece
      obtain ⟨name, hname, rfl⟩ := List.mem_map.mp hpiece
      exact (h name hname).noSlash

theorem anchorOf_cons_slash {t : Text} (h : ∀ t', t ≠ '/' :: t') :
  anchorOf ('/' :: t) = .root
  := by
  rw [anchorOf.eq_def]
  split
  · rfl
  · next heq => exact absurd (List.cons.inj heq).2 (h _)
  · rfl
  · next hroot => exact absurd rfl (hroot t)

theorem toList_toString_fromRoot (names : List String) :
  (fromRoot names).toString.toList = '/' :: Text.joinWith '/' (names.map String.toList)
  := by
  rw [Path.toString, if_neg (by rintro ⟨⟨⟩, -⟩), String.toList_append, fromRoot,
    toList_intercalate_slash]
  simp [Anchor.slashes]

/-- A path from the root through proper names is read back as it was written. -/
theorem ofString_toString_fromRoot {names : List String} (h : ∀ name ∈ names, IsName name) :
  ofString (fromRoot names).toString = fromRoot names
  := by
  have hslash : ∀ t, Text.joinWith '/' (names.map String.toList) ≠ '/' :: t := by
    intro t heq
    cases names with
    | nil => cases heq
    | cons name names =>
        obtain ⟨c, cs, hname⟩ : ∃ c cs, name.toList = c :: cs := by
          apply List.exists_cons_of_ne_nil
          intro hnil
          exact (h name List.mem_cons_self).ne_empty (String.toList_injective hnil)
        have hc : c ≠ '/' := by
          rintro rfl
          apply (h name List.mem_cons_self).noSlash
          rw [hname]
          exact List.mem_cons_self
        cases names <;> simp [Text.joinWith, hname, hc] at heq
  rw [ofString, toList_toString_fromRoot, namesOf_cons_slash, namesOf_joinWith h, anchorOf_cons_slash hslash]
  rfl

/-! ### Lengths -/

theorem utf8ByteSize_intercalate_dropLast_le (names : List String) :
  (String.intercalate "/" names.dropLast).utf8ByteSize
    ≤ (String.intercalate "/" names).utf8ByteSize
  := by
  induction names with
  | nil => exact Nat.le_refl _
  | cons name names ih =>
      cases names with
      | nil => simp
      | cons next names =>
          cases names with
          | nil => simp [String.intercalate_cons_cons]; omega
          | cons third names =>
              rw [List.dropLast_cons_of_ne_nil (List.cons_ne_nil _ _)] at ih ⊢
              rw [List.dropLast_cons_of_ne_nil (List.cons_ne_nil _ _),
                String.intercalate_cons_cons, String.intercalate_cons_cons]
              simp only [String.utf8ByteSize_append]
              omega

/-- The parent of a path is hardly longer than the path. -/
theorem utf8ByteSize_parent_le (p : Path) :
  p.parent.toString.utf8ByteSize ≤ max 1 p.toString.utf8ByteSize
  := by
  have hle := utf8ByteSize_intercalate_dropLast_le p.names
  rw [Path.toString]
  split
  · exact Nat.le_max_left 1 _
  · next hparent =>
    rw [Path.toString, if_neg]
    · simp only [parent, String.utf8ByteSize_append]
      omega
    · rintro ⟨hanchor, hnil⟩
      apply hparent
      simp [parent, hanchor, hnil]

/-- How long a path is that ends with a name, the length of the name aside. -/
theorem exists_utf8ByteSize_child (p : Path) :
  ∃ k, ∀ name, (p.child name).toString.utf8ByteSize = k + name.utf8ByteSize
  := by
  have htoString : ∀ name, (p.child name).toString
      = p.anchor.slashes ++ String.intercalate "/" (p.names ++ [name]) := by
    intro name
    rw [Path.toString, if_neg]
    · rfl
    · rintro ⟨-, hnil⟩
      exact absurd hnil (List.append_ne_nil_of_right_ne_nil _ (List.cons_ne_nil _ _))
  by_cases hnil : p.names = []
  · use p.anchor.slashes.utf8ByteSize
    intro name
    rw [htoString, hnil, List.nil_append, String.intercalate_singleton, String.utf8ByteSize_append]
  · use p.anchor.slashes.utf8ByteSize + (String.intercalate "/" p.names ++ "/").utf8ByteSize
    intro name
    rw [htoString, String.intercalate_append_of_ne_nil hnil (List.cons_ne_nil _ _),
      String.intercalate_singleton, String.utf8ByteSize_append, String.utf8ByteSize_append,
      Nat.add_assoc]

end StylePrune.Path
