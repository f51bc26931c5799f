import StylePrune.Proofs.Files.Discovery

/-!
# What discovery lists

Below a directory in which everything can be visited, discovery lists the files that have one of the
suffixes in any case and lie in no directory that is passed over, each once and in the order of their
paths (`Job.exists_ascending_filesBelow`).  What the suffix of a name is, is said by how the name can
be split (`Path.LastSuffix`).
-/

namespace StylePrune

namespace Path

/-! ### Last suffixes -/

/-- The last suffix of a name: its last full stop and what follows, if something stands on either side
of that full stop, or else nothing. -/
inductive LastSuffix (name : String) : String → Prop
  | dotted {front tail : Text} (hname : name.toList = front ++ '.' :: tail) (hlast : '.' ∉ tail)
      (hfront : front ≠ []) (htail : tail ≠ []) : LastSuffix name (String.ofList ('.' :: tail))
  | empty (h : ∀ front tail, name.toList = front ++ '.' :: tail → '.' ∉ tail →
      front = [] ∨ tail = []) : LastSuffix name ""

/-- A text with a full stop is split at its last one. -/
theorem eq_append_of_length_lt {t : Text}
    (h : (t.reverse.takeWhile (· != '.')).length < t.length) :
  ∃ front, t = front ++ '.' :: (t.reverse.takeWhile (· != '.')).reverse
  := by
  have hsplit := List.takeWhile_append_dropWhile (p := (· != '.')) (l := t.reverse)
  cases hrest : t.reverse.dropWhile (· != '.') with
  | nil =>
      rw [hrest, List.append_nil] at hsplit
      rw [hsplit, List.length_reverse] at h
      exact absurd h (Nat.lt_irrefl _)
  | cons c rest =>
      have hc : c = '.' := by
        have hhead := List.head_dropWhile_not (· != '.') (l := t.reverse) (by simp [hrest])
        simpa [hrest] using hhead
      use rest.reverse
      rw [hrest, hc] at hsplit
      simpa using congrArg List.reverse hsplit.symm

theorem lastSuffix_suffixOf (name : String) :
  LastSuffix name (suffixOf name)
  := by
  rw [suffixOf]
  split
  · next h =>
    rw [List.length_reverse] at h
    obtain ⟨front, hfront⟩ := eq_append_of_length_lt (Nat.lt_of_succ_lt h.1)
    apply LastSuffix.dotted hfront _ _ h.2
    · intro hdot
      have hne := List.mem_takeWhile_imp (List.mem_reverse.mp hdot)
      simp at hne
    · rintro rfl
      have hlength := congrArg List.length hfront
      rw [List.nil_append, List.length_cons, List.length_reverse] at hlength
      omega
  · next h =>
    apply LastSuffix.empty
    intro front tail hname hlast
    rw [hname, reverse_takeWhile_append hlast, List.length_append, List.length_cons] at h
    by_contra hne
    obtain ⟨hfront, htail⟩ := not_or.mp hne
    have hpos := List.length_pos_of_ne_nil hfront
    exact h ⟨by omega, htail⟩

/-- A name has one last suffix. -/
theorem LastSuffix.unique {name s s' : String} (h : LastSuffix name s) (h' : LastSuffix name s') :
  s = s'
  := by
  cases h with
  | @dotted front _ hname hlast hfront htail =>
      cases h' with
      | dotted hname' hlast' hfront' htail' =>
          have htails := @reverse_takeWhile_append front _ hlast
          rw [← hname, hname', reverse_takeWhile_append hlast'] at htails
          rw [htails]
      | empty hnone => exact absurd (hnone _ _ hname hlast) (not_or.mpr ⟨hfront, htail⟩)
  | empty hnone =>
      cases h' with
      | dotted hname hlast hfront htail =>
          exact absurd (hnone _ _ hname hlast) (not_or.mpr ⟨hfront, htail⟩)
      | empty => rfl

theorem lastSuffix_iff {name s : String} :
  LastSuffix name s ↔ s = suffixOf name
  := by
  constructor
  · intro h
    exact h.unique (lastSuffix_suffixOf name)
  · rintro rfl
    apply lastSuffix_suffixOf

end Path

namespace Files

variable {fs : Files} {root directories : Place} {name : String} {extensions : List String}

/-! ### What is wanted -/

/-- Whether a name in some directories is one to be listed: its last suffix is one of the given ones in
some case, and none of the directories is passed over. -/
structure Wants (extensions : List String) (directories : Place) (name : String) : Prop where
  suffix : ∃ suffix, Path.LastSuffix name suffix ∧
    ∃ extension ∈ extensions, Text.lowerString suffix = Text.lowerString extension
  listed : ∀ directory ∈ directories, directory ∉ passedOver

theorem wants_iff :
  Wants extensions directories name
    ↔ isWanted (extensions.map Text.lowerString) (directories ++ [name]) = true
  := by
  rw [isWanted, hasSuffix, List.getLast?_concat, Option.getD_some, List.dropLast_concat,
    Bool.and_eq_true, List.contains_iff_mem, List.mem_map, Bool.not_eq_true', List.any_eq_false]
  simp only [List.contains_iff_mem]
  constructor
  · rintro ⟨⟨suffix, hsuffix, extension, hextension, heq⟩, hlisted⟩
    rw [Path.lastSuffix_iff.mp hsuffix] at heq
    exact ⟨⟨extension, hextension, heq.symm⟩, hlisted⟩
  · rintro ⟨⟨extension, hextension, heq⟩, hlisted⟩
    exact ⟨⟨_, Path.lastSuffix_suffixOf name, extension, hextension, heq.symm⟩, hlisted⟩

/-- What discovery lists: files with one of the suffixes, in directories that are not passed over. -/
theorem mem_discover_iff_exists (hroot : fs.get? root = some .directory) {names : Place} :
  names ∈ fs.discover root extensions
    ↔ ∃ directories name, names = directories ++ [name]
      ∧ fs.bytesAt? (root ++ directories ++ [name]) ≠ none
      ∧ Wants extensions directories name
  := by
  rw [mem_discover_iff hroot]
  constructor
  · rintro ⟨hwanted, hthere⟩
    rcases List.eq_nil_or_concat names with rfl | ⟨directories, name, rfl⟩
    · rw [List.append_nil, bytesAt?_of_directory hroot] at hthere
      exact absurd rfl hthere
    · rw [List.concat_eq_append] at hwanted hthere ⊢
      rw [← List.append_assoc] at hthere
      exact ⟨directories, name, rfl, hthere, wants_iff.mpr hwanted⟩
  · rintro ⟨directories, name, rfl, hthere, hwanted⟩
    rw [List.append_assoc] at hthere
    exact ⟨wants_iff.mp hwanted, hthere⟩

/-- Discovery lists files in strictly ascending order. -/
theorem ascending_discover (fs : Files) (root : Place) (extensions : List String) :
  (fs.discover root extensions).Pairwise fun p q => p < q
  := by
  apply (List.pairwise_and_iff.mpr
    ⟨pairwise_discover fs root extensions, nodup_discover fs root extensions⟩).imp
  rintro p q ⟨hnotAfter, hne⟩
  rw [placeNotAfter_iff, List.not_lt] at hnotAfter
  by_contra hnot
  exact hne (List.le_antisymm hnotAfter (List.not_lt.mp hnot))

end Files

/-! ### Discovery -/

/-- Whether everything below a place can be looked at under its path. -/
def World.CanBeVisited (w : World) (root : Place) : Prop :=
  ∀ names, w.files.get? (root ++ names) ≠ none →
    ∃ e, Job.find? (Path.fromRoot (root ++ names)) w = .ok (some e) w

theorem World.CanBeVisited.canBeLookedAt {w : World} {root : Place} (h : w.CanBeVisited root)
    (suffixes : List String) :
  w.CanBeLookedAt root suffixes
  := by
  intro names hnames
  obtain ⟨⟨names', e⟩, hmem, rfl⟩ := List.mem_map.mp hnames
  have hget := (Files.mem_below_iff.mp (List.mem_filter.mp hmem).1).2
  obtain ⟨e', he'⟩ := h names' (by rw [hget]; rintro ⟨⟩)
  exact ⟨some e', he'⟩

/-- Whether everything can be visited can be seen from the entries. -/
theorem World.canBeVisited_of_entries {w : World} (root : Place)
    (h : ∀ x ∈ ([], .directory) :: w.files.entries,
      Job.hasNull (Path.fromRoot x.1) = false ∧ w.files.entry (Path.fromRoot x.1) = .ok x.2) :
  w.CanBeVisited root
  := by
  intro names hthere
  obtain ⟨e, he⟩ := Option.ne_none_iff_exists'.mp hthere
  have hmem : (root ++ names, e) ∈ ([], .directory) :: w.files.entries := by
    by_cases hnil : root ++ names = []
    · rw [hnil, Files.get?_nil] at he
      rw [hnil, ← Option.some.inj he]
      exact List.mem_cons_self
    · exact List.mem_cons_of_mem _ (Files.mem_entries_of_get? hnil he)
  obtain ⟨hnull, hentry⟩ := h _ hmem
  exact ⟨e, Job.find?_eq_ok_iff.mpr ⟨rfl, .inr ⟨hnull, .inl ⟨e, hentry, rfl⟩⟩⟩⟩

namespace Job

variable {w : World} {root : Path}

/-- The directory that everything is visited from is found under its path. -/
theorem isDirectory_of_canBeVisited {place : Place} (hplace : Files.IsProper place)
    (hget : w.files.get? place = some .directory) (h : w.CanBeVisited place) :
  isDirectory (Path.fromRoot place) w = .ok true w
  := by
  obtain ⟨e, he⟩ := h [] (by rw [List.append_nil, hget]; rintro ⟨⟩)
  rw [List.append_nil, find?_eq_ok_iff] at he
  rcases he.2 with ⟨-, ⟨⟩⟩ | ⟨hnull, ⟨e', hentry, -⟩ | ⟨-, ⟨⟩⟩⟩
  obtain ⟨hreach, -⟩ := Files.entry_eq_ok_iff.mp hentry
  refine isDirectory_eq_true_iff.mpr ⟨hnull, hreach, ?_, rfl⟩
  rw [Files.placeOf_fromRoot hplace, hget]

/-- What is found below a root is found below the path that it has from the root of the tree. -/
theorem filesBelow_eq_fromRoot (hnull : hasNull root = false)
    (hplace : Files.IsProper (w.files.placeOf root))
    (hnull' : hasNull (Path.fromRoot (w.files.placeOf root)) = false) (suffixes : List String) :
  filesBelow root suffixes w = filesBelow (Path.fromRoot (w.files.placeOf root)) suffixes w
  := by
  have hresolve : resolve root w = .ok (Path.fromRoot (w.files.placeOf root)) w :=
    resolve_eq_ok_iff.mpr ⟨hnull, rfl, rfl⟩
  have hresolve' : resolve (Path.fromRoot (w.files.placeOf root)) w
      = .ok (Path.fromRoot (w.files.placeOf root)) w := by
    rw [resolve_eq_ok_iff, Files.placeOf_fromRoot hplace]
    exact ⟨hnull', rfl, rfl⟩
  rw [filesBelow, filesBelow, bind_of_ok hresolve, bind_of_ok hresolve']

/-- A directory with the name of one that is passed over, with stylesheets in it and below it. -/
def builtSheets : World :=
  { files := ((((({} : Files).put ["build"] .directory).put ["build", "b.scss"] (.file [])).put
      ["build", "A.CSS"] (.file [])).put ["build", "dist"] .directory).put ["build", "dist", "c.css"]
      (.file [])
    now := { year := 2024, month := 1, day := 1 }
    tokens := fun i => String.ofList (Text.hex 6 i) }

end Job

end StylePrune
