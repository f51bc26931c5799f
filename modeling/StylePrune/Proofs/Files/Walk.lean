import StylePrune.Proofs.Files.Tree
import StylePrune.Proofs.Path.Written

/-!
# Places that calls lead to

A call that finds its place has walked through directories only, and the place is the one that the
path has on its own, its double dots worked off (`Files.placeOf`).  So what a call answers depends
on what is at that place, and it goes on leading there as long as no directory goes away.
-/

namespace StylePrune.Files

/-- The place from which a path is walked. -/
def startOf (fs : Files) (p : Path) : Place := if p.anchor = .relative then fs.here else []

/-- The place that a path has when its double dots are worked off. -/
def placeOf (fs : Files) (p : Path) : Place := Path.resolveFrom fs.here p

theorem placeOf_eq_foldl (fs : Files) (p : Path) :
  fs.placeOf p = p.names.foldl Path.step (fs.startOf p)
  := rfl

theorem placeOf_congr {fs fs' : Files} (h : fs'.here = fs.here) (p : Path) :
  fs'.placeOf p = fs.placeOf p
  := by
  rw [placeOf, placeOf, h]

/-! ### Paths without double dots -/

/-- The place of a path without double dots has the names of the path. -/
theorem placeOf_of_notMem {fs : Files} {p : Path} (hdots : ".." ∉ p.names) :
  fs.placeOf p = fs.startOf p ++ p.names
  := by
  rw [placeOf_eq_foldl]
  generalize fs.startOf p = start
  generalize p.names = names at hdots
  induction names generalizing start with
  | nil => rw [List.foldl_nil, List.append_nil]
  | cons name names ih =>
      rw [List.mem_cons, not_or] at hdots
      rw [List.foldl_cons, ih _ hdots.2, Path.step, if_neg (Ne.symm hdots.1), List.append_assoc]
      rfl

/-- The names of a place are those of the path, double dots aside, and those of the place that relative
paths start from. -/
theorem of_mem_placeOf {fs : Files} {p : Path} {name : String} (h : name ∈ fs.placeOf p) :
  name ∈ fs.here ∨ name ∈ p.names ∧ name ≠ ".."
  := by
  have hstart : ∀ name ∈ fs.startOf p, name ∈ fs.here := by
    intro name hname
    rw [startOf] at hname
    split at hname
    · exact hname
    · cases hname
  rw [placeOf_eq_foldl] at h
  generalize fs.startOf p = start at h hstart
  generalize p.names = names at h
  induction names using List.reverseRecOn with
  | nil => exact .inl (hstart name h)
  | append_singleton names last ih =>
      rw [List.foldl_append, List.foldl_cons, List.foldl_nil, Path.step] at h
      split at h
      · exact (ih (List.dropLast_subset _ h)).imp_right fun h => ⟨List.mem_append_left _ h.1, h.2⟩
      · next hdots =>
        rcases List.mem_append.mp h with h | h
        · exact (ih h).imp_right fun h => ⟨List.mem_append_left _ h.1, h.2⟩
        · rw [List.mem_singleton.mp h]
          exact .inr ⟨List.mem_append_right _ List.mem_cons_self, hdots⟩

/-- Whether a place can be written as a path from the root: its names are proper and no double dots. -/
def IsProper (place : Place) : Prop := ∀ name ∈ place, Path.IsName name ∧ name ≠ ".."

instance (place : Place) : Decidable (IsProper place) :=
  inferInstanceAs (Decidable (∀ name ∈ place, Path.IsName name ∧ name ≠ ".."))

theorem isProper_placeOf {fs : Files} {p : Path} (hhere : IsProper fs.here)
    (hnames : ∀ name ∈ p.names, Path.IsName name) :
  IsProper (fs.placeOf p)
  := by
  intro name hname
  rcases of_mem_placeOf hname with hname | ⟨hname, hdots⟩
  · exact hhere name hname
  · exact ⟨hnames name hname, hdots⟩

/-- The path from the root through a proper place leads there. -/
theorem placeOf_fromRoot {fs : Files} {place : Place} (h : IsProper place) :
  fs.placeOf (Path.fromRoot place) = place
  := by
  rw [placeOf_of_notMem (p := Path.fromRoot place) fun hdots => (h ".." hdots).2 rfl]
  rfl

theorem ofString_toString_of_isProper {place : Place} (h : IsProper place) :
  Path.ofString (Path.fromRoot place).toString = Path.fromRoot place
  := Path.ofString_toString_fromRoot fun name hname => (h name hname).1

/-! ### Walking -/

theorem walk_append (fs : Files) (place : Place) (first second : List String) :
  fs.walk place (first ++ second)
    = (fs.walk place first).bind fun next => fs.walk next second
  := by
  induction first generalizing place with
  | nil => rfl
  | cons name first ih =>
      rw [List.cons_append, walk, walk]
      split
      · split
        · rfl
        · exact ih (Path.step place name)
      · rfl
      · rfl

/-- A walk leads where the names alone lead. -/
theorem eq_foldl_of_walk {fs : Files} {place target : Place} {names : List String}
    (h : fs.walk place names = .ok target) :
  target = names.foldl Path.step place
  := by
  induction names generalizing place with
  | nil => exact (Except.ok.inj h).symm
  | cons name names ih =>
      rw [walk] at h
      split at h
      · split at h
        · cases h
        · exact ih h
      · cases h
      · cases h

theorem eq_placeOf_of_locate {fs : Files} {p : Path} {place : Place}
    (h : fs.locate p = .ok place) :
  place = fs.placeOf p
  := by
  rw [locate] at h
  split at h
  · cases h
  · exact eq_foldl_of_walk h

/-- One step of a walk goes on from a directory, along a name that is not too long. -/
theorem walk_singleton_eq_ok_iff {fs : Files} {place target : Place} {name : String} :
  fs.walk place [name] = .ok target
    ↔ fs.get? place = some .directory ∧ name.utf8ByteSize ≤ maxNameSize
      ∧ target = Path.step place name
  := by
  rw [walk]
  split
  · next hplace =>
    rw [hplace]
    split
    · next hlong => simp [Nat.not_le.mpr hlong]
    · next hshort =>
      rw [walk, Except.ok.injEq]
      constructor
      · intro htarget
        exact ⟨rfl, Nat.le_of_not_lt hshort, htarget.symm⟩
      · rintro ⟨-, -, htarget⟩
        exact htarget.symm
  · next hplace => simp [hplace]
  · next hplace => simp [hplace]

theorem walk_concat_eq_ok_iff {fs : Files} {place target : Place} {names : List String}
    {name : String} :
  fs.walk place (names ++ [name]) = .ok target
    ↔ ∃ dir, fs.walk place names = .ok dir ∧ fs.get? dir = some .directory
      ∧ name.utf8ByteSize ≤ maxNameSize ∧ target = Path.step dir name
  := by
  rw [walk_append]
  cases h : fs.walk place names with
  | error cause =>
      constructor
      · rintro ⟨⟩
      · rintro ⟨dir, ⟨⟩, -⟩
  | ok dir =>
      constructor
      · intro htarget
        exact ⟨dir, rfl, walk_singleton_eq_ok_iff.mp htarget⟩
      · rintro ⟨dir', hdir, hstep⟩
        obtain rfl := Except.ok.inj hdir
        exact walk_singleton_eq_ok_iff.mpr hstep

/-- Whether whatever is a directory in one tree is one in another. -/
def DirectoriesStay (fs fs' : Files) : Prop :=
  ∀ p, fs.get? p = some .directory → fs'.get? p = some .directory

/-- A walk can be repeated as long as no directory has gone away. -/
theorem walk_of_directoriesStay {fs fs' : Files} (hstay : fs.DirectoriesStay fs')
    {place target : Place} {names : List String} (h : fs.walk place names = .ok target) :
  fs'.walk place names = .ok target
  := by
  induction names generalizing place with
  | nil => exact h
  | cons name names ih =>
      rw [walk] at h ⊢
      split at h
      · next hplace =>
        rw [hstay place hplace]
        dsimp only
        split at h
        · cases h
        · next hshort =>
          rw [if_neg hshort]
          exact ih h
      · cases h
      · cases h

theorem locate_of_directoriesStay {fs fs' : Files} (hhere : fs'.here = fs.here)
    (hstay : fs.DirectoriesStay fs') {p : Path} {place : Place} (h : fs.locate p = .ok place) :
  fs'.locate p = .ok place
  := by
  rw [locate] at h ⊢
  rw [hhere]
  split at h
  · cases h
  · next hshort =>
    rw [if_neg hshort]
    exact walk_of_directoriesStay hstay h

/-! ### Reaching a place -/

/-- Whether a path leads somewhere: nothing on the way to its place but directories. -/
def Reaches (fs : Files) (p : Path) : Prop := fs.locate p = .ok (fs.placeOf p)

theorem locate_eq_ok_iff {fs : Files} {p : Path} {place : Place} :
  fs.locate p = .ok place ↔ fs.Reaches p ∧ place = fs.placeOf p
  := by
  constructor
  · intro h
    have hplace := eq_placeOf_of_locate h
    exact ⟨h.trans (congrArg _ hplace), hplace⟩
  · rintro ⟨h, rfl⟩
    exact h

theorem exists_locate_error_of_not_reaches {fs : Files} {p : Path} (h : ¬ fs.Reaches p) :
  ∃ cause, fs.locate p = .error cause
  := by
  cases hplace : fs.locate p with
  | ok place => exact absurd (locate_eq_ok_iff.mp hplace).1 h
  | error cause => exact ⟨cause, rfl⟩

theorem Reaches.of_directoriesStay {fs fs' : Files} (hhere : fs'.here = fs.here)
    (hstay : fs.DirectoriesStay fs') {p : Path} (h : fs.Reaches p) :
  fs'.Reaches p
  := by
  rw [Reaches, placeOf_congr hhere]
  exact locate_of_directoriesStay hhere hstay h

/-- What a call leads to is where the path starts, or a step from a directory. -/
theorem Reaches.cases {fs : Files} {p : Path} (h : fs.Reaches p) :
  (p.names = [] ∧ fs.placeOf p = fs.startOf p)
    ∨ ∃ names name dir, p.names = names ++ [name] ∧ fs.get? dir = some .directory
      ∧ fs.placeOf p = Path.step dir name
  := by
  rw [Reaches, locate] at h
  split at h
  · cases h
  · rcases List.eq_nil_or_concat p.names with hnil | ⟨names, name, hnames⟩
    · rw [hnil, walk] at h
      exact .inl ⟨hnil, (Except.ok.inj h).symm⟩
    · rw [List.concat_eq_append] at hnames
      rw [hnames, walk_concat_eq_ok_iff] at h
      obtain ⟨dir, -, hdir, -, hplace⟩ := h
      exact .inr ⟨names, name, dir, hnames, hdir, hplace⟩

namespace IsTree

variable {fs : Files} (tree : fs.IsTree)

include tree

theorem startOf (p : Path) :
  fs.get? (fs.startOf p) = some .directory
  := by
  rw [Files.startOf]
  split
  · exact tree.here
  · exact get?_nil fs

theorem step {place : Place} (h : fs.get? place = some .directory) (name : String) :
  fs.get? (Path.step place name).dropLast = some .directory
  := by
  rw [Path.step]
  split
  · exact tree.parent (tree.parent h)
  · rw [List.dropLast_concat]
    exact h

/-- What a call leads to lies in a directory. -/
theorem parent_of_reaches {p : Path} (h : fs.Reaches p) :
  fs.get? (fs.placeOf p).dropLast = some .directory
  := by
  rcases h.cases with ⟨-, hplace⟩ | ⟨names, name, dir, -, hdir, hplace⟩
  · rw [hplace]
    exact tree.parent (tree.startOf p)
  · rw [hplace]
    exact tree.step hdir name

/-- A path that does not lead to a directory ends with a name. -/
theorem endsWithName_of_reaches {p : Path} (h : fs.Reaches p)
    (hnot : fs.get? (fs.placeOf p) ≠ some .directory) :
  endsWithName p = true
  := by
  rcases h.cases with ⟨-, hplace⟩ | ⟨names, name, dir, hnames, hdir, hplace⟩
  · rw [hplace] at hnot
    exact absurd (tree.startOf p) hnot
  · have hname : name ≠ ".." := by
      rintro rfl
      rw [hplace, Path.step, if_pos rfl] at hnot
      exact hnot (tree.parent hdir)
    simp [endsWithName, hnames, hname]

end IsTree

/-! ### What is on the way -/

/-- The places that a path leads through, from its start to its own place. -/
def onTheWay (fs : Files) (p : Path) : Set Place :=
  { place | ∃ names, names <+: p.names ∧ place = fs.placeOf { p with names } }

theorem onTheWay_congr {fs fs' : Files} (h : fs'.here = fs.here) (p : Path) :
  fs'.onTheWay p = fs.onTheWay p
  := by
  rw [onTheWay, onTheWay]
  congr! 5
  rw [placeOf_congr h]

theorem mem_onTheWay_of_names_eq_nil (fs : Files) {p : Path} (h : p.names = []) {place : Place} :
  place ∈ fs.onTheWay p ↔ place = fs.placeOf p
  := by
  obtain ⟨start, names⟩ := p
  obtain rfl : names = [] := h
  constructor
  · rintro ⟨names', hinitial, rfl⟩
    rw [List.prefix_nil.mp hinitial]
  · rintro rfl
    exact ⟨[], List.prefix_rfl, rfl⟩

theorem placeOf_mem_onTheWay (fs : Files) (p : Path) :
  fs.placeOf p ∈ fs.onTheWay p
  := ⟨p.names, List.prefix_rfl, rfl⟩

theorem onTheWay_parent_subset (fs : Files) (p : Path) :
  fs.onTheWay p.parent ⊆ fs.onTheWay p
  := by
  rintro place ⟨names, hinitial, rfl⟩
  exact ⟨names, hinitial.trans (List.dropLast_prefix p.names), rfl⟩

theorem isPrefix_dropLast {names names' : List String} (h : names <+: names') (hne : names ≠ names') :
  names <+: names'.dropLast
  := by
  rcases List.eq_nil_or_concat names' with rfl | ⟨front, name, rfl⟩
  · exact absurd (List.prefix_nil.mp h) hne
  · rw [List.concat_eq_append] at h hne ⊢
    rw [List.dropLast_concat]
    exact (List.prefix_concat_iff.mp h).resolve_left hne

theorem walk_eq_ok_iff {fs : Files} {place target : Place} {names : List String} :
  fs.walk place names = .ok target
    ↔ (∀ name ∈ names, name.utf8ByteSize ≤ maxNameSize)
      ∧ (∀ front, front <+: names → front ≠ names →
        fs.get? (front.foldl Path.step place) = some .directory)
      ∧ target = names.foldl Path.step place
  := by
  induction names using List.reverseRecOn generalizing target with
  | nil => simp [walk, eq_comm]
  | append_singleton names name ih =>
      rw [walk_concat_eq_ok_iff]
      simp only [ih, List.foldl_append, List.foldl_cons, List.foldl_nil, List.forall_mem_append,
        List.forall_mem_singleton]
      constructor
      · rintro ⟨dir, ⟨hsizes, hdirs, rfl⟩, hdir, hsize, rfl⟩
        refine ⟨⟨hsizes, hsize⟩, ?_, rfl⟩
        intro front hinitial hne
        have hfront := (List.prefix_concat_iff.mp hinitial).resolve_left hne
        by_cases heq : front = names
        · rw [heq]
          exact hdir
        · exact hdirs front hfront heq
      · rintro ⟨⟨hsizes, hsize⟩, hdirs, rfl⟩
        have hlonger : ∀ front, front <+: names → front ≠ names ++ [name] := by
          rintro front hinitial rfl
          have hlength := hinitial.length_le
          rw [List.length_append, List.length_singleton] at hlength
          omega
        refine ⟨names.foldl Path.step place, ⟨hsizes, ?_, rfl⟩, ?_, hsize, rfl⟩
        · intro front hinitial hne
          exact hdirs front (hinitial.trans (List.prefix_append _ _)) (hlonger front hinitial)
        · exact hdirs names (List.prefix_append _ _) (hlonger names List.prefix_rfl)

/-- A path leads somewhere if it and its names are not too long and all that is on the way to its
place is a directory. -/
theorem reaches_iff {fs : Files} {p : Path} :
  fs.Reaches p
    ↔ p.toString.utf8ByteSize ≤ maxPathSize ∧ (∀ name ∈ p.names, name.utf8ByteSize ≤ maxNameSize)
      ∧ ∀ names, names <+: p.names → names ≠ p.names →
        fs.get? (fs.placeOf { p with names }) = some .directory
  := by
  rw [Reaches, locate]
  split
  · next h => simp [Nat.not_le.mpr h]
  · next h =>
    rw [walk_eq_ok_iff]
    simp [Nat.le_of_not_lt h, placeOf, Path.resolveFrom]

/-- Names that lead through directories lead somewhere, unless one of them is too long. -/
theorem walk_of_directories {fs : Files} {place : Place} {names : List String}
    (h : ∀ front, front <+: names → front ≠ names →
      fs.get? (front.foldl Path.step place) = some .directory) :
  fs.walk place names = .ok (names.foldl Path.step place)
    ∨ fs.walk place names = .error .nameTooLong
  := by
  induction names generalizing place with
  | nil => exact .inl rfl
  | cons name names ih =>
      have hplace := h [] (List.nil_prefix) (List.cons_ne_nil name names).symm
      rw [List.foldl_nil] at hplace
      rw [walk, hplace]
      dsimp only
      split
      · exact .inr rfl
      · apply ih
        intro front hinitial hne
        exact h (name :: front) (List.cons_prefix_cons.mpr ⟨rfl, hinitial⟩)
          fun heq => hne (List.cons.inj heq).2

/-- The path of what is in a tree leads there, unless it or one of its names is too long. -/
theorem IsTree.reaches_fromRoot {fs : Files} (tree : fs.IsTree) {place : Place} (hproper : IsProper place)
    (hthere : fs.get? place ≠ none) :
  fs.Reaches (Path.fromRoot place) ∨ fs.locate (Path.fromRoot place) = .error .nameTooLong
  := by
  have hplaces : ∀ front, front <+: place → front.foldl Path.step [] = front := by
    intro front hinitial
    exact @placeOf_fromRoot fs front fun name hname => hproper name (hinitial.subset hname)
  rw [Reaches, placeOf_fromRoot hproper, locate]
  split
  · exact .inr rfl
  · have hwalk := @walk_of_directories fs [] place fun front hinitial hne => by
      rw [hplaces front hinitial]
      by_contra hnot
      exact hthere (tree.get?_of_isPrefix hnot hinitial (Ne.symm hne))
    rw [hplaces place List.prefix_rfl] at hwalk
    exact hwalk

/-- A path that leads nowhere though no file is on its way is missing a directory. -/
theorem locate_eq_notFound {fs : Files} {p : Path}
    (hsize : p.toString.utf8ByteSize ≤ maxPathSize)
    (hsizes : ∀ name ∈ p.names, name.utf8ByteSize ≤ maxNameSize)
    (hfree : ∀ place ∈ fs.onTheWay p, fs.bytesAt? place = none) (h : ¬ fs.Reaches p) :
  fs.locate p = .error .notFound
  := by
  have hwalk : ∀ names, names <+: p.names →
      fs.walk (fs.startOf p) names = .error .notFound
        ∨ fs.walk (fs.startOf p) names = .ok (fs.placeOf { p with names }) := by
    intro names hinitial
    induction names using List.reverseRecOn with
    | nil => exact .inr rfl
    | append_singleton names name ih =>
        have hfront := (List.prefix_append names [name]).trans hinitial
        have hname := hsizes name (hinitial.subset (List.mem_append_right _ List.mem_cons_self))
        rw [walk_append]
        rcases ih hfront with herror | hok
        · rw [herror]
          exact .inl rfl
        · rw [hok]
          have hbytes := hfree _ ⟨names, hfront, rfl⟩
          rcases fs.get?_cases (fs.placeOf { p with names }) with hget | hget | ⟨bytes, hget⟩
          · refine .inl ?_
            rw [Except.bind, walk, hget]
          · refine .inr ?_
            rw [Except.bind, walk_singleton_eq_ok_iff]
            refine ⟨hget, hname, ?_⟩
            simp [placeOf, Path.resolveFrom]
          · rw [bytesAt?_eq_some_iff.mpr hget] at hbytes
            cases hbytes
  rw [Reaches] at h
  rw [locate, if_neg (Nat.not_lt.mpr hsize)] at h ⊢
  rcases hwalk p.names List.prefix_rfl with herror | hok
  · exact herror
  · exact absurd hok h

/-- All that is on the way to a path that leads somewhere is a directory. -/
theorem Reaches.get?_of_mem_onTheWay {fs : Files} {p : Path} (h : fs.Reaches p) {place : Place}
    (hplace : place ∈ fs.onTheWay p) :
  place = fs.placeOf p ∨ fs.get? place = some .directory
  := by
  obtain ⟨names, hinitial, rfl⟩ := hplace
  by_cases heq : names = p.names
  · subst heq
    exact .inl rfl
  · exact .inr ((reaches_iff.mp h).2.2 names hinitial heq)

/-- All that is on the way to the parent of a path that leads somewhere is a directory. -/
theorem Reaches.get?_of_mem_onTheWay_parent {fs : Files} {p : Path} (h : fs.Reaches p)
    (hp : p.names ≠ []) {place : Place} (hplace : place ∈ fs.onTheWay p.parent) :
  fs.get? place = some .directory
  := by
  obtain ⟨names, hinitial, rfl⟩ := hplace
  apply (reaches_iff.mp h).2.2 names (hinitial.trans (List.dropLast_prefix p.names))
  rintro rfl
  have hlength := hinitial.length_le
  have hpos := List.length_pos_of_ne_nil hp
  rw [Path.parent, List.length_dropLast] at hlength
  omega

/-! ### Calls -/

variable {fs fs' : Files} {p q : Path} {bytes : List UInt8}

theorem entry_eq_ok_iff {e : Entry} :
  fs.entry p = .ok e ↔ fs.Reaches p ∧ fs.get? (fs.placeOf p) = some e
  := by
  rw [entry]
  by_cases h : fs.Reaches p
  · rw [show fs.locate p = _ from h]
    cases he : fs.get? (fs.placeOf p) with
    | none => simp [bind, Except.bind, he, throw, throwThe, MonadExceptOf.throw]
    | some e' => simp [bind, Except.bind, he, pure, Except.pure, h]
  · obtain ⟨cause, hcause⟩ := exists_locate_error_of_not_reaches h
    simp [hcause, bind, Except.bind, h]

/-- A file is read where its path leads. -/
theorem read_eq_ok_iff :
  fs.read p = .ok bytes ↔ fs.Reaches p ∧ fs.bytesAt? (fs.placeOf p) = some bytes
  := by
  rw [bytesAt?_eq_some_iff, ← entry_eq_ok_iff, read]
  cases fs.entry p with
  | error cause => simp [bind, Except.bind]
  | ok e =>
      cases e with
      | directory => simp [bind, Except.bind, throw, throwThe, MonadExceptOf.throw]
      | file bytes' => simp [bind, Except.bind, pure, Except.pure]

/-- A file is written where its path leads, unless a directory is there. -/
theorem write_eq_ok_iff :
  fs.write p bytes = .ok fs'
    ↔ fs.Reaches p ∧ fs.get? (fs.placeOf p) ≠ some .directory
      ∧ fs' = fs.put (fs.placeOf p) (.file bytes)
  := by
  rw [write]
  by_cases h : fs.Reaches p
  · rw [show fs.locate p = _ from h]
    rcases fs.get?_cases (fs.placeOf p) with hget | hget | ⟨bytes', hget⟩ <;>
      simp [bind, Except.bind, hget, pure, Except.pure, throw, throwThe, MonadExceptOf.throw, h,
        eq_comm]
  · obtain ⟨cause, hcause⟩ := exists_locate_error_of_not_reaches h
    simp [hcause, bind, Except.bind, h]

/-- What is removed is a file. -/
theorem remove_eq_ok_iff :
  fs.remove p = .ok fs'
    ↔ fs.Reaches p ∧ fs.bytesAt? (fs.placeOf p) ≠ none ∧ fs' = fs.erase (fs.placeOf p)
  := by
  rw [remove]
  by_cases h : fs.Reaches p
  · rw [show fs.locate p = _ from h]
    rcases fs.get?_cases (fs.placeOf p) with hget | hget | ⟨bytes', hget⟩ <;>
      simp [bind, Except.bind, hget, pure, Except.pure, throw, throwThe, MonadExceptOf.throw, h,
        bytesAt?, eq_comm]
  · obtain ⟨cause, hcause⟩ := exists_locate_error_of_not_reaches h
    simp [hcause, bind, Except.bind, h]

/-- A directory is created where nothing is. -/
theorem makeDir_eq_ok_iff :
  fs.makeDir p = .ok fs'
    ↔ fs.Reaches p ∧ fs.get? (fs.placeOf p) = none ∧ fs' = fs.put (fs.placeOf p) .directory
  := by
  rw [makeDir]
  by_cases h : fs.Reaches p
  · rw [show fs.locate p = _ from h]
    rcases fs.get?_cases (fs.placeOf p) with hget | hget | ⟨bytes', hget⟩ <;>
      simp [bind, Except.bind, hget, pure, Except.pure, throw, throwThe, MonadExceptOf.throw, h,
        eq_comm]
  · obtain ⟨cause, hcause⟩ := exists_locate_error_of_not_reaches h
    simp [hcause, bind, Except.bind, h]

theorem reaches_of_rename (h : fs.rename p q = .ok fs') :
  fs.Reaches p
  := by
  by_contra hp
  obtain ⟨cause, hcause⟩ := exists_locate_error_of_not_reaches hp
  rw [rename, hcause] at h
  cases h

/-- What is renamed to a path that leads to a file is a file. -/
theorem bytesAt?_of_rename
    (hdirectory : fs.get? (fs.placeOf p) = some .directory → fs.bytesAt? (fs.placeOf q) ≠ none)
    (h : fs.rename p q = .ok fs') :
  ∃ bytes, fs.bytesAt? (fs.placeOf p) = some bytes
  := by
  rw [rename, show fs.locate p = _ from reaches_of_rename h] at h
  by_cases hq : fs.Reaches q
  · rw [show fs.locate q = _ from hq] at h
    rcases fs.get?_cases (fs.placeOf p) with hget | hget | ⟨bytes, hget⟩
    · simp only [bind, Except.bind, hget] at h
      split at h
      · cases h
      · cases h
    · obtain ⟨bytes, hbytes⟩ := Option.ne_none_iff_exists'.mp (hdirectory hget)
      rw [bytesAt?_eq_some_iff] at hbytes
      simp only [bind, Except.bind, hget, hbytes] at h
      split at h
      · cases h
      · cases h
    · exact ⟨bytes, bytesAt?_eq_some_iff.mpr hget⟩
  · obtain ⟨cause, hcause⟩ := exists_locate_error_of_not_reaches hq
    rw [hcause] at h
    cases h

/-- A file gets the name of a path where its path leads, unless a directory is there. -/
theorem rename_eq_ok_iff (hp : fs.Reaches p) (hfile : fs.bytesAt? (fs.placeOf p) = some bytes) :
  fs.rename p q = .ok fs'
    ↔ endsWithName p = true ∧ endsWithName q = true ∧ fs.Reaches q
      ∧ fs.get? (fs.placeOf q) ≠ some .directory
      ∧ fs' = if fs.placeOf p = fs.placeOf q then fs else fs.move (fs.placeOf p) (fs.placeOf q)
  := by
  rw [bytesAt?_eq_some_iff] at hfile
  rw [rename, show fs.locate p = _ from hp]
  by_cases hq : fs.Reaches q
  · rw [show fs.locate q = _ from hq]
    by_cases hpn : endsWithName p = true
    · by_cases hqn : endsWithName q = true
      · rcases fs.get?_cases (fs.placeOf q) with h | h | ⟨bytes', h⟩
        · by_cases heq : fs.placeOf p = fs.placeOf q
          · rw [← heq, hfile] at h
            cases h
          · simpa [bind, Except.bind, hpn, hqn, hfile, h, heq, pure, Except.pure, hq] using eq_comm
        · simp [bind, Except.bind, hpn, hqn, hfile, h, throw, throwThe, MonadExceptOf.throw]
        · by_cases heq : fs.placeOf p = fs.placeOf q
          · rw [← heq] at h ⊢
            simpa [bind, Except.bind, hpn, hqn, hfile, pure, Except.pure, hq] using eq_comm
          · simpa [bind, Except.bind, hpn, hqn, hfile, h, heq, pure, Except.pure, hq] using eq_comm
      · simp [bind, Except.bind, hpn, hqn, throw, throwThe, MonadExceptOf.throw]
    · simp [bind, Except.bind, hpn, throw, throwThe, MonadExceptOf.throw]
  · obtain ⟨cause, hcause⟩ := exists_locate_error_of_not_reaches hq
    simp [hcause, bind, Except.bind, hq]

end StylePrune.Files
