import Mathlib.Data.List.Nodup
import StylePrune.Oversight
import StylePrune.Proofs.Files.Kinds
import StylePrune.Proofs.Job.Calls

/-!
# Finding and reading files

What discovery lists below a root are the files there that it wants (`Files.mem_discover_iff`), each
once and under a path of its own, if their names are proper (`Files.eq_of_toString_eq`).  A source file
is read as a text that depends on the file alone (`Job.content?`); reading adds to the log at most
(`World.Logs`), also under an oversight (`Overseen.of_reading`).
-/

namespace StylePrune

namespace Files

variable {fs : Files} {root names place place' : Place} {suffixes : List String}

/-! ### Discovery -/

/-- Whether the file that some names lead to from a root is wanted. -/
structure Finds (fs : Files) (root : Place) (suffixes : List String) (names : Place) : Prop where
  wanted : isWanted suffixes names = true
  there : fs.bytesAt? (root ++ names) ≠ none

theorem get?_of_mem {e : Entry} (hplace : place ≠ []) (h : (place, e) ∈ fs.entries) :
  fs.get? place = some e
  := by
  obtain ⟨e', he'⟩ := Option.ne_none_iff_exists'.mp (get?_ne_none_of_mem hplace h)
  have heq := List.inj_on_of_nodup_map fs.nodup (mem_entries_of_get? hplace he') h rfl
  rw [he', (Prod.mk.inj heq).2]

/-- How an entry below a place is listed: with the names that lead to it from there. -/
theorem listed_iff {e e' : Entry} :
  (if root.isPrefixOf place ∧ place.length ≠ root.length then some (place.drop root.length, e)
      else none) = some (names, e')
    ↔ place = root ++ names ∧ names ≠ [] ∧ e = e'
  := by
  constructor
  · intro h
    split at h
    · next hbelow =>
      obtain ⟨rest, rfl⟩ := List.isPrefixOf_iff_prefix.mp hbelow.1
      obtain ⟨hnames, rfl⟩ := Prod.mk.inj (Option.some.inj h)
      rw [List.drop_left] at hnames
      subst hnames
      refine ⟨rfl, ?_, rfl⟩
      rintro rfl
      exact hbelow.2 (by simp)
    · cases h
  · rintro ⟨rfl, hne, rfl⟩
    rw [if_pos, List.drop_left]
    refine ⟨List.isPrefixOf_iff_prefix.mpr (List.prefix_append root names), ?_⟩
    have := List.length_pos_of_ne_nil hne
    rw [List.length_append]
    omega

theorem mem_below_iff {e : Entry} :
  (names, e) ∈ fs.below root ↔ names ≠ [] ∧ fs.get? (root ++ names) = some e
  := by
  rw [below, List.mem_filterMap]
  constructor
  · rintro ⟨⟨place, e'⟩, hmem, hbelow⟩
    obtain ⟨rfl, hne, rfl⟩ := listed_iff.mp hbelow
    exact ⟨hne, get?_of_mem (List.append_ne_nil_of_right_ne_nil root hne) hmem⟩
  · rintro ⟨hne, hget⟩
    exact ⟨(root ++ names, e), mem_entries_of_get? (List.append_ne_nil_of_right_ne_nil root hne) hget,
      listed_iff.mpr ⟨rfl, hne, rfl⟩⟩

theorem nodup_below (fs : Files) (root : Place) :
  ((fs.below root).map Prod.fst).Nodup
  := by
  rw [List.Nodup, List.pairwise_map, below, List.pairwise_filterMap]
  apply (List.pairwise_map.mp fs.nodup).imp
  rintro ⟨place, e⟩ ⟨place', e'⟩ hne ⟨names, e₁⟩ hlisted ⟨names', e₁'⟩ hlisted' heq
  obtain ⟨rfl, -⟩ := listed_iff.mp hlisted
  obtain ⟨rfl, -⟩ := listed_iff.mp hlisted'
  exact hne (congrArg (root ++ ·) heq)

/-- How a wanted file is listed. -/
theorem wanted_iff {e : Entry} :
  (match e with
      | .file _ => if isWanted suffixes names then some names else none
      | .directory => none) = some place
    ↔ place = names ∧ isWanted suffixes names = true ∧ ∃ bytes, e = .file bytes
  := by
  cases e with
  | directory =>
      constructor
      · rintro ⟨⟩
      · rintro ⟨-, -, bytes, ⟨⟩⟩
  | file bytes =>
      dsimp only
      split
      · next hwanted =>
        constructor
        · rintro ⟨⟩
          exact ⟨rfl, hwanted, bytes, rfl⟩
        · rintro ⟨rfl, -⟩
          rfl
      · next hunwanted =>
        constructor
        · rintro ⟨⟩
        · rintro ⟨-, hwanted, -⟩
          exact absurd hwanted hunwanted

/-- Discovery lists the wanted files below a root. -/
theorem mem_discover_iff (hroot : fs.get? root = some .directory) :
  names ∈ fs.discover root suffixes ↔ fs.Finds root (suffixes.map Text.lowerString) names
  := by
  rw [discover, List.mem_mergeSort, List.mem_filterMap]
  constructor
  · rintro ⟨⟨names', e⟩, hbelow, hsome⟩
    obtain ⟨rfl, hwanted, bytes, rfl⟩ := wanted_iff.mp hsome
    refine ⟨hwanted, ?_⟩
    rw [bytesAt?_eq_some_iff.mpr (mem_below_iff.mp hbelow).2]
    rintro ⟨⟩
  · rintro ⟨hwanted, hthere⟩
    obtain ⟨bytes, hbytes⟩ := Option.ne_none_iff_exists'.mp hthere
    refine ⟨(names, .file bytes), mem_below_iff.mpr ⟨?_, bytesAt?_eq_some_iff.mp hbytes⟩,
      wanted_iff.mpr ⟨rfl, hwanted, bytes, rfl⟩⟩
    rintro rfl
    rw [List.append_nil, bytesAt?_of_directory hroot] at hbytes
    cases hbytes

/-- What discovery lists was looked at. -/
theorem mem_lookedAt_of_mem_discover (h : names ∈ fs.discover root suffixes) :
  names ∈ fs.lookedAt root suffixes
  := by
  rw [discover, List.mem_mergeSort, List.mem_filterMap] at h
  obtain ⟨⟨names', e⟩, hbelow, hsome⟩ := h
  obtain ⟨rfl, hwanted, -⟩ := wanted_iff.mp hsome
  refine List.mem_map.mpr ⟨(names, e), List.mem_filter.mpr ⟨hbelow, ?_⟩, rfl⟩
  rw [isWanted, Bool.and_eq_true] at hwanted
  dsimp only
  rw [hwanted.1, Bool.or_true]

/-- Discovery lists no file twice. -/
theorem nodup_discover (fs : Files) (root : Place) (suffixes : List String) :
  (fs.discover root suffixes).Nodup
  := by
  rw [discover, (List.mergeSort_perm _ _).nodup_iff, List.Nodup, List.pairwise_filterMap]
  apply (List.pairwise_map.mp (nodup_below fs root)).imp
  rintro ⟨names, e⟩ ⟨names', e'⟩ hne found hfound found' hfound'
  obtain ⟨rfl, -⟩ := wanted_iff.mp hfound
  obtain ⟨rfl, -⟩ := wanted_iff.mp hfound'
  exact hne

theorem placeNotAfter_iff {p q : Place} :
  placeNotAfter p q = true ↔ ¬ q < p
  := by
  rw [placeNotAfter, Bool.not_eq_true', decide_eq_false_iff_not]

/-- Discovery lists files in the order of their places. -/
theorem pairwise_discover (fs : Files) (root : Place) (suffixes : List String) :
  (fs.discover root suffixes).Pairwise fun p q => placeNotAfter p q = true
  := by
  apply List.pairwise_mergeSort
  · intro p q r
    simp only [placeNotAfter_iff, List.not_lt]
    exact List.le_trans
  · intro p q
    simp only [Bool.or_eq_true, placeNotAfter_iff, List.not_lt]
    exact List.le_total p q

/-- What is listed below a directory depends on what is below it only. -/
theorem discover_congr {fs' : Files} {root' : Place} (hroot : fs.get? root = some .directory)
    (h : ∀ names, fs'.get? (root' ++ names) = fs.get? (root ++ names)) (suffixes : List String) :
  fs'.discover root' suffixes = fs.discover root suffixes
  := by
  have hroot' : fs'.get? root' = some .directory := by
    have hsame := h []
    rw [List.append_nil, List.append_nil] at hsame
    exact hsame.trans hroot
  have hmem : ∀ names, names ∈ fs'.discover root' suffixes ↔ names ∈ fs.discover root suffixes := by
    intro names
    rw [mem_discover_iff hroot, mem_discover_iff hroot']
    constructor
    · rintro ⟨hwanted, hthere⟩
      exact ⟨hwanted, bytesAt?_congr (h names) ▸ hthere⟩
    · rintro ⟨hwanted, hthere⟩
      exact ⟨hwanted, bytesAt?_congr (h names) ▸ hthere⟩
  apply List.Perm.eq_of_pairwise _ (pairwise_discover fs' root' suffixes)
    (pairwise_discover fs root suffixes)
  · exact (List.perm_ext_iff_of_nodup (nodup_discover _ _ _) (nodup_discover _ _ _)).mpr hmem
  · intro p q _ _ hpq hqp
    rw [placeNotAfter_iff, List.not_lt] at hpq hqp
    exact List.le_antisymm hpq hqp

/-! ### Proper names -/

/-- Whether all names in a tree are proper. -/
def IsNamed (fs : Files) : Prop := ∀ place, fs.get? place ≠ none → IsProper place

theorem IsNamed.of_eq_some (named : fs.IsNamed) {e : Entry} (h : fs.get? place = some e) :
  IsProper place
  := by
  apply named
  rw [h]
  rintro ⟨⟩

/-- Whether all names are proper can be seen from the entries. -/
theorem isNamed_of_entries (h : ∀ x ∈ fs.entries, IsProper x.1) :
  fs.IsNamed
  := by
  intro place hthere
  obtain ⟨e, he⟩ := Option.ne_none_iff_exists'.mp hthere
  by_cases hplace : place = []
  · rw [hplace]
    exact List.forall_mem_nil _
  · exact h _ (mem_entries_of_get? hplace he)

theorem Finds.isProper (h : fs.Finds root suffixes names) (named : fs.IsNamed) :
  IsProper (root ++ names)
  := by
  obtain ⟨bytes, hbytes⟩ := Option.ne_none_iff_exists'.mp h.there
  exact named.of_eq_some (bytesAt?_eq_some_iff.mp hbytes)

/-- A path leads to the same place when it is made absolute. -/
theorem placeOf_fromRoot_placeOf (tree : fs.IsTree) (named : fs.IsNamed) (p : Path) :
  fs.placeOf (Path.fromRoot (fs.placeOf p)) = fs.placeOf p
  := by
  rw [placeOf_of_notMem]
  · rfl
  · intro hdots
    rcases of_mem_placeOf hdots with hhere | ⟨-, hne⟩
    · exact (named.of_eq_some tree.here ".." hhere).2 rfl
    · exact hne rfl

/-- The path of a file is that of no other one. -/
theorem eq_of_toString_eq (hplace : IsProper place) (hplace' : IsProper place')
    (h : (Path.fromRoot place).toString = (Path.fromRoot place').toString) :
  place = place'
  := by
  have hpath := congrArg Path.ofString h
  rw [ofString_toString_of_isProper hplace, ofString_toString_of_isProper hplace'] at hpath
  exact (Path.mk.inj hpath).2

end Files

/-! ### Reading -/

/-- Whether a world has become another by warnings alone. -/
def World.Logs (w w' : World) : Prop := ∃ log, w' = { w with log }

theorem World.Logs.refl (w : World) :
  w.Logs w
  := ⟨w.log, rfl⟩

theorem World.Logs.trans {w w' w'' : World} (h : w.Logs w') (h' : w'.Logs w'') :
  w.Logs w''
  := by
  obtain ⟨log, rfl⟩ := h
  obtain ⟨log', rfl⟩ := h'
  exact ⟨log', rfl⟩

/-- Whether whatever is looked at below a root has a path that can be used. -/
def World.CanBeLookedAt (w : World) (root : Place) (suffixes : List String) : Prop :=
  ∀ names ∈ w.files.lookedAt root suffixes,
    ∃ found, Job.find? (Path.fromRoot (root ++ names)) w = .ok found w

theorem World.CanBeLookedAt.of_logs {w w' : World} {root : Place} {suffixes : List String}
    (h : w.CanBeLookedAt root suffixes) (hlogs : w.Logs w') :
  w'.CanBeLookedAt root suffixes
  := by
  obtain ⟨log, rfl⟩ := hlogs
  intro names hnames
  obtain ⟨found, hfound⟩ := h names hnames
  exact ⟨found, Job.find?_eq_ok_iff.mpr ⟨rfl, (Job.find?_eq_ok_iff.mp hfound).2⟩⟩

namespace Job

variable {w w' : World} {p : Path} {t : Text} {root : Place} {suffixes : List String}

theorem isDirectory_of_logs (h : isDirectory p w = .ok true w) (hlogs : w.Logs w') :
  isDirectory p w' = .ok true w'
  := by
  obtain ⟨log, rfl⟩ := hlogs
  obtain ⟨hnull, hreach, hget, -⟩ := isDirectory_eq_true_iff.mp h
  exact isDirectory_eq_true_iff.mpr ⟨hnull, hreach, hget, rfl⟩

/-- The text of a file, if it can be read. -/
def text? (p : Path) (w : World) : Option Text :=
  match readText p w with
  | .ok t _ => some t
  | .error .. => none

theorem text?_eq_some_iff :
  text? p w = some t ↔ readText p w = .ok t w
  := by
  rw [text?]
  cases hread : readText p w with
  | ok t' w₁ =>
      obtain ⟨-, -, -, rfl⟩ := readText_eq_ok_iff.mp hread
      simp
  | error fault w₁ => simp

/-- The text of a file is a matter of what its path holds. -/
theorem text?_congr {q : Path} (h : ∀ bytes, w'.Holds q bytes ↔ w.Holds p bytes) :
  text? q w' = text? p w
  := by
  apply Option.ext
  intro t
  simp only [text?_eq_some_iff, readText_eq_ok_iff, h, and_true]

theorem text?_of_logs (p : Path) (h : w.Logs w') :
  text? p w' = text? p w
  := by
  obtain ⟨log, rfl⟩ := h
  exact text?_congr fun _ => ⟨fun h => ⟨h.noNull, h.reaches, h.bytes⟩,
    fun h => ⟨h.noNull, h.reaches, h.bytes⟩⟩

/-- The text of a source file with its line ends made one, if the file can be read and is not blank. -/
def content? (p : Path) (w : World) : Option Text :=
  ((text? p w).map Text.unifyLineEnds).filter fun t => !Text.blank t

theorem content?_of_logs (p : Path) (h : w.Logs w') :
  content? p w' = content? p w
  := by
  rw [content?, text?_of_logs p h, content?]

/-- The world with one more warning about a file that was passed over. -/
def skipping (category message : String) (p : Path) (w : World) : World :=
  { w with log := w.log ++ [⟨category, message, some p⟩] }

theorem readSource_apply (p : Path) (w : World) :
  readSource p w
    = match readText p w with
      | .ok t w' =>
        if Text.blank (Text.unifyLineEnds t) then .ok none (skipping "empty" "Skipped empty file" p w')
        else .ok (some (Text.unifyLineEnds t)) w'
      | .error (.system error) w' =>
        .ok none (skipping "read" ("Skipped unreadable file (" ++ error.message ++ ")") p w')
      | .error (.undecodable fault) w' =>
        .ok none (skipping "read" ("Skipped unreadable file (" ++ fault.message ++ ")") p w')
      | .error fault w' => .error fault w'
  := by
  simp only [readSource, bind, EStateM.bind, tryCatch, tryCatchThe, MonadExceptOf.tryCatch,
    EStateM.tryCatch]
  cases readText p w with
  | ok t w' =>
      dsimp only
      cases Text.blank (Text.unifyLineEnds t) <;> rfl
  | error fault w' => cases fault <;> rfl

/-- A source file is read as its text, and passed over with a warning if it has none. -/
theorem of_readSource {found : Option Text} (h : readSource p w = .ok found w') :
  found = content? p w ∧ w.Logs w'
  := by
  rw [readSource_apply] at h
  rw [content?, text?]
  cases hread : readText p w with
  | ok t w₁ =>
      obtain ⟨-, -, -, rfl⟩ := readText_eq_ok_iff.mp hread
      rw [hread] at h
      dsimp only at h
      split at h
      · next hblank =>
        obtain ⟨rfl, rfl⟩ := EStateM.Result.ok.inj h
        exact ⟨by simp [Option.filter, hblank], _, rfl⟩
      · next hblank =>
        obtain ⟨rfl, rfl⟩ := EStateM.Result.ok.inj h
        exact ⟨by simp [Option.filter, hblank], .refl _⟩
  | error fault w₁ =>
      have hleft := left_readText p w
      rw [hread] at h hleft
      obtain rfl : w₁ = w := hleft
      cases fault with
      | system | undecodable =>
          obtain ⟨rfl, rfl⟩ := EStateM.Result.ok.inj h
          exact ⟨rfl, _, rfl⟩
      | _ => cases h

theorem lookUp_eq_ok_iff {paths : List Path} :
  lookUp paths w = .ok () w' ↔ (∀ p ∈ paths, ∃ found, find? p w = .ok found w) ∧ w' = w
  := by
  induction paths with
  | nil =>
      rw [lookUp, pure_apply]
      simp [eq_comm]
  | cons p paths ih =>
      rw [lookUp, bind_eq_ok_iff, List.forall_mem_cons]
      constructor
      · rintro ⟨found, w₁, hfound, hrest⟩
        obtain rfl := (find?_eq_ok_iff.mp hfound).1
        obtain ⟨hfounds, rfl⟩ := ih.mp hrest
        exact ⟨⟨⟨found, hfound⟩, hfounds⟩, rfl⟩
      · rintro ⟨⟨⟨found, hfound⟩, hfounds⟩, rfl⟩
        exact ⟨found, w', hfound, ih.mpr ⟨hfounds, rfl⟩⟩

/-- What is found below a root directory: the wanted files, if whatever is looked at has a path that can
be used. -/
theorem filesBelow_eq_ok_iff {files : List Path} (hroot : Files.IsProper root)
    (hdirectory : isDirectory (Path.fromRoot root) w = .ok true w) :
  filesBelow (Path.fromRoot root) suffixes w = .ok files w'
    ↔ w.CanBeLookedAt root suffixes
      ∧ files = (w.files.discover root suffixes).map (fun names => Path.fromRoot (root ++ names))
      ∧ w' = w
  := by
  have hresolve : resolve (Path.fromRoot root) w = .ok (Path.fromRoot root) w := by
    rw [resolve_eq_ok_iff, Files.placeOf_fromRoot hroot]
    exact ⟨(isDirectory_eq_true_iff.mp hdirectory).1, rfl, rfl⟩
  have hlookUp : lookUp ((w.files.lookedAt root suffixes).map
        fun names => Path.fromRoot (root ++ names)) w = .ok () w'
      ↔ w.CanBeLookedAt root suffixes ∧ w' = w := by
    rw [lookUp_eq_ok_iff, List.forall_mem_map, World.CanBeLookedAt]
  constructor
  · intro h
    obtain ⟨p, w₁, hp, h⟩ := bind_eq_ok_iff.mp h
    obtain ⟨rfl, rfl⟩ := EStateM.Result.ok.inj (hresolve.symm.trans hp)
    obtain ⟨found, w₂, hfound, h⟩ := bind_eq_ok_iff.mp h
    obtain ⟨rfl, rfl⟩ := EStateM.Result.ok.inj (hdirectory.symm.trans hfound)
    obtain ⟨w₂, w₃, hget, h⟩ := bind_eq_ok_iff.mp h
    obtain ⟨rfl, rfl⟩ := EStateM.Result.ok.inj hget
    obtain ⟨_, w₄, hlooked, h⟩ := bind_eq_ok_iff.mp h
    obtain ⟨rfl, rfl⟩ := EStateM.Result.ok.inj h
    obtain ⟨hlooked, rfl⟩ := hlookUp.mp hlooked
    exact ⟨hlooked, rfl, rfl⟩
  · rintro ⟨hlooked, rfl, rfl⟩
    refine bind_eq_ok_iff.mpr ⟨_, w', hresolve, bind_eq_ok_iff.mpr ⟨_, w', hdirectory, ?_⟩⟩
    refine bind_eq_ok_iff.mpr ⟨w', w', rfl, ?_⟩
    exact bind_eq_ok_iff.mpr ⟨(), w', hlookUp.mpr ⟨hlooked, rfl⟩, rfl⟩

end Job

/-! ### Under an oversight -/

namespace Overseen

variable {σ α β : Type} {w w' : World} {s s' : σ} {a : α} {b : β}

theorem job_eq_ok_iff {j : Job α} :
  job j (w, s) = .ok a (w', s') ↔ j w = .ok a w' ∧ s' = s
  := by
  rw [job]
  cases j w with
  | ok a' w₁ => simp [and_assoc, eq_comm]
  | error fault w₁ => simp

theorem job_bind_eq_ok_iff {j : Job α} {f : α → Overseen σ β} {ws : World × σ} :
  (job j >>= f) (w, s) = .ok b ws ↔ ∃ a w₁, j w = .ok a w₁ ∧ f a (w₁, s) = .ok b ws
  := by
  rw [Job.bind_eq_ok_iff]
  constructor
  · rintro ⟨a, ⟨w₁, s₁⟩, hjob, h⟩
    obtain ⟨hanswer, rfl⟩ := job_eq_ok_iff.mp hjob
    exact ⟨a, w₁, hanswer, h⟩
  · rintro ⟨a, w₁, hjob, h⟩
    exact ⟨a, (w₁, s), job_eq_ok_iff.mpr ⟨hjob, rfl⟩, h⟩

theorem overseer_eq_ok_iff {t : Overseer σ α} :
  overseer t (w, s) = .ok a (w', s') ↔ t s = .ok a s' ∧ w' = w
  := by
  rw [overseer]
  cases t s with
  | ok a' s₁ =>
      constructor
      · rintro ⟨⟩
        exact ⟨rfl, rfl⟩
      · rintro ⟨⟨⟩, rfl⟩
        rfl
  | error fault s₁ => simp

theorem checkpoint_eq_ok_iff {stops : σ → Bool} {activity : Activity} {ws : World × σ} :
  checkpoint stops activity (w, s) = .ok () ws ↔ stops s = false ∧ ws = (w, s)
  := by
  change (if stops s then throw (.cancelled activity) else pure () : Overseen σ Unit) (w, s) = _ ↔ _
  cases stops s with
  | true =>
      constructor
      · rintro ⟨⟩
      · rintro ⟨⟨⟩, -⟩
  | false =>
      constructor
      · intro h
        exact ⟨rfl, (EStateM.Result.ok.inj h).2.symm⟩
      · rintro ⟨-, rfl⟩
        rfl

/-- An overseen step over a source file reads it and tells of it, and then goes on. -/
theorem reading_eq_ok_iff {stops : σ → Bool} {activity : Activity} {p : Path}
    {tell : Overseer σ Unit} {rest : Option Text → Overseen σ β} {ws : World × σ} :
  (checkpoint stops activity >>= fun _ => job (Job.readSource p) >>= fun content =>
      overseer tell >>= fun _ => rest content) (w, s) = .ok b ws
    ↔ stops s = false ∧ ∃ content w₁ s₁, Job.readSource p w = .ok content w₁ ∧ tell s = .ok () s₁
      ∧ rest content (w₁, s₁) = .ok b ws
  := by
  constructor
  · intro h
    obtain ⟨_, ws₁, hcheck, h₁⟩ := Job.bind_eq_ok_iff.mp h
    obtain ⟨hgoes, rfl⟩ := checkpoint_eq_ok_iff.mp hcheck
    obtain ⟨content, w₁, hread, h₂⟩ := job_bind_eq_ok_iff.mp h₁
    obtain ⟨_, ⟨w₂, s₂⟩, htell, h₃⟩ := Job.bind_eq_ok_iff.mp h₂
    obtain ⟨htold, rfl⟩ := overseer_eq_ok_iff.mp htell
    exact ⟨hgoes, content, w₂, s₂, hread, htold, h₃⟩
  · rintro ⟨hgoes, content, w₁, s₁, hread, htold, h⟩
    refine Job.bind_eq_ok_iff.mpr ⟨(), _, checkpoint_eq_ok_iff.mpr ⟨hgoes, rfl⟩, ?_⟩
    refine job_bind_eq_ok_iff.mpr ⟨content, w₁, hread, ?_⟩
    exact Job.bind_eq_ok_iff.mpr ⟨(), _, overseer_eq_ok_iff.mpr ⟨htold, rfl⟩, h⟩

/-- How an overseen step over a source file goes on: with the text of the file, if it has one. -/
theorem of_reading {stops : σ → Bool} {activity : Activity} {p : Path} {tell : Overseer σ Unit}
    {rest : Option Text → Overseen σ β}
    (h : (checkpoint stops activity >>= fun _ => job (Job.readSource p) >>= fun content =>
      overseer tell >>= fun _ => rest content) (w, s) = .ok b (w', s')) :
  ∃ w₁ s₁, w.Logs w₁ ∧ rest (Job.content? p w) (w₁, s₁) = .ok b (w', s')
  := by
  obtain ⟨-, content, w₁, s₁, hread, -, hrest⟩ := reading_eq_ok_iff.mp h
  obtain ⟨rfl, hlogs⟩ := Job.of_readSource hread
  exact ⟨w₁, s₁, hlogs, hrest⟩

end Overseen

end StylePrune
