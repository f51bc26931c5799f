import StylePrune.Proofs.Analysis.Sources
import StylePrune.Proofs.Backup.Ledger

/-!
# When an analysis answers

A source file can be read, or is passed over, unless its path holds the character that ends names
(`Job.exists_readSource_iff`).  What the files hold does not decide whether an analysis ends with an
answer, but only how many there are and what the oversight makes of that (`Analysis.exists_run_iff`).
-/

namespace StylePrune

namespace Job

variable {w : World} {p : Path}

theorem exists_readSource_iff :
  (∃ content w', readSource p w = .ok content w') ↔ hasNull p = false
  := by
  rw [readSource_apply]
  cases hread : readText p w with
  | ok t w₁ =>
      obtain ⟨bytes, hholds, -⟩ := readText_eq_ok_iff.mp hread
      dsimp only
      split
      · simp [hholds.noNull]
      · simp [hholds.noNull]
  | error fault w₁ =>
      rcases (readText_eq_error hread).2 with ⟨error, rfl, hnull⟩ | ⟨rfl, hnull⟩
        | ⟨bytes, cause, hholds, -, rfl⟩
      · simp [hnull]
      · simp [hnull]
      · simp [hholds.noNull]

theorem hasNull_fromRoot_append (root names : Place) :
  hasNull (Path.fromRoot (root ++ names))
    = (hasNull (Path.fromRoot root) || hasNull (Path.fromRoot names))
  := List.any_append

end Job

/-- Whether the files below the root that a path leads to can be looked for, and then read or passed
over. -/
structure World.ReadsAt (w : World) (p : Path) (suffixes : List String) : Prop
    extends w.OpensAt p suffixes where
  readable : ∀ file ∈ w.filesAt p suffixes, Job.hasNull file = false

namespace World

variable {w : World} {p : Path} {suffixes : List String}

theorem OpensAt.hasNull_fromRoot (h : w.OpensAt p suffixes) :
  Job.hasNull (Path.fromRoot (w.files.placeOf p)) = false
  := (Job.isDirectory_eq_true_iff.mp h.directory).1

/-- The files below a root can be read if they can be looked for and their own names are without the
character that ends names. -/
theorem readsAt_iff :
  w.ReadsAt p suffixes ↔ w.OpensAt p suffixes
    ∧ ∀ names ∈ w.files.discover (w.files.placeOf p) suffixes,
      Job.hasNull (Path.fromRoot names) = false
  := by
  have hreadable : ∀ hopens : w.OpensAt p suffixes,
      (∀ file ∈ w.filesAt p suffixes, Job.hasNull file = false)
        ↔ ∀ names ∈ w.files.discover (w.files.placeOf p) suffixes,
          Job.hasNull (Path.fromRoot names) = false := by
    intro hopens
    rw [filesAt, List.forall_mem_map]
    simp only [Job.hasNull_fromRoot_append, hopens.hasNull_fromRoot, Bool.false_or]
  constructor
  · rintro ⟨hopens, h⟩
    exact ⟨hopens, (hreadable hopens).mp h⟩
  · rintro ⟨hopens, h⟩
    exact ⟨hopens, (hreadable hopens).mpr h⟩

/-- A file below a root that can be read holds what is at its place. -/
theorem ReadsAt.holds_iff (h : w.ReadsAt p suffixes) (tree : w.files.IsTree) (named : w.files.IsNamed)
    {names : Place} (hnames : names ∈ w.files.discover (w.files.placeOf p) suffixes)
    {bytes : List UInt8} :
  w.Holds (Path.fromRoot (w.files.placeOf p ++ names)) bytes
    ↔ w.files.bytesAt? (w.files.placeOf p ++ names) = some bytes
  := by
  have hroot := (get?_of_isDirectory tree named h.directory).1
  have hfinds := (Files.mem_discover_iff hroot).mp hnames
  have hproper := hfinds.isProper named
  have hthere : w.files.get? (w.files.placeOf p ++ names) ≠ none := by
    obtain ⟨bytes, hbytes⟩ := Option.ne_none_iff_exists'.mp hfinds.there
    rw [Files.bytesAt?_eq_some_iff.mp hbytes]
    rintro ⟨⟩
  have hnull := h.readable _ (List.mem_map_of_mem hnames)
  have hreaches : w.files.Reaches (Path.fromRoot (w.files.placeOf p ++ names)) := by
    apply (tree.reaches_fromRoot hproper hthere).resolve_right
    intro hlong
    obtain ⟨found, hfound⟩ := h.lookedAt names (Files.mem_lookedAt_of_mem_discover hnames)
    have hentry : w.files.entry (Path.fromRoot (w.files.placeOf p ++ names)) = .error .nameTooLong := by
      rw [Files.entry, hlong]
      rfl
    rcases (Job.find?_eq_ok_iff.mp hfound).2 with ⟨hnull', -⟩ | ⟨-, ⟨e, he, -⟩ | ⟨he | he, -⟩⟩
    · rw [hnull] at hnull'
      cases hnull'
    · cases hentry.symm.trans he
    · cases hentry.symm.trans he
    · cases hentry.symm.trans he
  have hplace : w.files.placeOf (Path.fromRoot (w.files.placeOf p ++ names)) = w.files.placeOf p ++ names :=
    Files.placeOf_fromRoot hproper
  constructor
  · rintro ⟨-, -, hbytes⟩
    exact hplace ▸ hbytes
  · intro hbytes
    exact ⟨hnull, hreaches, hplace.symm ▸ hbytes⟩

end World

/-- Where every entry has a path that can be used, the files below a directory can be read. -/
theorem World.readsAt_of_entries {w : World} {p : Path} {suffixes : List String}
    (hnull : Job.hasNull p = false) (hroot : w.files.get? (w.files.placeOf p) = some .directory)
    (h : ∀ x ∈ w.files.entries, Job.hasNull (Path.fromRoot x.1) = false
      ∧ w.files.entry (Path.fromRoot x.1) = .ok x.2) :
  w.ReadsAt p suffixes
  := by
  have hthere : ∀ {place e}, w.files.get? place = some e →
      Job.hasNull (Path.fromRoot place) = false ∧ w.files.entry (Path.fromRoot place) = .ok e := by
    intro place e he
    by_cases hplace : place = []
    · subst hplace
      rw [Files.get?_nil] at he
      obtain rfl := Option.some.inj he
      exact ⟨rfl, rfl⟩
    · exact h (place, e) (Files.mem_entries_of_get? hplace he)
  constructor
  · constructor
    · exact hnull
    · obtain ⟨hnull, hentry⟩ := hthere hroot
      obtain ⟨hreaches, hget⟩ := Files.entry_eq_ok_iff.mp hentry
      exact Job.isDirectory_eq_true_iff.mpr ⟨hnull, hreaches, hget, rfl⟩
    · intro names hnames
      obtain ⟨⟨names, e⟩, hlisted, rfl⟩ := List.mem_map.mp hnames
      obtain ⟨hnull, hentry⟩ := hthere (Files.mem_below_iff.mp (List.mem_of_mem_filter hlisted)).2
      exact ⟨some e, Job.find?_eq_ok_iff.mpr ⟨rfl, .inr ⟨hnull, .inl ⟨e, hentry, rfl⟩⟩⟩⟩
  · intro file hfile
    obtain ⟨names, hnames, rfl⟩ := List.mem_map.mp hfile
    obtain ⟨bytes, hbytes⟩ :=
      Option.ne_none_iff_exists'.mp ((Files.mem_discover_iff hroot).mp hnames).there
    exact (hthere (Files.bytesAt?_eq_some_iff.mp hbytes)).1

/-- The state of an oversight when it was told of some more files, if it did not stop on the way. -/
def stateAfter? {σ : Type} (stops : σ → Bool) (tell : Nat → Overseer σ Unit) :
    Nat → Nat → σ → Option σ
  | _, 0, s => some s
  | done, count + 1, s =>
    if stops s then none
    else
      match tell (done + 1) s with
      | .ok () s => stateAfter? stops tell (done + 1) count s
      | .error .. => none

section Oversight

variable {σ β : Type} {stops : σ → Bool} {tell : Nat → Overseer σ Unit} {done count : Nat} {s s' : σ}

theorem stateAfter?_succ_eq_some_iff :
  stateAfter? stops tell done (count + 1) s = some s'
    ↔ stops s = false ∧ ∃ s₁, tell (done + 1) s = .ok () s₁
      ∧ stateAfter? stops tell (done + 1) count s₁ = some s'
  := by
  rw [stateAfter?]
  cases stops s with
  | true => simp
  | false => cases tell (done + 1) s <;> simp

/-- An oversight that does nothing stops at no file. -/
theorem stateAfter?_alone (done count : Nat) (s : Unit) :
  stateAfter? (fun _ => false) (fun _ => (pure () : Overseer Unit Unit)) done count s = some ()
  := by
  induction count generalizing done with
  | zero => rfl
  | succ count ih => exact stateAfter?_succ_eq_some_iff.mpr ⟨rfl, s, rfl, ih (done + 1)⟩

variable (tell) in
/-- When overseen steps over source files answer: if each of the files can be read or passed over, the
oversight does not stop, and the rest answers whatever was read. -/
theorem exists_reading_iff {activity : Activity} {p : Path} {rest : Option Text → Overseen σ β}
    {good : Prop} {w : World}
    (hrest : ∀ content w₁ s₁, (∃ b w', rest content (w₁, s₁) = .ok b (w', s'))
      ↔ good ∧ stateAfter? stops tell (done + 1) count s₁ = some s') :
  (∃ b w', (Overseen.checkpoint stops activity >>= fun _ =>
      Overseen.job (Job.readSource p) >>= fun content =>
        Overseen.overseer (tell (done + 1)) >>= fun _ => rest content) (w, s) = .ok b (w', s'))
    ↔ (Job.hasNull p = false ∧ good) ∧ stateAfter? stops tell done (count + 1) s = some s'
  := by
  rw [stateAfter?_succ_eq_some_iff]
  constructor
  · rintro ⟨b, w', h⟩
    obtain ⟨hgoes, content, w₁, s₁, hread, htold, h⟩ := Overseen.reading_eq_ok_iff.mp h
    obtain ⟨hgood, hafter⟩ := (hrest content w₁ s₁).mp ⟨b, w', h⟩
    exact ⟨⟨Job.exists_readSource_iff.mp ⟨content, w₁, hread⟩, hgood⟩, hgoes, s₁, htold, hafter⟩
  · rintro ⟨⟨hnull, hgood⟩, hgoes, s₁, htold, hafter⟩
    obtain ⟨content, w₁, hread⟩ := Job.exists_readSource_iff.mpr hnull
    obtain ⟨b, w', h⟩ := (hrest content w₁ s₁).mpr ⟨hgood, hafter⟩
    exact ⟨b, w', Overseen.reading_eq_ok_iff.mpr ⟨hgoes, content, w₁, s₁, hread, htold, h⟩⟩

/-- When a scan answers. -/
theorem Usage.exists_scanFiles_iff {names : List Text} {files : List Path} {found : Findings}
    {w : World} :
  (∃ found' w', scanFiles stops (fun done _ => tell done) names done files found (w, s)
      = .ok found' (w', s'))
    ↔ (∀ p ∈ files, Job.hasNull p = false) ∧ stateAfter? stops tell done files.length s = some s'
  := by
  induction files generalizing done found w s with
  | nil => simp [scanFiles, stateAfter?, Job.pure_apply]
  | cons p files ih =>
      rw [scanFiles_cons, List.forall_mem_cons, List.length_cons]
      exact exists_reading_iff tell fun _ _ _ => ih

end Oversight

namespace Analysis

variable {σ : Type} {stops : σ → Bool} {report : Progress → Overseer σ Unit}
    {request : AnalysisRequest} {w : World} {s s' : σ}

/-- When reading stylesheets answers. -/
theorem exists_readStylesheets_iff {styles : Path} {total done : Nat} {files : List Path}
    {tally : Tally} :
  (∃ tally' w', readStylesheets stops report request styles total done files tally (w, s)
      = .ok tally' (w', s'))
    ↔ (∀ p ∈ files, Job.hasNull p = false)
      ∧ stateAfter? stops (fun done => report ⟨.stylesheets, done, total⟩) done files.length s = some s'
  := by
  induction files generalizing done tally w s with
  | nil => simp [readStylesheets, stateAfter?, Job.pure_apply]
  | cons p files ih =>
      rw [readStylesheets_cons, List.forall_mem_cons, List.length_cons]
      exact exists_reading_iff (fun done => report ⟨.stylesheets, done, total⟩) fun _ _ _ => ih

/-- When an analysis answers. -/
theorem exists_run_iff (tree : w.files.IsTree) (named : w.files.IsNamed) :
  (∃ a w', run stops report request (w, s) = .ok a (w', s'))
    ↔ w.ReadsAt request.styles Files.stylesheetSuffixes
      ∧ w.ReadsAt request.components Files.componentSuffixes
      ∧ w.filesAt request.styles Files.stylesheetSuffixes ≠ []
      ∧ ∃ s₁, stateAfter? stops (fun done => report ⟨.stylesheets, done,
            (w.filesAt request.styles Files.stylesheetSuffixes).length⟩) 0
            (w.filesAt request.styles Files.stylesheetSuffixes).length s = some s₁
          ∧ stateAfter? stops (fun done => report ⟨.components, done,
            (w.filesAt request.components Files.componentSuffixes).length⟩) 0
            (w.filesAt request.components Files.componentSuffixes).length s₁ = some s'
  := by
  constructor
  · rintro ⟨a, w', h⟩
    obtain ⟨hstyles, hcomponents, hsome, tally, w₁, s₁, found, hread, hscan, -⟩ :=
      (run_eq_ok_iff tree named).mp h
    obtain ⟨hreadable, hafter⟩ := exists_readStylesheets_iff.mp ⟨tally, w₁, hread⟩
    obtain ⟨hreadable', hafter'⟩ := Usage.exists_scanFiles_iff.mp ⟨found, w', hscan⟩
    exact ⟨⟨hstyles, hreadable⟩, ⟨hcomponents, hreadable'⟩, hsome, s₁, hafter, hafter'⟩
  · rintro ⟨⟨hstyles, hreadable⟩, ⟨hcomponents, hreadable'⟩, hsome, s₁, hafter, hafter'⟩
    obtain ⟨tally, w₁, hread⟩ := exists_readStylesheets_iff.mpr ⟨hreadable, hafter⟩
    obtain ⟨found, w', hscan⟩ := Usage.exists_scanFiles_iff.mpr ⟨hreadable', hafter'⟩
    exact ⟨_, w', (run_eq_ok_iff tree named).mpr
      ⟨hstyles, hcomponents, hsome, tally, w₁, s₁, found, hread, hscan, rfl⟩⟩

/-- What an analysis answers that nobody stops. -/
def answer? (request : AnalysisRequest) (w : World) : Option Analysis :=
  match run (fun _ => false) (fun _ => pure ()) request (w, ()) with
  | .ok a _ => some a
  | .error .. => none

theorem answer?_eq_some_iff {a : Analysis} :
  answer? request w = some a
    ↔ ∃ ws, run (fun _ => false) (fun _ => pure ()) request (w, ()) = .ok a ws
  := by
  rw [answer?]
  cases run (fun _ => false) (fun _ => pure ()) request (w, ()) <;> simp

/-- An analysis that nobody stops answers if the files below its roots can be read. -/
theorem exists_answer?_iff (tree : w.files.IsTree) (named : w.files.IsNamed) :
  (∃ a, answer? request w = some a)
    ↔ w.ReadsAt request.styles Files.stylesheetSuffixes
      ∧ w.ReadsAt request.components Files.componentSuffixes
      ∧ w.filesAt request.styles Files.stylesheetSuffixes ≠ []
  := by
  have hrun := @exists_run_iff Unit (fun _ => false) (fun _ => pure ()) request w () () tree named
  simp only [stateAfter?_alone, and_true, exists_const] at hrun
  rw [← hrun]
  constructor
  · rintro ⟨a, ha⟩
    obtain ⟨⟨w', ⟨⟩⟩, h⟩ := answer?_eq_some_iff.mp ha
    exact ⟨a, w', h⟩
  · rintro ⟨a, w', h⟩
    exact ⟨a, answer?_eq_some_iff.mpr ⟨_, h⟩⟩

/-- Where every entry has a path that can be used, an analysis that nobody stops answers if there is a
stylesheet. -/
theorem exists_answer?_of_entries (tree : w.files.IsTree) (named : w.files.IsNamed)
    (hentries : ∀ x ∈ w.files.entries, Job.hasNull (Path.fromRoot x.1) = false
      ∧ w.files.entry (Path.fromRoot x.1) = .ok x.2)
    (hnull : Job.hasNull request.styles = false) (hnull' : Job.hasNull request.components = false)
    (hstyles : w.files.get? (w.files.placeOf request.styles) = some .directory)
    (hcomponents : w.files.get? (w.files.placeOf request.components) = some .directory)
    {names : Place}
    (hsheet : w.files.Finds (w.files.placeOf request.styles) Files.stylesheetSuffixes names) :
  ∃ a, answer? request w = some a
  := by
  refine (exists_answer?_iff tree named).mpr ⟨World.readsAt_of_entries hnull hstyles hentries,
    World.readsAt_of_entries hnull' hcomponents hentries, ?_⟩
  have hsuffixes : Files.stylesheetSuffixes.map Text.lowerString = Files.stylesheetSuffixes := by
    decide
  apply List.ne_nil_of_mem
  apply List.mem_map_of_mem
  rw [Files.mem_discover_iff hstyles, hsuffixes]
  exact hsheet

end Analysis

end StylePrune
