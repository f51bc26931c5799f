import StylePrune.Proofs.Prune.Alone

/-!
# All or nothing

However a run of a plan ends, and whatever fails, is declined or is cancelled on the way, each
stylesheet is as it was or has all of its new text (`Plan.allOrNothing_run`).  What the run comes to
has what pruning it alone leaves there, unless another stylesheet's backup makes the directory that it
is reached through, or a copy would take the place of a directory that the manifest still needs.
-/

namespace StylePrune.Prune.Plan

open Job BackupStore

variable {σ : Type}

/-- What a run of a plan leaves of the stylesheets. -/
structure AllOrNothing (m : BackupStore) (options : Options) (supervisor : Supervisor σ) (plan : Plan)
    (w : World) (s : σ) : Prop where
  /-- A stylesheet of the plan is as it was, or has the new text; the latter in a live run that comes
  to it. -/
  each : ∀ front entry rest, plan = front ++ entry :: rest →
    (worldOf (run m options supervisor plan (w, s))).files.bytesAt? (w.files.placeOf (fileOf entry))
        = w.files.bytesAt? (w.files.placeOf (fileOf entry))
      ∨ options.dryRun = false ∧ (∃ w₁, ComesTo m options supervisor front entry w s w₁)
        ∧ IsPruned (namesOf entry) (w.files.placeOf (fileOf entry)) w.files
          (worldOf (run m options supervisor plan (w, s))).files
  /-- All other stylesheets are as they were. -/
  others : ∀ place, Files.IsStylesheetAt place →
    (∀ entry ∈ plan, place ≠ w.files.placeOf (fileOf entry)) →
    (worldOf (run m options supervisor plan (w, s))).files.bytesAt? place
      = w.files.bytesAt? place
  /-- What is not written according to its outcome is as it was. -/
  notWritten : ∀ outcomes ws, run m options supervisor plan (w, s) = .ok outcomes ws →
    ∀ o ∈ outcomes, o.written = false →
      ws.1.files.bytesAt? (w.files.placeOf o.file) = w.files.bytesAt? (w.files.placeOf o.file)
  /-- A stylesheet that the run comes to has what pruning it alone leaves there. -/
  alone : ∀ front entry rest w₁, plan = front ++ entry :: rest →
    ComesTo m options supervisor front entry w s w₁ →
    (options.createBackup = true → m.IsWayClear w) →
    (".." ∉ (fileOf entry).names ∨ w.files.Reaches (fileOf entry)) →
    ¬ RunsOutOfNames m options (fileOf entry) (namesOf entry) w →
    ¬ RunsOutOfNames m options (fileOf entry) (namesOf entry) w₁ →
    (worldOf (run m options supervisor plan (w, s))).files.bytesAt? (w.files.placeOf (fileOf entry))
      = (left (pruneFile m options (fileOf entry) (namesOf entry) w)).files.bytesAt?
        (w.files.placeOf (fileOf entry))

variable {m : BackupStore} {options : Options} {supervisor : Supervisor σ} {plan : Plan} {w : World}
    {s : σ}

/-- A run is all or nothing for each stylesheet. -/
theorem allOrNothing_run (tree : w.files.IsTree) (htokens : ∀ i, IsToken (w.tokens i))
    (hfiles : ∀ entry ∈ plan, (fileOf entry).IsStylesheet) (hdistinct : IsDistinct plan w.files) :
  AllOrNothing m options supervisor plan w s
  := by
  constructor
  · rintro front entry rest rfl
    exact bytesAt?_run_cases tree hfiles hdistinct
  · intro place hplace hnot
    apply (within_run tree hfiles).files.bytes
    intro htouched
    obtain ⟨entry, hentry, heq⟩ := htouched hplace
    exact hnot entry hentry heq
  · intro outcomes ws hrun o ho
    exact (of_mem_run tree hfiles hdistinct hrun ho).2
  · rintro front entry rest w₁ rfl hcomes hclear hdots hnames hnames'
    exact bytesAt?_run_of_comesTo tree hfiles hdistinct htokens hclear hdots hnames hnames' hcomes

/-! ### Alone and in a batch, twice -/

/-- A supervisor that never interferes. -/
def unattended : Supervisor Unit := { stops := fun _ => false }

/-- The answer that a job ends with, if it ends with one. -/
def answerOf {ε τ α : Type} : EStateM.Result ε τ α → Option α
  | .ok a _ => some a
  | .error .. => none

theorem comesTo_unattended {front : Plan} {entry : String × List ClassDefinition}
    (h : (answerOf (run m options unattended front (w, ()))).isSome = true) (hne : entry.2 ≠ []) :
  ComesTo m options unattended front entry w () (worldOf (run m options unattended front (w, ())))
  := by
  cases hrun : run m options unattended front (w, ()) with
  | ok outcomes ws => exact ⟨outcomes, ws.2, hrun, rfl, hne, (), rfl⟩
  | error fault ws =>
      rw [hrun] at h
      cases h

theorem not_runsOutOfNames {file : Path} {names : List Text}
    (h : (answerOf (pruneFile m options file names w)).bind Outcome.error = none) :
  ¬ RunsOutOfNames m options file names w
  := by
  rintro ⟨o, w', p, hprune, herror⟩
  rw [hprune] at h
  cases herror.symm.trans h

/-- Two stylesheets with a rule each that goes and one that stays. -/
def twoSheets : World :=
  { files := (({} : Files).put ["a.css"] (.file (Text.Utf8.encode ".a \x7b \x7d\n.k \x7b \x7d\n".toList))).put
      ["b.css"] (.file (Text.Utf8.encode ".b \x7b \x7d\n.k \x7b \x7d\n".toList))
    now := { year := 2024, month := 1, day := 1 }
    tokens := fun i => String.ofList (Text.hex 6 i) }

/-- A store whose manifest lies in a directory. -/
def storeAt (directory : String) : BackupStore := ⟨some ⟨Path.ofString directory⟩⟩

/-- The entry of a plan that removes one name from a stylesheet. -/
def removing (name path : String) : String × List ClassDefinition :=
  (path, [⟨name.toList, .high, .direct, path⟩])

theorem isTree_twoSheets :
  twoSheets.files.IsTree
  := by
  apply Files.IsTree.put (Files.IsTree.put Files.isTree_empty _ _ _)
  all_goals decide

/-- With backups and a manifest in a new directory, each of two stylesheets has in the end what pruning
it alone leaves there. -/
theorem allOrNothing_run_twoSheets :
  let m := storeAt "m";
  let options : Options := { dryRun := false };
  let plan := [removing "b" "b.css", removing "a" "a.css"];
  twoSheets.files.IsTree ∧ (∀ i, IsToken (twoSheets.tokens i))
    ∧ (∀ entry ∈ plan, (fileOf entry).IsStylesheet) ∧ IsDistinct plan twoSheets.files
    ∧ (worldOf (run m options unattended plan (twoSheets, ()))).files.bytesAt? ["a.css"]
      = (left (pruneFile m options (Path.ofString "a.css") ["a".toList] twoSheets)).files.bytesAt?
        ["a.css"]
    ∧ (left (pruneFile m options (Path.ofString "a.css") ["a".toList] twoSheets)).files.bytesAt?
        ["a.css"] = some (Text.Utf8.encode ".k \x7b \x7d\n".toList)
  := by
  intro m options plan
  have htokens : ∀ i, IsToken (twoSheets.tokens i) := fun i => ⟨i, rfl⟩
  have hfiles : ∀ entry ∈ plan, (fileOf entry).IsStylesheet := by decide +kernel
  have hdistinct : IsDistinct plan twoSheets.files := by decide +kernel
  have hclear : m.IsWayClear twoSheets := by
    rintro place ⟨manifest, hm, names, hinitial, rfl⟩ hsuffix
    obtain rfl := Option.some.inj hm
    have hall : ∀ names ∈ (Path.ofString "m").names.inits,
        Files.suffixAt (twoSheets.files.placeOf ⟨.relative, names⟩) ≠ Files.copySuffix := by
      decide +kernel
    exact absurd hsuffix (hall names (List.mem_inits _ _ |>.mpr hinitial))
  use isTree_twoSheets, htokens, hfiles, hdistinct
  constructor
  · apply (allOrNothing_run isTree_twoSheets htokens hfiles hdistinct).alone
      [removing "b" "b.css"] (removing "a" "a.css") [] _ rfl (comesTo_unattended _ _) fun _ => hclear
    · exact .inl (by decide +kernel)
    · exact not_runsOutOfNames (by decide +kernel)
    · exact not_runsOutOfNames (by decide +kernel)
    · decide +kernel
    · decide +kernel
  · decide +kernel

/-- Whether a run that prunes another stylesheet first leaves other contents at `a.css` than pruning a
path that leads there alone. -/
def DiffersAlone (directory path : String) : Prop :=
  let m := storeAt directory;
  let options : Options := { dryRun := false };
  let plan := [removing "b" "b.css", removing "a" path];
  (∀ entry ∈ plan, (fileOf entry).IsStylesheet) ∧ IsDistinct plan twoSheets.files
    ∧ twoSheets.files.placeOf (Path.ofString path) = ["a.css"]
    ∧ (∃ w₁, ComesTo m options unattended [removing "b" "b.css"] (removing "a" path) twoSheets () w₁)
    ∧ (worldOf (run m options unattended plan (twoSheets, ()))).files.bytesAt? ["a.css"]
      ≠ (left (pruneFile m options (Path.ofString path) ["a".toList] twoSheets)).files.bytesAt?
        ["a.css"]

/-- What was backed up first can make a difference: the directory of the manifest, which it makes, is
the one that the copy of `a.css` would have taken the place of, or that `a.css` is reached through. -/
theorem bytesAt?_run_ne_alone :
  DiffersAlone "a.css.20240101_000000.bak" "a.css" ∧ DiffersAlone "m" "m/../a.css"
  := by
  refine ⟨⟨?_, ?_, ?_, ⟨_, comesTo_unattended ?_ ?_⟩, ?_⟩, ⟨?_, ?_, ?_, ⟨_, comesTo_unattended ?_ ?_⟩, ?_⟩⟩
  all_goals decide +kernel

end StylePrune.Prune.Plan
