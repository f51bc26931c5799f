import StylePrune.Proofs.Prune.Batch
import StylePrune.Proofs.Prune.Ending

/-!
# Alone and in a batch

Whether a stylesheet is written when it is pruned is read off the world (`Plan.Applies`).  What
pruning other stylesheets touches is beside it (`Plan.Beside`) and makes no difference to that.  So
in a batch a stylesheet has in the end what it has when it is pruned alone
(`Plan.bytesAt?_run_of_comesTo`).
-/

namespace StylePrune.Prune.Plan

open Job BackupStore

variable {σ : Type} {m : BackupStore} {options : Options} {supervisor : Supervisor σ} {file : Path}
    {names : List Text} {t : Text} {bytes : List UInt8} {o : Outcome} {w w' w'' : World}

/-! ### What a change needs -/

theorem hasNull_draftPath (h : hasNull file = false) :
  hasNull (draftPath file) = false
  := hasNull_besides h (by decide)

/-- Whether a stylesheet can be written is a matter of its draft. -/
theorem exists_writeInPlace_iff (tree : w.files.IsTree) (hfile : file.IsStylesheet)
    (hholds : w.Holds file bytes) (t : Text) :
  (∃ w', writeInPlace file t w = .ok () w')
    ↔ w.files.Reaches (draftPath file)
      ∧ w.files.get? (w.files.placeOf (draftPath file)) ≠ some .directory
  := by
  have hdraft : ∀ w', writeInPlace file t w = .ok () w'
      ↔ (writeBytes (draftPath file) (Text.Utf8.encode t) >>= fun _ => rename (draftPath file) file) w
        = .ok () w' := fun w' => writeInPlace_eq_ok_iff hfile.names_ne
  simp only [hdraft]
  rw [exists_writeBytes_rename_iff tree]
  constructor
  · rintro ⟨⟨-, hreach, hclear, -⟩, -⟩
    exact ⟨hreach, hclear⟩
  · rintro ⟨hreach, hclear⟩
    obtain ⟨name, -, hpath, -, hdots⟩ := hfile.exists_name
    refine ⟨⟨hasNull_draftPath hholds.noNull, hreach, hclear, ?_⟩, hholds.noNull, hholds.reaches,
      ?_, ?_⟩
    · exact endsWithName_child _ (Files.temporaryName_ne _ (.inr rfl))
    · intro hdirectory
      have hbytes := hholds.bytes
      rw [Files.bytesAt?_of_directory hdirectory] at hbytes
      cases hbytes
    · rw [hpath]
      exact endsWithName_child _ hdots

/-- What a change of a stylesheet needs: its copy can be named and recorded, if one is to be taken,
and no directory is or will be in the place of the draft. -/
structure Changeable (m : BackupStore) (options : Options) (file : Path) (w : World) : Prop where
  nameable : options.createBackup = true → Nameable file w
  admits : options.createBackup = true → m.AdmitsRecord w
  draft : w.files.Reaches (draftPath file)
  clear : w.files.get? (w.files.placeOf (draftPath file)) ≠ some .directory
  free : w.files.placeOf (draftPath file) ∉ madeFor m options w

/-- What a change needs that goes through. -/
theorem changeable_of_goesThrough (tree : w.files.IsTree) (hfile : file.IsStylesheet)
    (htokens : ∀ i, IsToken (w.tokens i)) (hclear : options.createBackup = true → m.IsWayClear w)
    (hholds : w.Holds file bytes) (h : GoesThrough m options file t w) :
  Changeable m options file w
  := by
  obtain ⟨copy, w₁, hprepares, hwrite⟩ := h
  rw [Prepares] at hprepares
  split at hprepares
  · next hcreate =>
    obtain ⟨b, -, htake⟩ := hprepares
    have h₁ : w.Becomes (touchedFor m file w) (madeFor m options w) w₁ :=
      (within_take_touchedFor tree hfile.names_ne hcreate w.log).of_ok htake
    obtain ⟨hname, hadmits⟩ := needs_of_take tree hfile.names_ne htokens (hclear hcreate) htake
    obtain ⟨bytes', -, hkeeps⟩ := exists_keeps_of_take tree hfile htake
    obtain ⟨hdraft, hnot⟩ := (exists_writeInPlace_iff h₁.files.tree hfile hkeeps.original t).mp hwrite
    rw [h₁.placeOf] at hnot
    refine ⟨fun _ => hname, fun _ => hadmits, ?_, mt (h₁.files.stay _) hnot, ?_⟩
    · exact (Files.reaches_sibling_congr hholds.reaches hkeeps.original.reaches hfile.names_ne
        _).mp hdraft
    · rintro ⟨-, hway⟩
      rw [← ledgerWay_congr h₁.files.here] at hway
      exact hnot ((isSettled_of_take tree hfile.names_ne htake).2 _ hway)
  · next hcreate =>
    obtain ⟨-, rfl⟩ := hprepares
    obtain ⟨hdraft, hnot⟩ := (exists_writeInPlace_iff tree hfile hholds t).mp hwrite
    exact ⟨fun h => absurd h hcreate, fun h => absurd h hcreate, hdraft, hnot,
      fun h => hcreate h.1⟩

/-- With what it needs a change goes through, unless the names for the copy run out. -/
theorem goesThrough_of_changeable (tree : w.files.IsTree) (hfile : file.IsStylesheet)
    (htokens : ∀ i, IsToken (w.tokens i)) (hclear : options.createBackup = true → m.IsWayClear w)
    (hholds : w.Holds file bytes) (h : Changeable m options file w) (t : Text) :
  GoesThrough m options file t w
    ∨ options.createBackup = true
      ∧ ∃ w', m.take file w = .error (.backup (.noFreshName file)) w'
  := by
  by_cases hcreate : options.createBackup = true
  · rcases exists_take tree hfile htokens (hclear hcreate) hholds (h.nameable hcreate)
      (h.admits hcreate) with ⟨b, w₁, htake⟩ | hnone
    · left
      have h₁ : w.Becomes (touchedFor m file w) (madeFor m options w) w₁ :=
        (within_take_touchedFor tree hfile.names_ne hcreate w.log).of_ok htake
      obtain ⟨bytes', -, hkeeps⟩ := exists_keeps_of_take tree hfile htake
      refine ⟨some b, w₁, ?_, (exists_writeInPlace_iff h₁.files.tree hfile hkeeps.original t).mpr
        ⟨h₁.files.reaches h.draft, ?_⟩⟩
      · rw [Prepares, if_pos hcreate]
        exact ⟨b, rfl, htake⟩
      · rw [h₁.placeOf]
        intro hdirectory
        rcases h₁.files.directory _ hdirectory with hdirectory | hmade
        · exact h.clear hdirectory
        · exact h.free hmade
    · exact .inr ⟨hcreate, hnone⟩
  · left
    refine ⟨none, w, ?_, (exists_writeInPlace_iff tree hfile hholds t).mpr ⟨h.draft, h.clear⟩⟩
    rw [Prepares, if_neg hcreate]
    exact ⟨rfl, rfl⟩

/-! ### What happens beside a stylesheet -/

/-- The places that are neither that of a stylesheet nor those for its copies. -/
def othersOf (file : Path) (w : World) : Set Place :=
  { place | place ≠ w.files.placeOf file
    ∧ ∀ mark, IsMark w mark → place ≠ w.files.placeOf (copyPath file mark) }

/-- Whether a world has become another beside a stylesheet: neither that nor the places for its copies
were touched, directories were made for the manifest only, and what that admits is the same. -/
structure Beside (m : BackupStore) (options : Options) (file : Path) (w w' : World) : Prop where
  becomes : w.Becomes (othersOf file w) (madeFor m options w) w'
  admits : options.createBackup = true → (m.AdmitsRecord w' ↔ m.AdmitsRecord w)

theorem othersOf_congr (hhere : w'.files.here = w.files.here) (hnow : w'.now = w.now)
    (htokens : w'.tokens = w.tokens) :
  othersOf file w' = othersOf file w
  := by
  simp only [othersOf, IsMark, Files.placeOf_congr hhere, hnow, htokens]

theorem madeFor_congr (hhere : w'.files.here = w.files.here) :
  madeFor m options w' = madeFor m options w
  := by
  rw [madeFor, madeFor, ledgerWay_congr hhere]

theorem Beside.refl (tree : w.files.IsTree) :
  Beside m options file w w
  := ⟨.refl tree, fun _ => Iff.rfl⟩

theorem Beside.trans (h : Beside m options file w w') (h' : Beside m options file w' w'') :
  Beside m options file w w''
  := by
  have hbecomes := h'.becomes
  rw [othersOf_congr h.becomes.files.here h.becomes.now h.becomes.tokens,
    madeFor_congr h.becomes.files.here] at hbecomes
  exact ⟨h.becomes.trans hbecomes, fun hcreate => (h'.admits hcreate).trans (h.admits hcreate)⟩

theorem beside_of_log (tree : w.files.IsTree) (log : List Warning) :
  Beside m options file w { w with log }
  := ⟨.of_log tree log, fun _ => admitsRecord_iff_of_becomes_empty (.of_log tree log)⟩

theorem nameable_iff_of_beside (h : Beside m options file w w') (hfile : file.IsStylesheet)
    (hclear : m.IsWayClear w) (hreach : w.files.Reaches file) :
  Nameable file w' ↔ Nameable file w
  := by
  have hsibling := Files.reaches_sibling_congr hreach (h.becomes.files.reaches hreach) hfile.names_ne
  have hfree : w'.files.get? (w.files.placeOf (copyPath file w.now.stamp)) = none
      ↔ w.files.get? (w.files.placeOf (copyPath file w.now.stamp)) = none := by
    apply h.becomes.files.get?_eq_none_iff
    · intro hothers
      exact hothers.2 w.now.stamp (.inl rfl) rfl
    · intro hmade
      exact hclear _ hmade.2 (suffixAt_copyPath w.files file _)
  constructor
  · rintro ⟨hfirst, hothers⟩
    rw [h.becomes.now] at hfirst
    rw [h.becomes.now, h.becomes.placeOf, hfree, h.becomes.tokens] at hothers
    exact ⟨(hsibling _).mp hfirst, hothers.imp_right fun hall i => (hsibling _).mp (hall i)⟩
  · rintro ⟨hfirst, hothers⟩
    constructor
    · rw [h.becomes.now]
      exact (hsibling _).mpr hfirst
    · rw [h.becomes.now, h.becomes.placeOf, hfree, h.becomes.tokens]
      exact hothers.imp_right fun hall i => (hsibling _).mpr (hall i)

/-- What happens beside a stylesheet makes no difference to what changing it needs. -/
theorem changeable_iff_of_beside (h : Beside m options file w w') (hfile : file.IsStylesheet)
    (hclear : options.createBackup = true → m.IsWayClear w) (hreach : w.files.Reaches file) :
  Changeable m options file w' ↔ Changeable m options file w
  := by
  have hnameable := fun hcreate => nameable_iff_of_beside h hfile (hclear hcreate) hreach
  have hdraft := Files.reaches_sibling_congr hreach (h.becomes.files.reaches hreach) hfile.names_ne
    ("." ++ file.name?.getD "" ++ ".stylesweep.tmp")
  have hmade : madeFor m options w' = madeFor m options w := madeFor_congr h.becomes.files.here
  constructor
  · intro h'
    have hfree := h'.free
    rw [hmade, h.becomes.placeOf] at hfree
    refine ⟨fun hcreate => (hnameable hcreate).mp (h'.nameable hcreate),
      fun hcreate => (h.admits hcreate).mp (h'.admits hcreate), hdraft.mp h'.draft, ?_, hfree⟩
    intro hdirectory
    apply h'.clear
    rw [h.becomes.placeOf]
    exact h.becomes.files.stay _ hdirectory
  · intro h'
    refine ⟨fun hcreate => (hnameable hcreate).mpr (h'.nameable hcreate),
      fun hcreate => (h.admits hcreate).mpr (h'.admits hcreate), hdraft.mpr h'.draft, ?_, ?_⟩
    · rw [h.becomes.placeOf]
      intro hdirectory
      rcases h.becomes.files.directory _ hdirectory with hdirectory | hplace
      · exact h'.clear hdirectory
      · exact h'.free hplace
    · rw [hmade, h.becomes.placeOf]
      exact h'.free

/-! ### Pruning other stylesheets -/

/-- What pruning a stylesheet may touch is beside one at another place. -/
theorem touchedFor_subset_othersOf {other : Path} (hother : other.IsStylesheet)
    (hfile : file.IsStylesheet) (hne : w.files.placeOf other ≠ w.files.placeOf file)
    (htokens : ∀ i, IsToken (w.tokens i)) :
  touchedFor m other w ⊆ othersOf file w
  := by
  have hcopy : ∀ place : Place, Files.suffixAt place ≠ Files.copySuffix →
      ∀ mark, place ≠ w.files.placeOf (copyPath file mark) := by
    rintro place hsuffix mark rfl
    exact hsuffix (suffixAt_copyPath w.files file mark)
  have hstylesheet : ∀ place, ¬ Files.IsStylesheetAt place → place ≠ w.files.placeOf file := by
    rintro place hnot rfl
    exact hnot (Files.isStylesheetAt_placeOf w.files hfile)
  rintro place (rfl | (hspare | htemporary) | hledger)
  · refine ⟨hne, fun mark _ => hcopy _ ?_ mark⟩
    exact (Files.isStylesheetAt_placeOf w.files hother).suffixAt_ne (by decide)
  · refine ⟨hstylesheet _ ?_, ?_⟩
    · exact Files.not_isStylesheetAt_of_suffixAt (suffixAt_of_mem_spare hspare) (by decide)
    · obtain ⟨-, mark, hmark, rfl⟩ := hspare
      intro mark' hmark'
      exact placeOf_copyPath_ne hother hfile (hmark.isMarkText htokens) (hmark'.isMarkText htokens) hne
  · exact ⟨hstylesheet _ (not_isStylesheetAt_of_mem_temporaries htemporary),
      fun mark _ => hcopy _ (suffixAt_ne_of_mem_temporaries htemporary) mark⟩
  · exact ⟨hstylesheet _ (not_isStylesheetAt_of_mem_ledger hledger),
      fun mark _ => hcopy _ (suffixAt_ne_of_mem_ledger hledger) mark⟩

theorem beside_of_pruneFile {other : Path} (tree : w.files.IsTree) (hother : other.IsStylesheet)
    (hfile : file.IsStylesheet) (hne : w.files.placeOf other ≠ w.files.placeOf file)
    (htokens : ∀ i, IsToken (w.tokens i)) (hclear : options.createBackup = true → m.IsWayClear w)
    (h : pruneFile m options other names w = .ok o w') :
  Beside m options file w w'
  := by
  have hending := ending_of_pruneFile tree hother h
  constructor
  · exact (hending.becomes tree hother.names_ne).mono
      (touchedFor_subset_othersOf hother hfile hne htokens) (Set.Subset.refl _)
  · intro hcreate
    exact hending.admitsRecord_iff tree hother htokens (hclear hcreate) hcreate

/-- A run of a plan that has no entry for a stylesheet happens beside it. -/
theorem beside_of_run {plan : Plan} {s s' : σ} {outcomes : List Outcome} (tree : w.files.IsTree)
    (hfile : file.IsStylesheet) (hfiles : ∀ e ∈ plan, (fileOf e).IsStylesheet)
    (hne : ∀ e ∈ plan, w.files.placeOf (fileOf e) ≠ w.files.placeOf file)
    (htokens : ∀ i, IsToken (w.tokens i)) (hclear : options.createBackup = true → m.IsWayClear w)
    (h : run m options supervisor plan (w, s) = .ok outcomes (w', s')) :
  Beside m options file w w'
  := by
  induction plan generalizing w s outcomes with
  | nil =>
      obtain ⟨-, heq⟩ := EStateM.Result.ok.inj h
      obtain ⟨rfl, -⟩ := Prod.mk.inj heq
      exact .refl tree
  | cons entry rest ih =>
      obtain ⟨first, others, ⟨w₁, s₁⟩, hvisit, hrun, rfl⟩ := run_cons_eq_ok h
      have hstep : Beside m options file w w₁ := by
        rcases visit_cases m options supervisor entry w s with ⟨-, hworld, -⟩ | ⟨-, -, hpruned⟩
        · rw [hvisit] at hworld
          obtain rfl : w₁ = w := hworld
          exact .refl tree
        · obtain ⟨o, hprune, -⟩ := hpruned first (w₁, s₁) hvisit
          exact beside_of_pruneFile tree (hfiles entry List.mem_cons_self) hfile
            (hne entry List.mem_cons_self) htokens hclear hprune
      apply hstep.trans
      apply ih hstep.becomes.files.tree (fun e he => hfiles e (List.mem_cons_of_mem entry he)) _ _ _ hrun
      · intro e he
        rw [hstep.becomes.placeOf, hstep.becomes.placeOf]
        exact hne e (List.mem_cons_of_mem entry he)
      · rw [hstep.becomes.tokens]
        exact htokens
      · exact fun hcreate => (hclear hcreate).of_becomes hstep.becomes

/-! ### Whether a stylesheet is written -/

/-- Whether pruning ends for want of a name for the copy. -/
def RunsOutOfNames (m : BackupStore) (options : Options) (file : Path) (names : List Text)
    (w : World) : Prop :=
  ∃ o w' p, pruneFile m options file names w = .ok o w'
    ∧ o.error = some (.notBackedUp (.noFreshName p))

/-- Whether a stylesheet with a text is written when it is pruned. -/
structure Applies (m : BackupStore) (options : Options) (file : Path) (names : List Text) (t : Text)
    (w : World) : Prop where
  live : options.dryRun = false
  read : readText file w = .ok t w
  differs : (remove t names).text ≠ t
  changeable : Changeable m options file w

theorem bytesAt?_pruneFile_of_applies (tree : w.files.IsTree) (hfile : file.IsStylesheet)
    (htokens : ∀ i, IsToken (w.tokens i)) (hclear : options.createBackup = true → m.IsWayClear w)
    (hnames : ¬ RunsOutOfNames m options file names w) (h : Applies m options file names t w) :
  (left (pruneFile m options file names w)).files.bytesAt? (w.files.placeOf file)
    = some (Text.Utf8.encode (remove t names).text)
  := by
  rcases @pruneFile_cases w file m options names tree hfile with
    ⟨t', o, w', ⟨-, hread, -⟩, hprune, -, -, hheld, hbecomes⟩ | ⟨hnot, -⟩
  · rw [h.read] at hread
    obtain ⟨rfl, -⟩ := EStateM.Result.ok.inj hread
    rw [hprune, ← hbecomes.placeOf]
    exact hheld.bytes
  · obtain ⟨log, hgoes, hprune⟩ := hnot t h.live h.read h.differs
    obtain ⟨bytes, hholds, -⟩ := readText_eq_ok_iff.mp h.read
    have hchangeable : Changeable m options file { w with log } :=
      (changeable_iff_of_beside (beside_of_log tree log) hfile hclear hholds.reaches).mpr h.changeable
    rcases @goesThrough_of_changeable m options file bytes { w with log } tree hfile htokens hclear
        ⟨hholds.noNull, hholds.reaches, hholds.bytes⟩ hchangeable (remove t names).text with
      hthrough | ⟨hcreate, w₁, htake⟩
    · exact absurd hthrough hgoes
    · rcases @changing_of_take_eq_error { w with log } w₁ _ m options
        (outcomeOf options file names t) hcreate htake (remove t names).text with ⟨cause, hcause, hfail⟩ | ⟨hcause, -⟩
      · obtain rfl := Fault.backup.inj hcause
        obtain ⟨log', hlog⟩ := fail_apply (outcomeOf options file names t) "backup"
          (.notBackedUp (.noFreshName file)) w₁
        exact absurd ⟨_, _, file, hprune.trans (hfail.trans hlog), rfl⟩ hnames
      · exact absurd rfl (hcause _)

theorem bytesAt?_pruneFile_of_not_applies (tree : w.files.IsTree) (hfile : file.IsStylesheet)
    (htokens : ∀ i, IsToken (w.tokens i)) (hclear : options.createBackup = true → m.IsWayClear w)
    (h : ∀ t, ¬ Applies m options file names t w) :
  (left (pruneFile m options file names w)).files.bytesAt? (w.files.placeOf file)
    = w.files.bytesAt? (w.files.placeOf file)
  := by
  rcases @pruneFile_cases w file m options names tree hfile with
    ⟨t, o, w', ⟨hlive, hread, hne, log, hgoes⟩, -⟩ | ⟨-, hwithin, -⟩
  · obtain ⟨bytes, hholds, -⟩ := readText_eq_ok_iff.mp hread
    have hchangeable : Changeable m options file { w with log } :=
      @changeable_of_goesThrough m options file _ bytes { w with log } tree hfile htokens hclear
        ⟨hholds.noNull, hholds.reaches, hholds.bytes⟩ hgoes
    rw [changeable_iff_of_beside (beside_of_log tree log) hfile hclear hholds.reaches]
      at hchangeable
    exact absurd ⟨hlive, hread, hne, hchangeable⟩ (h t)
  · exact hwithin.files.bytes _ fun hother => hother (Files.isStylesheetAt_placeOf w.files hfile)

/-- What a path that was not touched holds is the same afterwards, if it does not lead to a file only
then. -/
theorem holds_iff_of_becomes {touched made : Set Place} (h : w.Becomes touched made w')
    (hnot : w.files.placeOf file ∉ touched)
    (hreach : w'.Holds file bytes → w.files.Reaches file) :
  w'.Holds file bytes ↔ w.Holds file bytes
  := by
  constructor
  · intro hholds
    have hthere := hholds.bytes
    rw [h.placeOf, h.files.bytes _ hnot] at hthere
    exact ⟨hholds.noNull, hreach hholds, hthere⟩
  · intro hholds
    exact hholds.of_becomes h hnot

/-- A path without double dots that leads to a file that was not touched has led there before. -/
theorem reaches_of_holds {touched made : Set Place} (tree : w.files.IsTree)
    (h : w.Becomes touched made w') (hnot : w.files.placeOf file ∉ touched)
    (hdots : ".." ∉ file.names) (hholds : w'.Holds file bytes) :
  w.files.Reaches file
  := by
  obtain ⟨hsize, hsizes, -⟩ := Files.reaches_iff.mp hholds.reaches
  apply tree.reaches_of_bytesAt? hdots hsize hsizes
  rw [← h.files.bytes _ hnot, ← h.placeOf, hholds.bytes]
  rintro ⟨⟩

/-- A file that a path without double dots leads to after something has happened beside it was there
before. -/
theorem holds_iff_of_beside (h : Beside m options file w w') (tree : w.files.IsTree)
    (hdots : ".." ∉ file.names ∨ w.files.Reaches file) :
  w'.Holds file bytes ↔ w.Holds file bytes
  := by
  have hnot : w.files.placeOf file ∉ othersOf file w := fun hothers => hothers.1 rfl
  apply holds_iff_of_becomes h.becomes hnot
  intro hholds
  rcases hdots with hdots | hreach
  · exact reaches_of_holds tree h.becomes hnot hdots hholds
  · exact hreach

theorem applies_iff_of_beside (h : Beside m options file w w') (tree : w.files.IsTree)
    (hfile : file.IsStylesheet) (hclear : options.createBackup = true → m.IsWayClear w)
    (hdots : ".." ∉ file.names ∨ w.files.Reaches file) :
  Applies m options file names t w' ↔ Applies m options file names t w
  := by
  have hread : readText file w' = .ok t w' ↔ readText file w = .ok t w := by
    simp only [readText_eq_ok_iff, holds_iff_of_beside h tree hdots, and_true]
  constructor
  · intro h'
    have hread' := hread.mp h'.read
    obtain ⟨bytes, hholds, -⟩ := readText_eq_ok_iff.mp hread'
    exact ⟨h'.live, hread', h'.differs,
      (changeable_iff_of_beside h hfile hclear hholds.reaches).mp h'.changeable⟩
  · intro h'
    obtain ⟨bytes, hholds, -⟩ := readText_eq_ok_iff.mp h'.read
    exact ⟨h'.live, hread.mpr h'.read, h'.differs,
      (changeable_iff_of_beside h hfile hclear hholds.reaches).mpr h'.changeable⟩

/-- Pruning a stylesheet gives it the same contents before and after something has happened beside
it. -/
theorem bytesAt?_pruneFile_of_beside (h : Beside m options file w w') (tree : w.files.IsTree)
    (hfile : file.IsStylesheet) (htokens : ∀ i, IsToken (w.tokens i))
    (hclear : options.createBackup = true → m.IsWayClear w)
    (hdots : ".." ∉ file.names ∨ w.files.Reaches file)
    (hnames : ¬ RunsOutOfNames m options file names w)
    (hnames' : ¬ RunsOutOfNames m options file names w') :
  (left (pruneFile m options file names w')).files.bytesAt? (w.files.placeOf file)
    = (left (pruneFile m options file names w)).files.bytesAt? (w.files.placeOf file)
  := by
  have tree' := h.becomes.files.tree
  have htokens' : ∀ i, IsToken (w'.tokens i) := by
    rw [h.becomes.tokens]
    exact htokens
  have hclear' : options.createBackup = true → m.IsWayClear w' :=
    fun hcreate => (hclear hcreate).of_becomes h.becomes
  have happlies : ∀ t, Applies m options file names t w' ↔ Applies m options file names t w :=
    fun t => applies_iff_of_beside h tree hfile hclear hdots
  rw [← h.becomes.placeOf]
  by_cases hex : ∃ t, Applies m options file names t w
  · obtain ⟨t, ht⟩ := hex
    rw [bytesAt?_pruneFile_of_applies tree' hfile htokens' hclear' hnames' ((happlies t).mpr ht),
      h.becomes.placeOf, bytesAt?_pruneFile_of_applies tree hfile htokens hclear hnames ht]
  · have hnone := not_exists.mp hex
    rw [bytesAt?_pruneFile_of_not_applies tree' hfile htokens' hclear'
        fun t => mt (happlies t).mp (hnone t),
      h.becomes.placeOf, bytesAt?_pruneFile_of_not_applies tree hfile htokens hclear hnone]
    exact h.becomes.files.bytes _ fun hothers => hothers.1 rfl

/-- A stylesheet that a run comes to has in the end what it has when it is pruned alone. -/
theorem bytesAt?_run_of_comesTo {entry : String × List ClassDefinition} {front rest : Plan} {s : σ}
    {w₁ : World} (tree : w.files.IsTree)
    (hfiles : ∀ e ∈ front ++ entry :: rest, (fileOf e).IsStylesheet)
    (hdistinct : IsDistinct (front ++ entry :: rest) w.files) (htokens : ∀ i, IsToken (w.tokens i))
    (hclear : options.createBackup = true → m.IsWayClear w)
    (hdots : ".." ∉ (fileOf entry).names ∨ w.files.Reaches (fileOf entry))
    (hnames : ¬ RunsOutOfNames m options (fileOf entry) (namesOf entry) w)
    (hnames' : ¬ RunsOutOfNames m options (fileOf entry) (namesOf entry) w₁)
    (h : ComesTo m options supervisor front entry w s w₁) :
  (worldOf (run m options supervisor (front ++ entry :: rest) (w, s))).files.bytesAt?
      (w.files.placeOf (fileOf entry))
    = (left (pruneFile m options (fileOf entry) (namesOf entry) w)).files.bytesAt?
      (w.files.placeOf (fileOf entry))
  := by
  have hentry := hfiles entry (List.mem_append_right _ List.mem_cons_self)
  have hnot := hdistinct.notMem_touchedBy hentry
  have ⟨outcomes, s₁, hrun, _⟩ := h
  have hne : ∀ e ∈ front, w.files.placeOf (fileOf e) ≠ w.files.placeOf (fileOf entry) := by
    intro e he heq
    exact notMem_touchedBy_of_subset hnot (List.subset_append_left front rest)
      fun _ => ⟨e, he, heq.symm⟩
  have hbeside : Beside m options (fileOf entry) w w₁ :=
    beside_of_run tree hentry (fun e he => hfiles e (List.mem_append_left _ he)) hne htokens hclear
      hrun
  rcases @run_cases σ m options supervisor entry w s tree front rest hfiles with
    ⟨w₂, ⟨outcomes', s₂, hrun', -⟩, -, hrest⟩ | ⟨hnever, -⟩
  · rw [hrun] at hrun'
    obtain ⟨-, heq⟩ := EStateM.Result.ok.inj hrun'
    obtain ⟨rfl, -⟩ := Prod.mk.inj heq
    rw [hrest.files.bytes _ (notMem_touchedBy_of_subset hnot (List.subset_append_right _ _))]
    exact bytesAt?_pruneFile_of_beside hbeside tree hentry htokens hclear hdots hnames hnames'
  · exact absurd ⟨w₁, h⟩ hnever

end StylePrune.Prune.Plan
