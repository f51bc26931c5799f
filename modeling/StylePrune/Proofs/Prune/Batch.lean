import StylePrune.Proofs.Prune.Writing

/-!
# Working through a plan

A run visits the stylesheets of its plan one after the other (`Plan.visit`), and can be cut between
any two of them (`Plan.run_append`).  A visit leaves all stylesheets as they are, or gives the one
that it is about the new text; so a run is all or nothing for each stylesheet, whatever fails, is
declined or is cancelled on the way (`Plan.run_cases`).
-/

namespace StylePrune.Prune

open Job BackupStore

variable {σ : Type}

/-- The world that an overseen job leaves behind, with an answer or with a fault. -/
def worldOf {α : Type} : EStateM.Result Fault (World × σ) α → World
  | .ok _ (w, _) => w
  | .error _ (w, _) => w

namespace Plan

variable {m : BackupStore} {options : Options} {supervisor : Supervisor σ}
    {entry : String × List ClassDefinition} {plan : Plan} {w w' : World} {s s' : σ} {fault : Fault}

/-- The stylesheet that an entry of a plan is about. -/
def fileOf (entry : String × List ClassDefinition) : Path := Path.ofString entry.1

/-- The names that an entry of a plan removes. -/
def namesOf (entry : String × List ClassDefinition) : List Text :=
  entry.2.map ClassDefinition.name

/-- What is done about one entry of a plan. -/
def visit (m : BackupStore) (options : Options) (supervisor : Supervisor σ)
    (entry : String × List ClassDefinition) : Overseen σ (List Outcome) := do
  Overseen.checkpoint supervisor.stops .deletion
  if entry.2 = [] then return []
  else if ← permits supervisor options (fileOf entry) entry.2 then
    let outcome ← Overseen.job (pruneFile m options (fileOf entry) (namesOf entry))
    Overseen.overseer supervisor.applied
    return [outcome]
  else return [{ file := fileOf entry, dryRun := options.dryRun, skipped := true }]

/-- A run is a visit and a run of the rest. -/
theorem run_cons (m : BackupStore) (options : Options) (supervisor : Supervisor σ)
    (entry : String × List ClassDefinition) (rest : Plan) :
  run m options supervisor (entry :: rest)
    = visit m options supervisor entry >>= fun first =>
      run m options supervisor rest >>= fun others => pure (first ++ others)
  := by
  obtain ⟨name, definitions⟩ := entry
  rw [run, visit, bind_assoc]
  refine congrArg (Overseen.checkpoint supervisor.stops .deletion >>= ·) (funext fun _ => ?_)
  by_cases hnil : definitions = []
  · simp [hnil]
  · simp only [hnil, if_false, bind_assoc]
    refine congrArg (permits supervisor options _ definitions >>= ·) (funext fun permitted => ?_)
    cases permitted
    · simp [fileOf]
    · simp [fileOf, namesOf]

/-- A run of a plan in two parts is a run of each. -/
theorem run_append (m : BackupStore) (options : Options) (supervisor : Supervisor σ)
    (front rest : Plan) :
  run m options supervisor (front ++ rest)
    = run m options supervisor front >>= fun first =>
      run m options supervisor rest >>= fun others => pure (first ++ others)
  := by
  induction front with
  | nil => simp [run]
  | cons entry front ih =>
      rw [List.cons_append, run_cons, run_cons, ih]
      simp only [bind_assoc, pure_bind, List.append_assoc]

/-! ### A visit -/

/-- Whether a stylesheet of a plan is worked on: no stop is asked for, something is to be removed, and
it is permitted. -/
def IsPermitted (options : Options) (supervisor : Supervisor σ)
    (entry : String × List ClassDefinition) (w : World) (s : σ) : Prop :=
  supervisor.stops s = false ∧ entry.2 ≠ []
    ∧ ∃ s', permits supervisor options (fileOf entry) entry.2 (w, s) = .ok true (w, s')

theorem permits_apply (supervisor : Supervisor σ) (options : Options) (file : Path)
    (definitions : List ClassDefinition) (w : World) (s : σ) :
  (∃ permitted s', permits supervisor options file definitions (w, s) = .ok permitted (w, s'))
    ∨ ∃ fault s', permits supervisor options file definitions (w, s) = .error fault (w, s')
  := by
  rw [permits]
  cases supervisor.confirm with
  | none => exact .inl ⟨true, s, rfl⟩
  | some confirm =>
      dsimp only
      split
      · exact .inl ⟨true, s, rfl⟩
      · rw [Overseen.overseer]
        cases confirm file definitions s with
        | ok permitted s' => exact .inl ⟨permitted, s', rfl⟩
        | error fault s' => exact .inr ⟨fault, s', rfl⟩

theorem state_apply (ws : World × σ) :
  Overseen.state ws = .ok ws.2 ws
  := rfl

theorem visit_of_stops (h : supervisor.stops s = true) :
  visit m options supervisor entry (w, s) = .error (.cancelled .deletion) (w, s)
  := by
  simp only [visit, Overseen.checkpoint, bind, EStateM.bind, state_apply, pure, h, if_true]
  rfl

theorem visit_of_nil (h : supervisor.stops s = false) (hnil : entry.2 = []) :
  visit m options supervisor entry (w, s) = .ok [] (w, s)
  := by
  simp only [visit, Overseen.checkpoint, bind, EStateM.bind, state_apply, pure, EStateM.pure, h, hnil, if_true]
  rfl

theorem visit_of_ne_nil (h : supervisor.stops s = false) (hnil : entry.2 ≠ []) :
  visit m options supervisor entry (w, s)
    = (permits supervisor options (fileOf entry) entry.2 >>= fun permitted =>
        if permitted then
          Overseen.job (pruneFile m options (fileOf entry) (namesOf entry)) >>= fun outcome =>
            Overseen.overseer supervisor.applied >>= fun _ => pure [outcome]
        else pure [{ file := fileOf entry, dryRun := options.dryRun, skipped := true }]) (w, s)
  := by
  simp only [visit, Overseen.checkpoint, bind, EStateM.bind, state_apply, pure, h, hnil, if_false]
  rfl

/-- A stylesheet that is permitted is pruned, and if nobody is to be told, that is all. -/
theorem visit_eq_ok_of_permits {o : Outcome} (hstops : supervisor.stops s = false) (hne : entry.2 ≠ [])
    (hpermits : permits supervisor options (fileOf entry) entry.2 (w, s) = .ok true (w, s))
    (happlied : supervisor.applied = pure ())
    (h : pruneFile m options (fileOf entry) (namesOf entry) w = .ok o w') :
  visit m options supervisor entry (w, s) = .ok [o] (w', s)
  := by
  have hjob : Overseen.job (pruneFile m options (fileOf entry) (namesOf entry)) (w, s)
      = .ok o (w', s) := by
    rw [Overseen.job, h]
  rw [visit_of_ne_nil hstops hne, bind_of_ok hpermits, if_pos rfl, bind_of_ok hjob, happlied]
  rfl

/-- An entry that is permitted is pruned. -/
theorem visit_of_permitted (m : BackupStore) (h : IsPermitted options supervisor entry w s) :
  worldOf (visit m options supervisor entry (w, s))
      = left (pruneFile m options (fileOf entry) (namesOf entry) w)
    ∧ ∀ outcomes ws, visit m options supervisor entry (w, s) = .ok outcomes ws →
      ∃ o, pruneFile m options (fileOf entry) (namesOf entry) w = .ok o ws.1 ∧ outcomes = [o]
  := by
  obtain ⟨hstops, hnil, s₁, hpermits⟩ := h
  rw [visit_of_ne_nil hstops hnil]
  change worldOf (EStateM.bind _ _ _) = _ ∧ ∀ outcomes ws, EStateM.bind _ _ _ = _ → _
  rw [EStateM.bind, hpermits]
  dsimp only
  rw [if_pos rfl]
  change worldOf (EStateM.bind _ _ _) = _ ∧ ∀ outcomes ws, EStateM.bind _ _ _ = _ → _
  rw [EStateM.bind, Overseen.job]
  cases hprune : pruneFile m options (fileOf entry) (namesOf entry) w with
  | error fault w₁ =>
      refine ⟨rfl, ?_⟩
      rintro outcomes ws ⟨⟩
  | ok o w₁ =>
      dsimp only
      change worldOf (EStateM.bind _ _ _) = _ ∧ ∀ outcomes ws, EStateM.bind _ _ _ = _ → _
      rw [EStateM.bind, Overseen.overseer]
      cases supervisor.applied s₁ with
      | error fault s₂ =>
          refine ⟨rfl, ?_⟩
          rintro outcomes ws ⟨⟩
      | ok _ s₂ =>
          refine ⟨rfl, ?_⟩
          rintro outcomes ws ⟨⟩
          exact ⟨o, rfl, rfl⟩

/-- An entry that is not permitted is skipped. -/
theorem visit_of_not_permitted (m : BackupStore) (h : ¬ IsPermitted options supervisor entry w s) :
  worldOf (visit m options supervisor entry (w, s)) = w
    ∧ ∀ outcomes ws, visit m options supervisor entry (w, s) = .ok outcomes ws →
      ∀ o ∈ outcomes, o = { file := fileOf entry, dryRun := options.dryRun, skipped := true }
  := by
  cases hstops : supervisor.stops s with
  | true =>
      rw [visit_of_stops hstops]
      refine ⟨rfl, ?_⟩
      rintro outcomes ws ⟨⟩
  | false =>
      by_cases hnil : entry.2 = []
      · rw [visit_of_nil hstops hnil]
        refine ⟨rfl, ?_⟩
        rintro outcomes ws ⟨⟩ o ho
        cases ho
      · rw [visit_of_ne_nil hstops hnil]
        change worldOf (EStateM.bind _ _ _) = _ ∧ ∀ outcomes ws, EStateM.bind _ _ _ = _ → _
        rw [EStateM.bind]
        rcases permits_apply supervisor options (fileOf entry) entry.2 w s with
          ⟨permitted, s₁, hpermits⟩ | ⟨fault, s₁, hpermits⟩
        · rw [hpermits]
          cases permitted with
          | true => exact absurd ⟨hstops, hnil, s₁, hpermits⟩ h
          | false =>
              refine ⟨rfl, ?_⟩
              rintro outcomes ws ⟨⟩ o ho
              exact List.mem_singleton.mp ho
        · rw [hpermits]
          refine ⟨rfl, ?_⟩
          rintro outcomes ws ⟨⟩

/-- A visit leaves the world alone, or is that of a stylesheet that is worked on. -/
theorem visit_cases (m : BackupStore) (options : Options) (supervisor : Supervisor σ)
    (entry : String × List ClassDefinition) (w : World) (s : σ) :
  (¬ IsPermitted options supervisor entry w s
      ∧ worldOf (visit m options supervisor entry (w, s)) = w
      ∧ ∀ outcomes ws, visit m options supervisor entry (w, s) = .ok outcomes ws →
        ∀ o ∈ outcomes, o = { file := fileOf entry, dryRun := options.dryRun, skipped := true })
    ∨ IsPermitted options supervisor entry w s
      ∧ worldOf (visit m options supervisor entry (w, s))
        = left (pruneFile m options (fileOf entry) (namesOf entry) w)
      ∧ ∀ outcomes ws, visit m options supervisor entry (w, s) = .ok outcomes ws →
        ∃ o, pruneFile m options (fileOf entry) (namesOf entry) w = .ok o ws.1 ∧ outcomes = [o]
  := by
  by_cases h : IsPermitted options supervisor entry w s
  · exact .inr ⟨h, visit_of_permitted m h⟩
  · exact .inl ⟨h, visit_of_not_permitted m h⟩

/-! ### A run -/

/-- What a plan may touch: all places but those of the stylesheets that it has no entry for. -/
def touchedBy (plan : Plan) (fs : Files) : Set Place :=
  { place | Files.IsStylesheetAt place → ∃ entry ∈ plan, place = fs.placeOf (fileOf entry) }

theorem otherPlaces_subset_touchedBy (plan : Plan) (fs : Files) :
  Files.otherPlaces ⊆ touchedBy plan fs
  := fun _ hother hplace => absurd hplace hother

theorem touchedBy_congr {fs fs' : Files} (h : fs'.here = fs.here) (plan : Plan) :
  touchedBy plan fs' = touchedBy plan fs
  := by
  simp only [touchedBy, Files.placeOf_congr h]

theorem touchedBy_mono {plan plan' : Plan} (h : plan ⊆ plan') (fs : Files) :
  touchedBy plan fs ⊆ touchedBy plan' fs
  := by
  intro place hplace hstylesheet
  obtain ⟨entry, hentry, heq⟩ := hplace hstylesheet
  exact ⟨entry, h hentry, heq⟩

theorem within_visit (tree : w.files.IsTree) (hfile : (fileOf entry).IsStylesheet) :
  w.Becomes (touchedBy [entry] w.files) Set.univ
    (worldOf (visit m options supervisor entry (w, s)))
  := by
  rcases visit_cases m options supervisor entry w s with ⟨-, hworld, -⟩ | ⟨-, hworld, -⟩
  · rw [hworld]
    exact .refl tree
  · rw [hworld]
    rcases @pruneFile_cases w (fileOf entry) m options (namesOf entry) tree hfile with
      ⟨t, o, w₁, -, hprune, -, -, -, hbecomes⟩ | ⟨-, hwithin, -⟩
    · rw [hprune]
      apply hbecomes.mono _ (Set.Subset.refl _)
      rintro place (rfl | hother) hstylesheet
      · exact ⟨entry, List.mem_singleton_self entry, rfl⟩
      · exact absurd hstylesheet hother
    · exact hwithin.mono (otherPlaces_subset_touchedBy _ _) (Set.Subset.refl _)

/-- The worlds along a job in two parts. -/
theorem worldOf_bind {α β : Type} (x : Overseen σ α) (f : α → Overseen σ β) (w : World) (s : σ) :
  (∃ a w₁ s₁, x (w, s) = .ok a (w₁, s₁) ∧ worldOf (x (w, s)) = w₁
      ∧ worldOf ((x >>= f) (w, s)) = worldOf (f a (w₁, s₁)))
    ∨ worldOf ((x >>= f) (w, s)) = worldOf (x (w, s)) ∧ ∃ fault ws, x (w, s) = .error fault ws
  := by
  change (∃ a w₁ s₁, _ ∧ _ ∧ worldOf (EStateM.bind x f (w, s)) = _)
    ∨ worldOf (EStateM.bind x f (w, s)) = _ ∧ _
  rw [EStateM.bind]
  cases x (w, s) with
  | ok a ws => exact .inl ⟨a, ws.1, ws.2, rfl, rfl, rfl⟩
  | error fault ws => exact .inr ⟨rfl, fault, ws, rfl⟩

theorem worldOf_bind_pure {α β : Type} (x : Overseen σ α) (f : α → β) (w : World) (s : σ) :
  worldOf ((x >>= fun a => pure (f a)) (w, s)) = worldOf (x (w, s))
  := by
  rcases worldOf_bind x (fun a => pure (f a)) w s with ⟨a, w₁, s₁, -, hx, h⟩ | ⟨h, -⟩
  · rw [h, hx]
    rfl
  · exact h

/-- A run touches no stylesheet that its plan has no entry for. -/
theorem within_run (tree : w.files.IsTree) (hfiles : ∀ entry ∈ plan, (fileOf entry).IsStylesheet) :
  w.Becomes (touchedBy plan w.files) Set.univ (worldOf (run m options supervisor plan (w, s)))
  := by
  induction plan generalizing w s with
  | nil => exact .refl tree
  | cons entry rest ih =>
      rw [run_cons]
      have hvisit : w.Becomes (touchedBy [entry] w.files) Set.univ
          (worldOf (visit m options supervisor entry (w, s))) :=
        within_visit tree (hfiles entry List.mem_cons_self)
      have hfirst := hvisit.mono
        (touchedBy_mono (List.cons_subset_cons entry (List.nil_subset rest)) w.files)
        (Set.Subset.refl _)
      rcases worldOf_bind (visit m options supervisor entry) _ w s with
        ⟨outcomes, w₁, s₁, -, hworld, h⟩ | ⟨h, -⟩
      · rw [h, worldOf_bind_pure]
        rw [hworld] at hfirst
        apply hfirst.trans
        apply (ih hfirst.files.tree fun e he => hfiles e (List.mem_cons_of_mem entry he)).mono _
          (Set.Subset.refl _)
        rw [touchedBy_congr hfirst.files.here]
        exact touchedBy_mono (List.subset_cons_self entry rest) w.files
      · rw [h]
        exact hfirst

/-- Whether a run of a plan comes to an entry behind its first part, in a certain world, and the
stylesheet is worked on. -/
def ComesTo (m : BackupStore) (options : Options) (supervisor : Supervisor σ) (front : Plan)
    (entry : String × List ClassDefinition) (w : World) (s : σ) (w' : World) : Prop :=
  ∃ outcomes s', run m options supervisor front (w, s) = .ok outcomes (w', s')
    ∧ IsPermitted options supervisor entry w' s'

/-- A run comes to an entry and prunes its stylesheet, or touches what the other entries are about
only. -/
theorem run_cases (tree : w.files.IsTree) {front rest : Plan}
    (hfiles : ∀ e ∈ front ++ entry :: rest, (fileOf e).IsStylesheet) :
  (∃ w₁, ComesTo m options supervisor front entry w s w₁
      ∧ w.Becomes (touchedBy front w.files) Set.univ w₁
      ∧ (left (pruneFile m options (fileOf entry) (namesOf entry) w₁)).Becomes
          (touchedBy rest w.files) Set.univ
          (worldOf (run m options supervisor (front ++ entry :: rest) (w, s))))
    ∨ (¬ ∃ w₁, ComesTo m options supervisor front entry w s w₁)
      ∧ w.Becomes (touchedBy (front ++ rest) w.files) Set.univ
        (worldOf (run m options supervisor (front ++ entry :: rest) (w, s)))
  := by
  have hfront : w.Becomes (touchedBy front w.files) Set.univ
      (worldOf (run m options supervisor front (w, s))) :=
    within_run tree fun e he => hfiles e (List.mem_append_left _ he)
  have hentry := hfiles entry (List.mem_append_right _ List.mem_cons_self)
  have hrest : ∀ e ∈ rest, (fileOf e).IsStylesheet :=
    fun e he => hfiles e (List.mem_append_right _ (List.mem_cons_of_mem entry he))
  have hfront' := hfront.mono (touchedBy_mono (List.subset_append_left front rest) w.files)
    (Set.Subset.refl _)
  rw [run_append]
  rcases worldOf_bind (run m options supervisor front) _ w s with
    ⟨outcomes, w₁, s₁, hrun, hworld, h⟩ | ⟨h, fault, ws, hrun⟩
  · rw [h, worldOf_bind_pure, run_cons]
    rw [hworld] at hfront hfront'
    have hlater : ∀ {w₂ : World} {s₂ : σ}, w₁.files.here = w₂.files.here → w₂.files.IsTree →
        w₂.Becomes (touchedBy rest w.files) Set.univ
          (worldOf (run m options supervisor rest (w₂, s₂))) := by
      intro w₂ s₂ hhere tree₂
      rw [← touchedBy_congr (hhere.symm.trans hfront.files.here)]
      exact within_run tree₂ hrest
    have hvisit := @within_visit σ m options supervisor entry w₁ s₁ hfront.files.tree hentry
    rcases visit_cases m options supervisor entry w₁ s₁ with
      ⟨hdeclined, hstill, -⟩ | ⟨hpermitted, hpruned, -⟩
    · right
      refine ⟨?_, ?_⟩
      · rintro ⟨w₂, outcomes', s₂, hrun', hpermitted⟩
        rw [hrun] at hrun'
        obtain ⟨-, heq⟩ := EStateM.Result.ok.inj hrun'
        obtain ⟨rfl, rfl⟩ := Prod.mk.inj heq
        exact hdeclined hpermitted
      rcases worldOf_bind (visit m options supervisor entry) _ w₁ s₁ with
        ⟨found, w₂, s₂, -, hworld₂, h₂⟩ | ⟨h₂, -⟩
      · rw [h₂, worldOf_bind_pure]
        obtain rfl := hstill.symm.trans hworld₂
        apply hfront'.trans
        apply (hlater rfl hfront.files.tree).mono _ (Set.Subset.refl _)
        exact touchedBy_mono (List.subset_append_right front rest) w.files
      · rw [h₂, hstill]
        exact hfront'
    · refine .inl ⟨w₁, ⟨outcomes, s₁, hrun, hpermitted⟩, hfront, ?_⟩
      rw [← hpruned]
      rcases worldOf_bind (visit m options supervisor entry) _ w₁ s₁ with
        ⟨found, w₂, s₂, -, hworld₂, h₂⟩ | ⟨h₂, -⟩
      · rw [h₂, worldOf_bind_pure, hworld₂]
        rw [hworld₂] at hvisit
        exact hlater hvisit.files.here.symm hvisit.files.tree
      · rw [h₂]
        exact .refl hvisit.files.tree
  · rw [h]
    refine .inr ⟨?_, hfront'⟩
    rintro ⟨w₁, outcomes, s₁, hrun', -⟩
    rw [hrun] at hrun'
    cases hrun'

/-! ### What each stylesheet has in the end -/

/-- Whether the stylesheets of a plan are at different places. -/
def IsDistinct (plan : Plan) (fs : Files) : Prop :=
  (plan.map fun entry => fs.placeOf (fileOf entry)).Nodup

instance (plan : Plan) (fs : Files) : Decidable (IsDistinct plan fs) :=
  inferInstanceAs (Decidable (List.Nodup _))

theorem IsDistinct.notMem_touchedBy {fs : Files} {front rest : Plan}
    (h : IsDistinct (front ++ entry :: rest) fs) (hentry : (fileOf entry).IsStylesheet) :
  fs.placeOf (fileOf entry) ∉ touchedBy (front ++ rest) fs
  := by
  intro htouched
  obtain ⟨e, he, heq⟩ := htouched (Files.isStylesheetAt_placeOf fs hentry)
  rw [IsDistinct, List.map_append, List.map_cons, List.nodup_middle, List.nodup_cons,
    ← List.map_append] at h
  apply h.1
  rw [heq]
  exact List.mem_map_of_mem he

theorem notMem_touchedBy_of_subset {fs : Files} {plan plan' : Plan} {place : Place}
    (h : place ∉ touchedBy plan fs) (hsubset : plan' ⊆ plan) :
  place ∉ touchedBy plan' fs
  := mt (@touchedBy_mono _ _ hsubset fs place) h

/-- Whether a file has another text than it had, the one that is left when names are removed. -/
def IsPruned (names : List Text) (place : Place) (fs fs' : Files) : Prop :=
  ∃ bytes t, fs.bytesAt? place = some bytes ∧ Text.Utf8.decode bytes = .ok t
    ∧ fs'.bytesAt? place = some (Text.Utf8.encode (remove t names).text)

/-- The stylesheet of an entry is as it was, or has the new text; the latter in a live run only that
comes to it. -/
theorem bytesAt?_run_cases (tree : w.files.IsTree) {front rest : Plan}
    (hfiles : ∀ e ∈ front ++ entry :: rest, (fileOf e).IsStylesheet)
    (hdistinct : IsDistinct (front ++ entry :: rest) w.files) :
  (worldOf (run m options supervisor (front ++ entry :: rest) (w, s))).files.bytesAt?
        (w.files.placeOf (fileOf entry))
      = w.files.bytesAt? (w.files.placeOf (fileOf entry))
    ∨ options.dryRun = false ∧ (∃ w₁, ComesTo m options supervisor front entry w s w₁)
      ∧ IsPruned (namesOf entry) (w.files.placeOf (fileOf entry)) w.files
        (worldOf (run m options supervisor (front ++ entry :: rest) (w, s))).files
  := by
  have hentry := hfiles entry (List.mem_append_right _ List.mem_cons_self)
  have hnot := hdistinct.notMem_touchedBy hentry
  have hplace := Files.isStylesheetAt_placeOf w.files hentry
  rcases run_cases tree hfiles with ⟨w₁, hcomes, h₁, h₂⟩ | ⟨-, h⟩
  · have hfront := h₁.files.bytes _ (notMem_touchedBy_of_subset hnot (List.subset_append_left _ _))
    have hrest := h₂.files.bytes _ (notMem_touchedBy_of_subset hnot (List.subset_append_right _ _))
    rcases @pruneFile_cases w₁ (fileOf entry) m options (namesOf entry) h₁.files.tree hentry with
      ⟨t, o, w₂, ⟨hlive, hread, -⟩, hprune, -, -, hheld, h₃⟩ | ⟨-, hwithin, -⟩
    · refine .inr ⟨hlive, ⟨w₁, hcomes⟩, ?_⟩
      obtain ⟨bytes, hholds, hdecode, -⟩ := readText_eq_ok_iff.mp hread
      refine ⟨bytes, t, ?_, hdecode, ?_⟩
      · rw [← hfront, ← h₁.placeOf]
        exact hholds.bytes
      · rw [hrest, hprune]
        change w₂.files.bytesAt? _ = _
        rw [← h₁.placeOf, ← h₃.placeOf]
        exact hheld.bytes
    · left
      rw [hrest, hwithin.files.bytes _ fun hother => hother hplace, hfront]
  · exact .inl (h.files.bytes _ hnot)

theorem run_cons_eq_ok {rest : Plan} {outcomes : List Outcome} {ws : World × σ}
    (h : run m options supervisor (entry :: rest) (w, s) = .ok outcomes ws) :
  ∃ first others ws₁, visit m options supervisor entry (w, s) = .ok first ws₁
    ∧ run m options supervisor rest ws₁ = .ok others ws ∧ outcomes = first ++ others
  := by
  rw [run_cons] at h
  obtain ⟨first, ws₁, hvisit, h⟩ := bind_eq_ok_iff.mp h
  obtain ⟨others, ws₂, hrest, h⟩ := bind_eq_ok_iff.mp h
  obtain ⟨rfl, rfl⟩ := EStateM.Result.ok.inj h
  exact ⟨first, others, ws₁, hvisit, hrest, rfl⟩

/-- What the outcome of a visit says: it is about the stylesheet of the entry, and if that was not
written, all stylesheets are as they were. -/
theorem of_mem_visit (tree : w.files.IsTree) (hentry : (fileOf entry).IsStylesheet)
    {outcomes : List Outcome} {ws : World × σ}
    (h : visit m options supervisor entry (w, s) = .ok outcomes ws) {o : Outcome}
    (ho : o ∈ outcomes) :
  o.file = fileOf entry
    ∧ (o.written = false → w.Becomes Files.otherPlaces Set.univ ws.1)
  := by
  rcases visit_cases m options supervisor entry w s with ⟨-, hworld, hskipped⟩ | ⟨-, -, hpruned⟩
  · rw [hskipped outcomes ws h o ho]
    rw [h] at hworld
    obtain ⟨w₁, s₁⟩ := ws
    obtain rfl : w₁ = w := hworld
    exact ⟨rfl, fun _ => .refl tree⟩
  · obtain ⟨o', hprune, rfl⟩ := hpruned outcomes ws h
    obtain rfl := List.mem_singleton.mp ho
    obtain ⟨hfile, hunchanged, -⟩ := of_pruneFile_eq_ok tree hentry hprune
    exact ⟨hfile, hunchanged⟩

/-- What the outcomes of a run say: each is about a stylesheet of the plan, and one that was not
written is as it was. -/
theorem of_mem_run (tree : w.files.IsTree) (hfiles : ∀ e ∈ plan, (fileOf e).IsStylesheet)
    (hdistinct : IsDistinct plan w.files) {outcomes : List Outcome} {ws : World × σ}
    (h : run m options supervisor plan (w, s) = .ok outcomes ws) {o : Outcome} (ho : o ∈ outcomes) :
  (∃ e ∈ plan, o.file = fileOf e)
    ∧ (o.written = false →
      ws.1.files.bytesAt? (w.files.placeOf o.file) = w.files.bytesAt? (w.files.placeOf o.file))
  := by
  induction plan generalizing w s outcomes with
  | nil =>
      obtain ⟨rfl, -⟩ := EStateM.Result.ok.inj h
      cases ho
  | cons entry rest ih =>
      obtain ⟨first, others, ⟨w₁, s₁⟩, hvisit, hrun, rfl⟩ := run_cons_eq_ok h
      have hentry := hfiles entry List.mem_cons_self
      have hrest : ∀ e ∈ rest, (fileOf e).IsStylesheet :=
        fun e he => hfiles e (List.mem_cons_of_mem entry he)
      have hstep := @within_visit σ m options supervisor entry w s tree hentry
      rw [hvisit] at hstep
      have h₁ : w.Becomes (touchedBy [entry] w.files) Set.univ w₁ := hstep
      rcases List.mem_append.mp ho with ho | ho
      · -- an outcome of this visit: the later ones leave its stylesheet alone
        obtain ⟨hfile, hunchanged⟩ := of_mem_visit tree hentry hvisit ho
        refine ⟨⟨entry, List.mem_cons_self, hfile⟩, ?_⟩
        intro hwritten
        have hlater := @within_run σ m options supervisor rest w₁ s₁ h₁.files.tree hrest
        rw [hrun, touchedBy_congr h₁.files.here] at hlater
        have hnot := @IsDistinct.notMem_touchedBy entry w.files [] rest hdistinct hentry
        rw [hfile]
        refine (World.Becomes.files hlater).bytes _ hnot |>.trans ?_
        exact (hunchanged hwritten).files.bytes _ fun hother =>
          hother (Files.isStylesheetAt_placeOf w.files hentry)
      · -- an outcome of a later visit: this one leaves its stylesheet alone
        have hdistinct₁ : IsDistinct rest w₁.files := by
          rw [IsDistinct]
          simp only [h₁.placeOf]
          exact (List.nodup_cons.mp hdistinct).2
        obtain ⟨⟨e, he, hfile⟩, hunchanged⟩ := ih h₁.files.tree hrest hdistinct₁ hrun ho
        refine ⟨⟨e, List.mem_cons_of_mem entry he, hfile⟩, ?_⟩
        intro hwritten
        rw [← h₁.placeOf, hunchanged hwritten]
        apply h₁.files.bytes
        intro htouched
        have hplace := Files.isStylesheetAt_placeOf w₁.files (hrest e he)
        rw [hfile, h₁.placeOf] at htouched
        rw [h₁.placeOf] at hplace
        obtain ⟨e', he', heq⟩ := htouched hplace
        obtain rfl := List.mem_singleton.mp he'
        apply (List.nodup_cons.mp hdistinct).1
        exact List.mem_map.mpr ⟨e, he, heq⟩

end Plan

end StylePrune.Prune
