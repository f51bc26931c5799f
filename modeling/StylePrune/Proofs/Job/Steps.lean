import StylePrune.Job
import StylePrune.Proofs.Files.Change

/-!
# Steps of jobs

A job is taken apart at its binds: it answers if its first part answers and the rest does, and ends
with a fault where either does (`bind_eq_ok_iff`, `bind_eq_error_iff`); this holds whatever the state
is that it works on.  What a job may change in a
tree, whether it answers or not, is said by `Job.Within`, which is put together along the job.
-/

namespace StylePrune

/-- Whether a world has become another: its tree by changes at some places, and the clock and the
supply of tokens are the same. -/
structure World.Becomes (touched made : Set Place) (w w' : World) : Prop where
  files : w.files.Becomes touched made w'.files
  now : w'.now = w.now
  tokens : w'.tokens = w.tokens
  drawn : w.drawn ≤ w'.drawn

namespace World.Becomes

variable {touched touched' made made' : Set Place} {w w' w'' : World}

theorem refl (tree : w.files.IsTree) :
  Becomes touched made w w
  := ⟨.refl tree, rfl, rfl, Nat.le_refl _⟩

theorem mono (h : Becomes touched made w w') (htouched : touched ⊆ touched') (hmade : made ⊆ made') :
  Becomes touched' made' w w'
  := ⟨h.files.mono htouched hmade, h.now, h.tokens, h.drawn⟩

theorem trans (h : Becomes touched made w w') (h' : Becomes touched made w' w'') :
  Becomes touched made w w''
  := ⟨h.files.trans h'.files, h'.now.trans h.now, h'.tokens.trans h.tokens,
    Nat.le_trans h.drawn h'.drawn⟩

theorem of_insert {place : Place} (h : Becomes (insert place touched) made w w')
    (hplace : w'.files.bytesAt? place = w.files.bytesAt? place) :
  Becomes touched made w w'
  := ⟨h.files.of_insert hplace, h.now, h.tokens, h.drawn⟩

theorem of_made (h : Becomes touched made w w')
    (hmade : ∀ p ∈ made, w.files.get? p = some .directory ∨ p ∈ made') :
  Becomes touched made' w w'
  := ⟨h.files.of_made hmade, h.now, h.tokens, h.drawn⟩

/-- A world whose tree alone has become another. -/
theorem of_files {files : Files} (h : w.files.Becomes touched made files) :
  Becomes touched made w { w with files }
  := ⟨h, rfl, rfl, Nat.le_refl _⟩

/-- A world whose log alone has become another. -/
theorem of_log (tree : w.files.IsTree) (log : List Warning) :
  Becomes touched made w { w with log }
  := ⟨.refl tree, rfl, rfl, Nat.le_refl _⟩

end World.Becomes

namespace Job

/-! ### Taking jobs apart -/

section Parts

variable {σ α β : Type} {x : EStateM Fault σ α} {f : α → EStateM Fault σ β}
    {handler : Fault → EStateM Fault σ α} {w w' : σ} {a : α} {b : β} {fault : Fault}

theorem bind_eq_ok_iff :
  (x >>= f) w = .ok b w' ↔ ∃ a w₁, x w = .ok a w₁ ∧ f a w₁ = .ok b w'
  := by
  change EStateM.bind x f w = .ok b w' ↔ _
  rw [EStateM.bind]
  cases x w with
  | ok a w₁ => simp
  | error fault w₁ => simp

theorem bind_eq_error_iff :
  (x >>= f) w = .error fault w'
    ↔ x w = .error fault w' ∨ ∃ a w₁, x w = .ok a w₁ ∧ f a w₁ = .error fault w'
  := by
  change EStateM.bind x f w = .error fault w' ↔ _
  rw [EStateM.bind]
  cases x w with
  | ok a w₁ => simp
  | error fault w₁ => simp

/-- A job goes on with the answer of its first part. -/
theorem bind_of_ok (h : x w = .ok a w') :
  (x >>= f) w = f a w'
  := by
  change EStateM.bind x f w = _
  rw [EStateM.bind, h]

/-- A job ends with the fault of its first part. -/
theorem bind_of_error (h : x w = .error fault w') :
  (x >>= f) w = .error fault w'
  := by
  change EStateM.bind x f w = _
  rw [EStateM.bind, h]

theorem tryCatch_eq_ok_iff :
  tryCatch x handler w = .ok a w'
    ↔ x w = .ok a w' ∨ ∃ fault w₁, x w = .error fault w₁ ∧ handler fault w₁ = .ok a w'
  := by
  change EStateM.tryCatch x handler w = .ok a w' ↔ _
  rw [EStateM.tryCatch]
  cases x w with
  | ok a w₁ => simp
  | error fault w₁ => simp; rfl

theorem tryCatch_eq_error_iff :
  tryCatch x handler w = .error fault w'
    ↔ ∃ fault₁ w₁, x w = .error fault₁ w₁ ∧ handler fault₁ w₁ = .error fault w'
  := by
  change EStateM.tryCatch x handler w = .error fault w' ↔ _
  rw [EStateM.tryCatch]
  cases x w with
  | ok a w₁ => simp
  | error fault w₁ => simp; rfl

theorem pure_apply :
  (pure a : EStateM Fault σ α) w = .ok a w
  := rfl

theorem throw_apply :
  (throw fault : EStateM Fault σ α) w = .error fault w
  := rfl

end Parts

theorem ofExcept_eq_ok_iff {e : Except Fault α} {w w' : World} {a : α} :
  ofExcept e w = .ok a w' ↔ e = .ok a ∧ w' = w
  := by
  cases e with
  | ok b =>
      constructor
      · intro h
        obtain ⟨rfl, rfl⟩ := EStateM.Result.ok.inj h
        exact ⟨rfl, rfl⟩
      · rintro ⟨h, rfl⟩
        obtain rfl := Except.ok.inj h
        rfl
  | error fault =>
      constructor
      · rintro ⟨⟩
      · rintro ⟨⟨⟩, -⟩

/-! ### Calls -/

theorem ask_apply {α : Type} (p : Path) (call : Files → Path → Except CallFailure α) (w : World) :
  ask p call w
    = if hasNull p then .error .embeddedNull w
      else
        match call w.files p with
        | .ok a => .ok a w
        | .error cause => .error (.system (.call cause p.toString none)) w
  := by
  by_cases hnull : hasNull p = true
  · simp only [ask, hnull, if_true]
    rfl
  · simp only [ask, hnull]
    change (match call w.files p with
      | .ok a => (pure a : Job α)
      | .error cause => throw (Fault.system (.call cause p.toString none))) w = _
    cases call w.files p <;> rfl

theorem change_apply (p : Path) (call : Files → Path → Except CallFailure Files) (w : World) :
  change p call w
    = if hasNull p then .error .embeddedNull w
      else
        match call w.files p with
        | .ok files => .ok () { w with files }
        | .error cause => .error (.system (.call cause p.toString none)) w
  := by
  by_cases hnull : hasNull p = true
  · simp only [change, hnull, if_true]
    rfl
  · simp only [change, hnull]
    change (match call w.files p with
      | .ok files => (set { w with files } : Job Unit)
      | .error cause => throw (Fault.system (.call cause p.toString none))) w = _
    cases call w.files p <;> rfl

theorem rename_apply (p q : Path) (w : World) :
  rename p q w
    = if hasNull p || hasNull q then .error .embeddedNull w
      else
        match w.files.rename p q with
        | .ok files => .ok () { w with files }
        | .error cause => .error (.system (.call cause p.toString (some q.toString))) w
  := by
  by_cases hnull : (hasNull p || hasNull q) = true
  · simp only [rename, hnull, if_true]
    rfl
  · simp only [rename, hnull]
    change (match w.files.rename p q with
      | .ok files => (set { w with files } : Job Unit)
      | .error cause => throw (Fault.system (.call cause p.toString (some q.toString)))) w = _
    cases w.files.rename p q <;> rfl

theorem find?_apply (p : Path) (w : World) :
  find? p w
    = if hasNull p then .ok none w
      else
        match w.files.entry p with
        | .ok e => .ok (some e) w
        | .error .notFound | .error .notDirectory => .ok none w
        | .error cause => .error (.system (.call cause p.toString none)) w
  := by
  by_cases hnull : hasNull p = true
  · simp only [find?, hnull, if_true]
    rfl
  · simp only [find?, hnull]
    change (match w.files.entry p with
      | .ok e => (pure (some e) : Job (Option Entry))
      | .error .notFound | .error .notDirectory => pure none
      | .error cause => throw (Fault.system (.call cause p.toString none))) w = _
    cases w.files.entry p with
    | ok e => rfl
    | error cause => cases cause <;> rfl

section Answers

variable {α : Type} {p q : Path} {call : Files → Path → Except CallFailure α}
    {edit : Files → Path → Except CallFailure Files} {w w' : World} {a : α} {fault : Fault}

theorem ask_eq_ok_iff :
  ask p call w = .ok a w' ↔ hasNull p = false ∧ call w.files p = .ok a ∧ w' = w
  := by
  rw [ask_apply]
  cases hasNull p with
  | true => simp
  | false => cases call w.files p <;> simp [eq_comm]

theorem eq_of_ask_eq_error (h : ask p call w = .error fault w') :
  w' = w
  := by
  rw [ask_apply] at h
  split at h
  · exact (EStateM.Result.error.inj h).2.symm
  · split at h
    · cases h
    · exact (EStateM.Result.error.inj h).2.symm

theorem change_eq_ok_iff :
  change p edit w = .ok () w'
    ↔ hasNull p = false ∧ ∃ files, edit w.files p = .ok files ∧ w' = { w with files }
  := by
  rw [change_apply]
  cases hasNull p with
  | true => simp
  | false => cases edit w.files p <;> simp [eq_comm]

theorem eq_of_change_eq_error (h : change p edit w = .error fault w') :
  w' = w
  := by
  rw [change_apply] at h
  split at h
  · exact (EStateM.Result.error.inj h).2.symm
  · split at h
    · cases h
    · exact (EStateM.Result.error.inj h).2.symm

theorem rename_job_eq_ok_iff :
  rename p q w = .ok () w'
    ↔ hasNull p = false ∧ hasNull q = false
      ∧ ∃ files, w.files.rename p q = .ok files ∧ w' = { w with files }
  := by
  rw [rename_apply]
  cases hasNull p with
  | true => simp
  | false =>
      cases hasNull q with
      | true => simp
      | false => cases w.files.rename p q <;> simp [eq_comm]

theorem eq_of_rename_eq_error (h : rename p q w = .error fault w') :
  w' = w
  := by
  rw [rename_apply] at h
  split at h
  · exact (EStateM.Result.error.inj h).2.symm
  · split at h
    · cases h
    · exact (EStateM.Result.error.inj h).2.symm

theorem find?_eq_ok_iff {found : Option Entry} :
  find? p w = .ok found w'
    ↔ w' = w ∧ (hasNull p = true ∧ found = none
      ∨ hasNull p = false ∧ ((∃ e, w.files.entry p = .ok e ∧ found = some e)
        ∨ (w.files.entry p = .error .notFound ∨ w.files.entry p = .error .notDirectory)
          ∧ found = none))
  := by
  rw [find?_apply]
  cases hasNull p with
  | true => simp [eq_comm, and_comm]
  | false =>
      cases w.files.entry p with
      | ok e => simp [eq_comm, and_comm]
      | error cause => cases cause <;> simp [eq_comm, and_comm]

theorem eq_of_find?_eq_error (h : find? p w = .error fault w') :
  w' = w
  := by
  rw [find?_apply] at h
  split at h
  · cases h
  · split at h
    · cases h
    · cases h
    · cases h
    · exact (EStateM.Result.error.inj h).2.symm

end Answers

/-! ### What a job changes -/

/-- The world that a job leaves behind, with an answer or with a fault. -/
def left {α : Type} : EStateM.Result Fault World α → World
  | .ok _ w => w
  | .error _ w => w

/-- Whether what a job ends with passes a test for answers or one for faults. -/
def endsWith {α : Type} (returned : α → World → Bool) (failed : Fault → World → Bool) :
    EStateM.Result Fault World α → Bool
  | .ok a w => returned a w
  | .error fault w => failed fault w

theorem exists_of_returned {α : Type} {returned : α → World → Bool}
    {result : EStateM.Result Fault World α}
    (h : endsWith returned (fun _ _ => false) result = true) :
  ∃ a w, result = .ok a w ∧ returned a w = true
  := by
  cases result with
  | ok a w => exact ⟨a, w, rfl, h⟩
  | error fault w => cases h

theorem exists_of_failed {α : Type} {failed : Fault → World → Bool}
    {result : EStateM.Result Fault World α}
    (h : endsWith (fun _ _ => false) failed result = true) :
  ∃ fault w, result = .error fault w ∧ failed fault w = true
  := by
  cases result with
  | ok a w => cases h
  | error fault w => exact ⟨fault, w, rfl, h⟩

/-- Whether a job that starts from a world changes files at the given places only, and makes
directories at the given places only, whatever it ends with. -/
def Within {α : Type} (touched made : Set Place) (j : Job α) (w : World) : Prop :=
  w.Becomes touched made (left (j w))

namespace Within

variable {α β : Type} {touched touched' made made' : Set Place} {x : Job α} {f : α → Job β}
    {handler : Fault → Job α} {w : World}

theorem of_ok {a : α} {w' : World} (h : Within touched made x w) (hx : x w = .ok a w') :
  w.Becomes touched made w'
  := by
  rw [Within, hx] at h
  exact h

theorem of_error {fault : Fault} {w' : World} (h : Within touched made x w)
    (hx : x w = .error fault w') :
  w.Becomes touched made w'
  := by
  rw [Within, hx] at h
  exact h

theorem mono (h : Within touched made x w) (htouched : touched ⊆ touched') (hmade : made ⊆ made') :
  Within touched' made' x w
  := World.Becomes.mono h htouched hmade

theorem pure (tree : w.files.IsTree) (a : α) :
  Within touched made (pure a) w
  := World.Becomes.refl tree

theorem throw (tree : w.files.IsTree) (fault : Fault) :
  Within (α := α) touched made (throw fault) w
  := World.Becomes.refl tree

/-- A job in two parts stays where both parts stay. -/
theorem bind (hx : Within touched made x w)
    (hf : ∀ a w₁, x w = .ok a w₁ → w.Becomes touched made w₁ → Within touched made (f a) w₁) :
  Within touched made (x >>= f) w
  := by
  change w.Becomes touched made (left (EStateM.bind x f w))
  rw [EStateM.bind]
  cases h : x w with
  | ok a w₁ => exact (hx.of_ok h).trans (hf a w₁ h (hx.of_ok h))
  | error fault w₁ => exact hx.of_error h

theorem tryCatch (hx : Within touched made x w)
    (hhandler : ∀ fault w₁, x w = .error fault w₁ → w.Becomes touched made w₁ →
      Within touched made (handler fault) w₁) :
  Within touched made (tryCatch x handler) w
  := by
  change w.Becomes touched made (left (EStateM.tryCatch x handler w))
  rw [EStateM.tryCatch]
  cases h : x w with
  | ok a w₁ => exact hx.of_ok h
  | error fault w₁ =>
      exact (hx.of_error h).trans (hhandler fault w₁ h (hx.of_error h))

/-- Looking at the world changes nothing. -/
theorem get {f : World → Job β} (hf : Within touched made (f w) w) :
  Within touched made (MonadStateOf.get >>= f) w
  := hf

/-- A job that only answers or ends changes nothing. -/
theorem of_left_eq (tree : w.files.IsTree) (h : left (x w) = w) :
  Within touched made x w
  := by
  rw [Within, h]
  exact .refl tree

end Within

end Job

end StylePrune
