import Mathlib.Data.List.Basic
import StylePrune.Prune.Removal
import StylePrune.Proofs.Stylesheet.Reading

/-!
# The course of a removal

A removal reads the statements of a stylesheet one after the other.  A `Visit` is one such reading:
the state that the statement finds, the statement, and what follows it; `visits` lists them in
order.  What a removal keeps, where it starts to remove and how a statement was read are questions
about visits, and so is everything that holds of a whole run: `Visit.history` carries a property of
the visits made so far, and of the state behind them, from each visit to the next.
-/

namespace StylePrune.Prune

open Text Stylesheet

/-- A statement as a removal comes to it. -/
structure Visit where
  state : State
  statement : Statement
  following : List Statement
  deriving DecidableEq

namespace Visit

/-- The text of the visited statement, without blanks around it. -/
def text (v : Visit) : Text := trim v.statement.clean

/-- Whether the visited statement is more than blanks. -/
def Solid (v : Visit) : Prop := v.text ≠ []

/-- What the scanner makes of the visited statement. -/
def reading (v : Visit) : Option Reading :=
  v.state.scanner.read v.statement.clean (v.following.map Statement.clean)

/-- The verdict on the visited statement. -/
def verdict (names : List Text) (v : Visit) : Verdict :=
  (v.state.step names v.statement v.following).1

/-- The state behind the visited statement. -/
def next (names : List Text) (v : Visit) : State :=
  (v.state.step names v.statement v.following).2

/-- Whether the visited statement is kept. -/
def Kept (names : List Text) (v : Visit) : Prop := v.verdict names = .kept

/-- Whether the removal of a block starts at the visited statement. -/
def Starts (names : List Text) (v : Visit) : Prop :=
  v.state.phase = .copying ∧ v.verdict names = .cut

instance : DecidablePred Solid := fun v => inferInstanceAs (Decidable (v.text ≠ []))

instance (names : List Text) : DecidablePred (Kept names) :=
  fun v => inferInstanceAs (Decidable (v.verdict names = .kept))

instance (names : List Text) : DecidablePred (Starts names) :=
  fun v => inferInstanceAs (Decidable (v.state.phase = .copying ∧ v.verdict names = .cut))

end Visit

/-- The visits of a removal to statements, from a state on. -/
def visits (names : List Text) (s : State) : List Statement → List Visit
  | [] => []
  | st :: rest => ⟨s, st, rest⟩ :: visits names (s.step names st rest).2 rest

/-- The visits that a removal makes behind a given one. -/
def Visit.behind (names : List Text) (v : Visit) : List Visit :=
  visits names (v.next names) v.following

/-- The visits that are made when class names are removed from a stylesheet; none if its statements
cannot be told. -/
def course (names : List Text) (t : Text) : List Visit :=
  match Statement.split t with
  | .error _ => []
  | .ok statements => visits names {} statements

/-- The visits to statements that are kept when class names are removed from a stylesheet. -/
def keptVisits (names : List Text) (t : Text) : List Visit :=
  (course names t).filter (Visit.Kept names)

/-! ### What a step does -/

theorem step_of_awaiting {names : List Text} {s : State} {st : Statement}
    {following : List Statement} {start : Nat} (h : s.phase = .awaiting start) :
  s.step names st following
    = (.cut, if opens (trim st.clean) = 0 then s else
        { s with phase := Phase.ofDepth start (opens (trim st.clean) - closes (trim st.clean)) })
  := by
  simp only [State.step, h]
  split
  · rfl
  · rfl

theorem step_of_inside {names : List Text} {s : State} {st : Statement}
    {following : List Statement} {start depth : Nat} (h : s.phase = .inside start depth) :
  s.step names st following
    = (.cut, { s with
        phase := Phase.ofDepth start (depth + opens (trim st.clean) - closes (trim st.clean)) })
  := by
  simp only [State.step, h]

/-- A removal begins at a selector line all of whose members are to go, unless it continues a list;
the block opens on the line itself or is seen to open ahead. -/
theorem begins?_eq_some_iff {names : List Text} {s : State} {st : Statement}
    {following : List Statement} {reading : Option Reading} {found : List Text} {phase : Phase} :
  s.begins? names st following reading = some (found, phase)
    ↔ targets names reading = found ∧ found ≠ [] ∧ s.lastKept.getLast? ≠ some ','
      ∧ ((opens (trim st.clean) ≠ 0 ∧ closes (trim st.clean) ≤ opens (trim st.clean)
          ∧ phase = Phase.ofDepth (st.line + 1) (opens (trim st.clean) - closes (trim st.clean)))
        ∨ (opens (trim st.clean) = 0 ∧ opensAhead (st.line + lookahead) following = true
          ∧ phase = .awaiting (st.line + 1)))
  := by
  rw [State.begins?]
  cases targets names reading with
  | nil => simp; rintro rfl h; exact absurd rfl h
  | cons name others =>
      by_cases hc : s.lastKept.getLast? = some ','
      · simp [hc]
      · by_cases ho : opens (trim st.clean) = 0
        · by_cases ha : opensAhead (st.line + lookahead) following = true
          · simp only [hc, ho, ha, if_false, if_true, ne_eq, not_true_eq_false]
            constructor
            · intro h
              obtain ⟨rfl, rfl⟩ := Prod.mk.inj (Option.some.inj h)
              simp
            · rintro ⟨rfl, -, -, ⟨h, -⟩ | ⟨-, -, rfl⟩⟩
              · exact h.elim
              · rfl
          · simp [hc, ho, ha]
        · by_cases hl : closes (trim st.clean) ≤ opens (trim st.clean)
          · simp only [hc, ho, hl, if_false, if_true, ne_eq, not_false_eq_true]
            constructor
            · intro h
              obtain ⟨rfl, rfl⟩ := Prod.mk.inj (Option.some.inj h)
              simp
            · rintro ⟨rfl, -, -, ⟨-, -, rfl⟩ | ⟨h, -⟩⟩
              · rfl
              · exact h.elim
          · simp [hc, ho, hl]

namespace Visit

variable {names : List Text} {v : Visit}

/-- Outside a removed block, a statement is cut if a removal begins there and kept if not. -/
theorem step_of_copying (h : v.state.phase = .copying) :
  v.state.step names v.statement v.following
    = match v.state.begins? names v.statement v.following v.reading with
      | some (found, phase) => (.cut, v.state.start found phase)
      | none => (.kept, v.state.keep v.text v.reading)
  := by
  simp only [State.step, h]
  rfl

/-- Inside a removed block every statement is cut, and only the phase moves on. -/
theorem skipped (names : List Text) {v : Visit} (h : v.state.phase ≠ .copying) :
  v.verdict names = .cut ∧ ∃ phase, v.next names = { v.state with phase }
  := by
  unfold verdict next
  cases hp : v.state.phase with
  | copying => exact absurd hp h
  | awaiting start =>
      rw [step_of_awaiting hp]
      constructor
      · rfl
      · split
        · exact ⟨v.state.phase, rfl⟩
        · exact ⟨_, rfl⟩
  | inside start depth =>
      rw [step_of_inside hp]
      exact ⟨rfl, _, rfl⟩

/-- A statement is kept exactly outside removed blocks where no removal begins. -/
theorem kept_iff :
  v.Kept names ↔ v.state.phase = .copying
    ∧ v.state.begins? names v.statement v.following v.reading = none
  := by
  constructor
  · intro hk
    have hp : v.state.phase = .copying := by
      apply Classical.byContradiction
      intro hp
      rw [Kept, (skipped names hp).1] at hk
      cases hk
    use hp
    rw [Kept, verdict, step_of_copying hp] at hk
    split at hk
    · cases hk
    · assumption
  · rintro ⟨hp, hb⟩
    rw [Kept, verdict, step_of_copying hp, hb]

/-- The state behind a statement that is kept. -/
theorem next_of_kept (hk : v.Kept names) :
  v.next names = v.state.keep v.text v.reading
  := by
  obtain ⟨hp, hb⟩ := kept_iff.mp hk
  rw [next, step_of_copying hp, hb]

/-- The state behind the statement where the removal of a block starts. -/
theorem next_of_starts (hs : v.Starts names) :
  ∃ found phase, v.state.begins? names v.statement v.following v.reading = some (found, phase)
    ∧ v.next names = v.state.start found phase
  := by
  obtain ⟨hp, hv⟩ := hs
  rw [verdict, step_of_copying hp] at hv
  rw [next, step_of_copying hp]
  split at hv
  · next found phase hb => exact ⟨found, phase, hb, rfl⟩
  · cases hv

/-- The removal of a block starts at a statement that is more than blanks. -/
theorem solid_of_starts (hs : v.Starts names) :
  v.Solid
  := by
  obtain ⟨found, phase, hb, -⟩ := next_of_starts hs
  obtain ⟨rfl, hne, -⟩ := begins?_eq_some_iff.mp hb
  intro hblank
  apply hne
  rw [reading, Scanner.read_eq_none_iff.mpr hblank]
  rfl

theorem not_kept_of_starts (hs : v.Starts names) :
  ¬ v.Kept names
  := by
  rw [Kept, hs.2]
  rintro ⟨⟩

theorem not_kept_of_skipped (h : v.state.phase ≠ .copying) :
  ¬ v.Kept names
  := by
  rw [Kept, (skipped names h).1]
  rintro ⟨⟩

/-- The last statement kept changes where another one is kept that is more than blanks. -/
theorem lastKept_next (names : List Text) (v : Visit) :
  (v.next names).lastKept = if v.Kept names ∧ v.Solid then v.text else v.state.lastKept
  := by
  by_cases hp : v.state.phase = .copying
  · by_cases hk : v.Kept names
    · rw [next_of_kept hk, State.keep]
      by_cases hsolid : v.Solid
      · rw [if_neg hsolid, if_pos ⟨hk, hsolid⟩]
      · rw [if_pos (not_not.mp hsolid), if_neg (fun h => hsolid h.2)]
    · have hs : v.Starts names := by
        use hp
        cases hv : v.verdict names with
        | kept => exact absurd hv hk
        | cut => rfl
      obtain ⟨found, phase, -, hnext⟩ := next_of_starts hs
      rw [hnext, if_neg (fun h => hk h.1)]
      rfl
  · obtain ⟨-, phase, hnext⟩ := skipped names hp
    rw [hnext, if_neg (fun h => not_kept_of_skipped hp h.1)]

/-- A statement is kept, or starts the removal of a block, or lies inside a removed block. -/
theorem kept_or_starts_or_skipped (names : List Text) (v : Visit) :
  v.Kept names ∨ v.Starts names ∨ v.state.phase ≠ .copying
  := by
  by_cases hp : v.state.phase = .copying
  · cases hv : v.verdict names with
    | kept => exact .inl hv
    | cut => exact .inr (.inl ⟨hp, hv⟩)
  · exact .inr (.inr hp)

end Visit

/-! ### Runs -/

theorem judge_eq_visits (names : List Text) (s : State) (statements : List Statement) :
  (judge names s statements).1
    = (visits names s statements).map fun v => (v.statement, v.verdict names)
  := by
  induction statements generalizing s with
  | nil => rfl
  | cons st rest ih =>
      rw [visits, List.map_cons, ← ih]
      rfl

theorem map_statement_visits (names : List Text) (s : State) (statements : List Statement) :
  (visits names s statements).map Visit.statement = statements
  := by
  induction statements generalizing s with
  | nil => rfl
  | cons st rest ih => rw [visits, List.map_cons, ih]

theorem statement_mem_of_mem_visits {names : List Text} {s : State} {statements : List Statement}
    {v : Visit} (h : v ∈ visits names s statements) :
  v.statement ∈ statements
  := by
  rw [← map_statement_visits names s statements]
  exact List.mem_map_of_mem h

/-- A property of the visits made and of the state behind them holds at every visit of a run, if
it holds at the start and every visit of the run carries it on. -/
theorem Visit.history {names : List Text} {s : State} {statements : List Statement}
    (motive : List Visit → State → Prop) (start : motive [] s)
    (step : ∀ before u after, visits names s statements = before ++ u :: after →
      motive before u.state → motive (before ++ [u]) (u.next names))
    {before : List Visit} {v : Visit} {after : List Visit}
    (h : visits names s statements = before ++ v :: after) :
  motive before v.state
  := by
  induction statements generalizing s before motive with
  | nil => simp [visits] at h
  | cons st rest ih =>
      rw [visits] at h
      cases before with
      | nil =>
          obtain ⟨rfl, -⟩ := List.cons.inj h
          exact start
      | cons w before =>
          obtain ⟨rfl, hrest⟩ := List.cons.inj h
          refine ih (fun before => motive (⟨s, st, rest⟩ :: before)) ?_ ?_ hrest
          · apply step [] ⟨s, st, rest⟩ _ rfl start
          · intro before u after hu
            apply step (⟨s, st, rest⟩ :: before) u after
            rw [visits]
            apply congrArg (List.cons _) hu

/-! ### What is kept -/

/-- The kept ones of a list of visited statements, cleaned. -/
def keptCleans (names : List Text) (vs : List Visit) : List Text :=
  (vs.filter (Visit.Kept names)).map fun v => v.statement.clean

theorem keptCleans_cons_of_kept {names : List Text} {v : Visit} (hk : v.Kept names)
    (vs : List Visit) :
  keptCleans names (v :: vs) = v.statement.clean :: keptCleans names vs
  := by
  rw [keptCleans, List.filter_cons_of_pos (by simpa using hk)]
  rfl

theorem keptCleans_cons_of_not_kept {names : List Text} {v : Visit} (hk : ¬ v.Kept names)
    (vs : List Visit) :
  keptCleans names (v :: vs) = keptCleans names vs
  := by
  rw [keptCleans, List.filter_cons_of_neg (by simpa using hk)]
  rfl

/-! ### The last statement -/

/-- The last of the visits to a statement that is more than blanks. -/
def lastSolid (vs : List Visit) : Option Visit := (vs.filter Visit.Solid).getLast?

theorem lastSolid_concat (vs : List Visit) (u : Visit) :
  lastSolid (vs ++ [u]) = if u.Solid then some u else lastSolid vs
  := by
  rw [lastSolid, lastSolid, List.filter_append]
  split
  · next h => simp [h]
  · next h => simp [h]

/-- The last statement kept, as the state has it, is the last that the run has kept. -/
theorem lastKept_eq {names : List Text} {statements : List Statement} {before : List Visit}
    {v : Visit} {after : List Visit} (h : visits names {} statements = before ++ v :: after) :
  v.state.lastKept = ((lastSolid (before.filter (Visit.Kept names))).map Visit.text).getD []
  := by
  refine Visit.history (fun before s => s.lastKept
    = ((lastSolid (before.filter (Visit.Kept names))).map Visit.text).getD []) rfl ?_ h
  intro before u _ _ ih
  rw [Visit.lastKept_next]
  by_cases hk : u.Kept names
  · rw [List.filter_append, List.filter_cons_of_pos (by simpa using hk), List.filter_nil,
      lastSolid_concat]
    by_cases hu : u.Solid
    · rw [if_pos ⟨hk, hu⟩, if_pos hu]
      rfl
    · rw [if_neg (fun h => hu h.2), if_neg hu, ih]
  · rw [List.filter_append, List.filter_cons_of_neg (by simpa using hk), List.filter_nil,
      List.append_nil, if_neg (fun h => hk h.1), ih]

end StylePrune.Prune
