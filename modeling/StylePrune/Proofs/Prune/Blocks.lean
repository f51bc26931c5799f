import StylePrune.Proofs.Prune.Braces
import StylePrune.Proofs.Prune.Fragment
import StylePrune.Proofs.Prune.Untouched

/-!
# Removed blocks

What a removal cuts are whole blocks.  `removedRuns` lists the runs of statements that are cut, each
from the selector line where a removal starts to the last statement that it skips; each run is a
block of its own (`IsBlock`), and only the last may lack its end.
-/

namespace StylePrune.Prune

open Text Stylesheet

/-! ### The depth of a removal -/

namespace Phase

/-- The depth of the block that is being removed, zero if there is none or it has still to open. -/
def depth : Phase → Nat
  | .inside _ depth => depth
  | _ => 0

@[simp]
theorem depth_copying :
  copying.depth = 0
  := rfl

@[simp]
theorem depth_ofDepth (start d : Nat) :
  (ofDepth start d).depth = d
  := by
  rw [ofDepth]
  split
  · next h =>
    rw [h]
    rfl
  · rfl

theorem ne_copying_of_depth_pos {phase : Phase} (h : 0 < phase.depth) :
  phase ≠ .copying
  := by
  rintro rfl
  exact Nat.lt_irrefl 0 h

/-- Whether a phase agrees with the statements that follow: a block that has opened is open, and
one that has still to open is in sight.  No statement holds more than one brace. -/
structure Fits (phase : Phase) (statements : List Statement) : Prop where
  sound : phase.Sound
  seen : ∀ start, phase = .awaiting start → ∃ last, opensAhead last statements = true
  single : ∀ st ∈ statements, Single st.clean

/-- A removal has not begun at the start of a stylesheet. -/
theorem fits_copying {statements : List Statement} (h : ∀ st ∈ statements, Single st.clean) :
  Fits .copying statements
  := by
  constructor
  · rintro start depth ⟨⟩
  · rintro start ⟨⟩
  · exact h

/-- At the end of a stylesheet a removal is under way exactly if a block is open. -/
theorem Fits.ne_copying_iff {phase : Phase} (h : phase.Fits []) :
  phase ≠ .copying ↔ 0 < phase.depth
  := by
  constructor
  · intro hne
    cases hphase : phase with
    | copying => exact absurd hphase hne
    | awaiting start =>
        obtain ⟨last, hahead⟩ := h.seen start hphase
        cases hahead
    | inside start depth =>
        apply Nat.pos_of_ne_zero (h.sound start depth hphase)
  · apply ne_copying_of_depth_pos

end Phase

/-- A brace in sight stands on the next statement or behind a blank one. -/
theorem opensAhead_cons {last : Nat} {st : Statement} {rest : List Statement}
    (h : opensAhead last (st :: rest) = true) :
  (trim st.clean = [] ∧ opensAhead last rest = true) ∨ ∃ u, trim st.clean = '\x7b' :: u
  := by
  rw [opensAhead] at h
  split at h
  · cases h
  · split at h
    · next hblank => exact .inl ⟨hblank, h⟩
    · next c u hsolid =>
      obtain rfl := eq_of_beq h
      exact .inr ⟨u, hsolid⟩

namespace Visit

variable {names : List Text} {v : Visit}

/-- Whether the visited statement is a selector line with members, each of which defines a name
that is to go. -/
def Selects (names : List Text) (v : Visit) : Prop :=
  ∃ members ∈ v.reading.bind Reading.members, members ≠ []
    ∧ ∀ m ∈ members, ∃ name ∈ m.names.map Prod.fst, name ∈ names

/-- Whether the visited statement lies inside a block that is being removed. -/
def Skipped (v : Visit) : Prop := v.state.phase ≠ .copying

instance : DecidablePred Skipped := fun v =>
  inferInstanceAs (Decidable (v.state.phase ≠ .copying))

theorem selects_of_targets (h : targets names v.reading ≠ []) :
  v.Selects names
  := by
  rw [targets] at h
  split at h
  · exact absurd rfl h
  · next members hmembers =>
    use members, hmembers
    split at h
    · exact absurd rfl h
    · next hhits =>
      constructor
      · rintro rfl
        exact h rfl
      · intro m hm
        simp only [List.any_eq_true, not_exists, not_and] at hhits
        obtain ⟨name, hname⟩ := List.exists_mem_of_ne_nil _ (by simpa using hhits m hm)
        obtain ⟨hmem, hcontains⟩ := List.mem_filter.mp hname
        exact ⟨name, hmem, List.contains_iff_mem.mp hcontains⟩

theorem phase_next_of_kept (h : v.Kept names) :
  (v.next names).phase = .copying
  := by
  rw [next_of_kept h]
  apply (kept_iff.mp h).1

/-- A removal starts at a selector line that brings its brace, or in sight of the brace. -/
theorem starts_cases (hs : Single v.statement.clean) (h : v.Starts names) :
  v.Selects names
    ∧ ((opens v.text = 1 ∧ closes v.text = 0
        ∧ (v.next names).phase = .inside (v.statement.line + 1) 1)
      ∨ (opens v.text = 0 ∧ (v.next names).phase = .awaiting (v.statement.line + 1)
        ∧ ∃ last, opensAhead last v.following = true))
  := by
  have hone : opens v.text + closes v.text ≤ 1 := by
    rw [text, opens_trim, closes_trim]
    exact hs.count_le_one
  obtain ⟨found, phase, hb, hnext⟩ := next_of_starts h
  obtain ⟨rfl, hne, -, hopen⟩ := begins?_eq_some_iff.mp hb
  rw [hnext]
  use selects_of_targets hne
  rcases hopen with ⟨ho, -, rfl⟩ | ⟨ho, hahead, rfl⟩
  · have hopens : opens v.text = 1 := by
      have : opens v.text ≠ 0 := ho
      omega
    have hcloses : closes v.text = 0 := by omega
    have hdepth : opens (trim v.statement.clean) - closes (trim v.statement.clean) = 1 := by
      change opens v.text - closes v.text = 1
      omega
    left
    use hopens, hcloses
    rw [hdepth]
    rfl
  · right
    exact ⟨ho, rfl, _, hahead⟩

/-- While a block is awaited only blank statements pass, up to the one with the brace. -/
theorem awaiting_cases (names : List Text) {start : Nat} (hp : v.state.phase = .awaiting start)
    (h : v.state.phase.Fits (v.statement :: v.following)) :
  (¬ v.Solid ∧ v.next names = v.state ∧ ∃ last, opensAhead last v.following = true)
    ∨ (opens v.text = 1 ∧ closes v.text = 0 ∧ (v.next names).phase = .inside start 1)
  := by
  obtain ⟨last, hahead⟩ := h.seen start hp
  rw [next, step_of_awaiting hp]
  rcases opensAhead_cons hahead with ⟨hblank, hahead⟩ | ⟨u, hu⟩
  · left
    rw [Solid, text, hblank]
    exact ⟨not_not.mpr rfl, rfl, last, hahead⟩
  · right
    obtain ⟨ho, hc⟩ := opens_eq_one (h.single _ List.mem_cons_self) hu
    rw [text, opens_trim, closes_trim, ho, hc, if_neg Nat.one_ne_zero]
    exact ⟨rfl, rfl, rfl⟩

/-- Every step leaves a phase that agrees with the statements behind it. -/
theorem fits_next (names : List Text) (h : v.state.phase.Fits (v.statement :: v.following)) :
  (v.next names).phase.Fits v.following
  := by
  have hsingle := h.single v.statement List.mem_cons_self
  constructor
  · apply sound_next h.sound
  · intro start hp
    rcases v.kept_or_starts_or_skipped names with hk | hs | hskip
    · rw [phase_next_of_kept hk] at hp
      cases hp
    · rcases (starts_cases hsingle hs).2 with ⟨-, -, hnext⟩ | ⟨-, -, hahead⟩
      · rw [hnext] at hp
        cases hp
      · exact hahead
    · cases hphase : v.state.phase with
      | copying => exact absurd hphase hskip
      | awaiting start' =>
          rcases awaiting_cases names hphase h with ⟨-, -, hahead⟩ | ⟨-, -, hnext⟩
          · exact hahead
          · rw [hnext] at hp
            cases hp
      | inside start' depth =>
          rw [next, step_of_inside hphase, Phase.ofDepth] at hp
          split at hp
          · cases hp
          · cases hp
  · intro st hst
    apply h.single st (List.mem_cons_of_mem v.statement hst)

/-- Where a removal starts the depth is that of the brace that the selector line brings. -/
theorem depth_next_of_starts (hs : Single v.statement.clean) (h : v.Starts names) :
  (v.next names).phase.depth = opens v.text
  := by
  rcases (starts_cases hs h).2 with ⟨ho, -, hnext⟩ | ⟨ho, hnext, -⟩
  · rw [hnext, ho]
    rfl
  · rw [hnext, ho]
    rfl

/-- Inside a removed block the depth follows the braces. -/
theorem depth_next_of_skipped (names : List Text)
    (h : v.state.phase.Fits (v.statement :: v.following)) (hp : v.Skipped) :
  ((v.next names).phase.depth : Int) = v.state.phase.depth + balance v.statement.clean
  := by
  cases hphase : v.state.phase with
  | copying => exact absurd hphase hp
  | awaiting start =>
      rcases awaiting_cases names hphase h with ⟨hblank, hnext, -⟩ | ⟨ho, hc, hnext⟩
      · rw [hnext, hphase, balance_of_trim_eq_nil (not_not.mp hblank)]
        rfl
      · rw [text, opens_trim] at ho
        rw [text, closes_trim] at hc
        rw [hnext, balance, ho, hc]
        rfl
  | inside start depth =>
      have hpos : depth ≠ 0 := h.sound start depth hphase
      have hone : opens v.statement.clean + closes v.statement.clean ≤ 1 :=
        (h.single v.statement List.mem_cons_self).count_le_one
      rw [next, step_of_inside hphase, Phase.depth_ofDepth, opens_trim, closes_trim, balance,
        Phase.depth]
      omega

end Visit

/-! ### Runs -/

/-- The runs of visits to statements that are cut: each goes from the start of a removal through all
that the removal skips. -/
def removedRuns (names : List Text) : List Visit → List (List Visit)
  | [] => []
  | v :: vs =>
    if v.Starts names then (v :: vs.takeWhile Visit.Skipped) :: removedRuns names vs
    else removedRuns names vs

/-- The cleaned text of visited statements. -/
def cleanOf (vs : List Visit) : Text := vs.flatMap fun v => v.statement.clean

/-- The balance of visited statements. -/
def balanceOf (vs : List Visit) : Int := balance (cleanOf vs)

/-- What stands in a run before the statement with its first opening brace. -/
def lead (run : List Visit) : List Visit := run.takeWhile fun v => opens v.text = 0

/-- A run from the statement with its first opening brace on. -/
def braced (run : List Visit) : List Visit := run.dropWhile fun v => opens v.text = 0

/-- A run of statements that opens a block at a selector line all of whose members are to go, only
blank statements standing between the selector and the brace, and leaves it open up to the last of
its statements. -/
structure IsBlock (names : List Text) (run : List Visit) : Prop where
  selector : ∃ v ∈ run.head?, v.Selects names
  blank : ∀ v ∈ (lead run).tail, ¬ v.Solid
  brace : braced run ≠ []
  positive : ∀ p, p <+: braced run → p ≠ [] → p ≠ braced run → 0 < balanceOf p

@[simp]
theorem balanceOf_nil :
  balanceOf [] = 0
  := rfl

@[simp]
theorem balanceOf_cons (v : Visit) (vs : List Visit) :
  balanceOf (v :: vs) = balance v.statement.clean + balanceOf vs
  := balance_append _ _

theorem balanceOf_append_of_blank {blanks : List Visit} (h : ∀ v ∈ blanks, ¬ v.Solid)
    (vs : List Visit) :
  balanceOf (blanks ++ vs) = balanceOf vs
  := by
  induction blanks with
  | nil => rfl
  | cons v blanks ih =>
      obtain ⟨hv, hblanks⟩ := List.forall_mem_cons.mp h
      rw [List.cons_append, balanceOf_cons, balance_of_trim_eq_nil (not_not.mp hv), ih hblanks]
      apply Int.zero_add

section Run

variable {names : List Text} {s : State} {statements : List Statement}

/-- What a removal in a certain state goes on to skip. -/
def skippedFrom (names : List Text) (s : State) (statements : List Statement) : List Visit :=
  (visits names s statements).takeWhile Visit.Skipped

/-- The run of statements that a removal cuts from a visit on. -/
def Visit.run (names : List Text) (v : Visit) : List Visit :=
  v :: skippedFrom names (v.next names) v.following

theorem judge_cons (st : Statement) (rest : List Statement) :
  (judge names s (st :: rest)).2 = (judge names ((⟨s, st, rest⟩ : Visit).next names) rest).2
  := rfl

theorem visits_cons (names : List Text) (s : State) (st : Statement) (rest : List Statement) :
  visits names s (st :: rest) = ⟨s, st, rest⟩ :: (⟨s, st, rest⟩ : Visit).behind names
  := rfl

theorem skippedFrom_of_copying (h : s.phase = .copying) :
  skippedFrom names s statements = []
  := by
  cases statements with
  | nil => rfl
  | cons st rest =>
      rw [skippedFrom, visits, List.takeWhile_cons_of_neg]
      simp [Visit.Skipped, h]

theorem skippedFrom_cons (h : s.phase ≠ .copying) (st : Statement) (rest : List Statement) :
  skippedFrom names s (st :: rest)
    = ⟨s, st, rest⟩ :: skippedFrom names ((⟨s, st, rest⟩ : Visit).next names) rest
  := by
  rw [skippedFrom, visits, List.takeWhile_cons_of_pos]
  · rfl
  · exact decide_eq_true h

/-- Where the block that is being removed gets closed the removal is over. -/
theorem phase_next_of_depth_eq_zero {v : Visit} (h : 0 < v.state.phase.depth)
    (hzero : (v.next names).phase.depth = 0) :
  (v.next names).phase = .copying
  := by
  cases hphase : v.state.phase with
  | copying => exact absurd hphase (Phase.ne_copying_of_depth_pos h)
  | awaiting start =>
      rw [hphase] at h
      exact absurd h (Nat.lt_irrefl 0)
  | inside start depth =>
      rw [Visit.next, step_of_inside hphase, Phase.depth_ofDepth] at hzero
      rw [Visit.next, step_of_inside hphase]
      apply Phase.ofDepth_eq_copying_iff.mpr hzero

/-- Up to its end, what is skipped of a block leaves the block open. -/
theorem depth_add_balanceOf_pos (hfits : s.phase.Fits statements) (h : 0 < s.phase.depth)
    {p : List Visit} (hp : p <+: skippedFrom names s statements)
    (hne : p ≠ skippedFrom names s statements) :
  0 < s.phase.depth + balanceOf p
  := by
  induction statements generalizing s p with
  | nil => exact absurd (List.prefix_nil.mp hp) hne
  | cons st rest ih =>
      have hskip := Phase.ne_copying_of_depth_pos h
      have hdepth := Visit.depth_next_of_skipped names (v := ⟨s, st, rest⟩) hfits hskip
      rw [skippedFrom_cons hskip] at hp hne
      rcases List.prefix_cons_iff.mp hp with rfl | ⟨q, rfl, hq⟩
      · rw [balanceOf_nil]
        omega
      · have hq' : q ≠ skippedFrom names ((⟨s, st, rest⟩ : Visit).next names) rest := by
          rintro rfl
          exact hne rfl
        rw [balanceOf_cons]
        rcases Nat.eq_zero_or_pos ((⟨s, st, rest⟩ : Visit).next names).phase.depth with hzero | hpos
        · rw [skippedFrom_of_copying (phase_next_of_depth_eq_zero h hzero)] at hq hq'
          exact absurd (List.prefix_nil.mp hq) hq'
        · have := ih (Visit.fits_next names hfits) hpos hq hq'
          dsimp only at hdepth ⊢
          omega

/-- What is skipped of a block closes the block, or reaches the end of the stylesheet. -/
theorem depth_add_balanceOf_skippedFrom (names : List Text) (hfits : s.phase.Fits statements)
    (h : 0 < s.phase.depth) :
  s.phase.depth + balanceOf (skippedFrom names s statements) = 0
    ∨ 0 < s.phase.depth + balanceOf (skippedFrom names s statements)
      ∧ skippedFrom names s statements = visits names s statements
  := by
  induction statements generalizing s with
  | nil =>
      right
      constructor
      · apply Int.natCast_pos.mpr h
      · rfl
  | cons st rest ih =>
      have hskip := Phase.ne_copying_of_depth_pos h
      have hdepth := Visit.depth_next_of_skipped names (v := ⟨s, st, rest⟩) hfits hskip
      dsimp only at hdepth
      rw [skippedFrom_cons hskip, balanceOf_cons]
      rcases Nat.eq_zero_or_pos ((⟨s, st, rest⟩ : Visit).next names).phase.depth with hzero | hpos
      · rw [skippedFrom_of_copying (phase_next_of_depth_eq_zero h hzero), balanceOf_nil]
        left
        dsimp only
        omega
      · rcases ih (Visit.fits_next names hfits) hpos with hclosed | ⟨hopened, hall⟩
        · left
          dsimp only
          omega
        · right
          constructor
          · dsimp only
            omega
          · rw [hall]
            rfl

/-- While a block is awaited, what is skipped starts with blank statements and goes on with the one
that opens the block. -/
theorem exists_skippedFrom_of_awaiting (names : List Text) (hfits : s.phase.Fits statements)
    {start : Nat} (h : s.phase = .awaiting start) :
  ∃ blanks opener, skippedFrom names s statements = blanks ++ opener.run names
    ∧ visits names s statements = blanks ++ opener :: opener.behind names
    ∧ (∀ v ∈ blanks, ¬ v.Solid) ∧ opens opener.text = 1 ∧ closes opener.text = 0
    ∧ (opener.next names).phase = .inside start 1
    ∧ (opener.next names).phase.Fits opener.following
  := by
  induction statements with
  | nil =>
      obtain ⟨last, hahead⟩ := hfits.seen start h
      cases hahead
  | cons st rest ih =>
      have hskip : s.phase ≠ .copying := by
        rw [h]
        rintro ⟨⟩
      have hnext := Visit.fits_next names (v := ⟨s, st, rest⟩) hfits
      rw [skippedFrom_cons hskip, visits_cons]
      rcases Visit.awaiting_cases names (v := ⟨s, st, rest⟩) h hfits
        with ⟨hblank, hs, -⟩ | ⟨ho, hc, hinside⟩
      · rw [hs] at hnext
        obtain ⟨blanks, opener, hskipped, hvisits, hblanks, hopener⟩ := ih hnext
        rw [Visit.behind, hs]
        refine ⟨⟨s, st, rest⟩ :: blanks, opener, ?_, ?_, ?_, hopener⟩
        · rw [hskipped]
          rfl
        · rw [hvisits]
          rfl
        · exact List.forall_mem_cons.mpr ⟨hblank, hblanks⟩
      · use [], ⟨s, st, rest⟩, rfl, rfl
        use List.forall_mem_nil _, ho, hc, hinside

end Run

/-- The statement that brings the first brace of a run, and what stands before it. -/
structure OpenedBy (names : List Text) (v : Visit) (before : List Visit) (opener : Visit) :
    Prop where
  run : v.run names = before ++ opener.run names
  course : v :: v.behind names = before ++ opener :: opener.behind names
  unopened : ∀ u ∈ before, opens u.text = 0
  blank : ∀ u ∈ before.tail, ¬ u.Solid
  brace : opens opener.text = 1
  balance : balance opener.statement.clean = 1
  depth : (opener.next names).phase.depth = 1
  fits : (opener.next names).phase.Fits opener.following
  balanceOf_run : balanceOf (opener.run names)
    = (v.next names).phase.depth + balanceOf (skippedFrom names (v.next names) v.following)

theorem balance_of_opens {v : Visit} (ho : opens v.text = 1) (hc : closes v.text = 0) :
  balance v.statement.clean = 1
  := by
  rw [Visit.text, opens_trim] at ho
  rw [Visit.text, closes_trim] at hc
  rw [balance, ho, hc]
  rfl

section Starts

variable {names : List Text} {v : Visit} (hfits : v.state.phase.Fits (v.statement :: v.following))
    (h : v.Starts names)

include hfits h

/-- Every run that is cut brings an opening brace. -/
theorem exists_openedBy :
  ∃ before opener, OpenedBy names v before opener
  := by
  have hnext := Visit.fits_next names hfits
  rcases (Visit.starts_cases (hfits.single _ List.mem_cons_self) h).2
    with ⟨ho, hc, hinside⟩ | ⟨ho, hawaiting, -⟩
  · use [], v
    have hbalance := balance_of_opens ho hc
    constructor
    · rfl
    · rfl
    · apply List.forall_mem_nil
    · apply List.forall_mem_nil
    · exact ho
    · exact hbalance
    · rw [hinside]
      rfl
    · exact hnext
    · rw [Visit.run, balanceOf_cons, hbalance, hinside]
      rfl
  · obtain ⟨blanks, opener, hskipped, hvisits, hblanks, hbrace, hclose, hinside, hopener⟩ :=
      exists_skippedFrom_of_awaiting names hnext hawaiting
    use v :: blanks, opener
    constructor
    · rw [Visit.run, hskipped]
      rfl
    · exact congrArg (List.cons v) hvisits
    · intro u hu
      rcases List.mem_cons.mp hu with rfl | hu
      · exact ho
      · have hblank : u.text = [] := not_not.mp (hblanks u hu)
        rw [hblank]
        rfl
    · exact hblanks
    · exact hbrace
    · apply balance_of_opens hbrace hclose
    · rw [hinside]
      rfl
    · exact hopener
    · rw [hskipped, balanceOf_append_of_blank hblanks, hawaiting]
      exact (Int.zero_add _).symm

end Starts

namespace OpenedBy

variable {names : List Text} {v opener : Visit} {before : List Visit}
    (h : OpenedBy names v before opener)

include h

theorem forall_decide_unopened :
  ∀ u ∈ before, decide (opens u.text = 0) = true
  := by
  intro u hu
  exact decide_eq_true (h.unopened u hu)

theorem lead_run :
  lead (v.run names) = before
  := by
  rw [lead, h.run, List.takeWhile_append_of_pos h.forall_decide_unopened, Visit.run,
    List.takeWhile_cons_of_neg]
  · apply List.append_nil
  · simp [h.brace]

theorem braced_run :
  braced (v.run names) = opener.run names
  := by
  rw [braced, h.run, List.dropWhile_append_of_pos h.forall_decide_unopened, Visit.run,
    List.dropWhile_cons_of_neg]
  simp [h.brace]

theorem isBlock (hselects : v.Selects names) :
  IsBlock names (v.run names)
  := by
  have hpositive := h.depth
  constructor
  · use v, rfl
  · rw [h.lead_run]
    exact h.blank
  · rw [h.braced_run]
    apply List.cons_ne_nil
  · intro p hp hne hproper
    rw [h.braced_run] at hp hproper
    rcases List.prefix_cons_iff.mp hp with rfl | ⟨q, rfl, hq⟩
    · exact absurd rfl hne
    · have hq' : q ≠ skippedFrom names (opener.next names) opener.following := by
        rintro rfl
        exact hproper rfl
      have := depth_add_balanceOf_pos h.fits (by omega) hq hq'
      rw [balanceOf_cons, h.balance]
      omega

/-- A run that is cut closes its block, or reaches the end of the stylesheet. -/
theorem closed_or_unclosed :
  balanceOf (braced (v.run names)) = 0
    ∨ 0 < balanceOf (braced (v.run names)) ∧ v.run names = v :: v.behind names
  := by
  have hpositive := h.depth
  rw [h.braced_run, Visit.run, balanceOf_cons, h.balance]
  rcases depth_add_balanceOf_skippedFrom names h.fits (by omega)
    with hclosed | ⟨hopened, hall⟩
  · left
    omega
  · right
    constructor
    · omega
    · rw [h.run, h.course, Visit.run, hall]
      rfl

end OpenedBy

/-! ### The runs of a whole removal -/

section Runs

variable {names : List Text}

theorem removedRuns_cons_of_starts {s : State} {st : Statement} {rest : List Statement}
    (h : (⟨s, st, rest⟩ : Visit).Starts names) :
  removedRuns names (visits names s (st :: rest))
    = (⟨s, st, rest⟩ : Visit).run names
      :: removedRuns names ((⟨s, st, rest⟩ : Visit).behind names)
  := by
  rw [visits_cons, removedRuns, if_pos h]
  rfl

theorem removedRuns_cons_of_not_starts {v : Visit} (h : ¬ v.Starts names) (vs : List Visit) :
  removedRuns names (v :: vs) = removedRuns names vs
  := by
  rw [removedRuns, if_neg h]

theorem not_starts_of_kept {v : Visit} (h : v.Kept names) :
  ¬ v.Starts names
  := by
  intro hs
  exact Visit.not_kept_of_starts hs h

/-- As many runs are cut as blocks are counted. -/
theorem blocks_judge (names : List Text) (s : State) (statements : List Statement) :
  (judge names s statements).2.blocks
    = s.blocks + (removedRuns names (visits names s statements)).length
  := by
  induction statements generalizing s with
  | nil => rfl
  | cons st rest ih =>
      rw [judge_cons, ih]
      rcases (⟨s, st, rest⟩ : Visit).kept_or_starts_or_skipped names with hk | hs | hskip
      · rw [visits_cons, removedRuns_cons_of_not_starts (not_starts_of_kept hk), Visit.behind,
          Visit.next_of_kept hk]
        rfl
      · obtain ⟨found, phase, -, hnext⟩ := Visit.next_of_starts hs
        rw [removedRuns_cons_of_starts hs, List.length_cons, Visit.behind, hnext]
        apply Nat.add_right_comm
      · obtain ⟨-, phase, hnext⟩ := Visit.skipped names hskip
        rw [visits_cons, removedRuns_cons_of_not_starts (fun hs => hskip hs.1), Visit.behind, hnext]

/-- The runs hold what is cut and nothing else, but for what a removal under way goes on to
skip. -/
theorem filter_not_kept_visits (s : State) (statements : List Statement) :
  (visits names s statements).filter (fun v => ¬ v.Kept names)
    = skippedFrom names s statements ++ (removedRuns names (visits names s statements)).flatten
  := by
  induction statements generalizing s with
  | nil => rfl
  | cons st rest ih =>
      have hbehind := ih ((⟨s, st, rest⟩ : Visit).next names)
      rcases (⟨s, st, rest⟩ : Visit).kept_or_starts_or_skipped names with hk | hs | hskip
      · rw [visits_cons, List.filter_cons_of_neg (by simpa using hk),
          removedRuns_cons_of_not_starts (not_starts_of_kept hk),
          skippedFrom_of_copying (Visit.kept_iff.mp hk).1, Visit.behind, hbehind,
          skippedFrom_of_copying (Visit.phase_next_of_kept hk)]
      · rw [removedRuns_cons_of_starts hs, visits_cons,
          List.filter_cons_of_pos (by simpa using Visit.not_kept_of_starts hs),
          skippedFrom_of_copying hs.1, Visit.behind, hbehind]
        rfl
      · rw [visits_cons, List.filter_cons_of_pos (by simpa using Visit.not_kept_of_skipped hskip),
          removedRuns_cons_of_not_starts (fun hs => hskip hs.1), skippedFrom_cons hskip,
          Visit.behind, hbehind]
        rfl

/-- A run that is cut starts where a removal does. -/
theorem exists_of_mem_removedRuns {s : State} {statements : List Statement}
    (hfits : s.phase.Fits statements) {run : List Visit}
    (h : run ∈ removedRuns names (visits names s statements)) :
  ∃ v, v.Starts names ∧ v.state.phase.Fits (v.statement :: v.following) ∧ run = v.run names
    ∧ v :: v.behind names <:+ visits names s statements
  := by
  induction statements generalizing s with
  | nil => cases h
  | cons st rest ih =>
      have hnext := Visit.fits_next names (v := ⟨s, st, rest⟩) hfits
      by_cases hs : (⟨s, st, rest⟩ : Visit).Starts names
      · rw [removedRuns_cons_of_starts hs] at h
        rcases List.mem_cons.mp h with rfl | h
        · exact ⟨⟨s, st, rest⟩, hs, hfits, rfl, List.suffix_rfl⟩
        · obtain ⟨v, hv, hv', hrun, hsuffix⟩ := ih hnext h
          exact ⟨v, hv, hv', hrun, hsuffix.trans (List.suffix_cons _ _)⟩
      · rw [visits_cons, removedRuns_cons_of_not_starts hs] at h
        obtain ⟨v, hv, hv', hrun, hsuffix⟩ := ih hnext h
        exact ⟨v, hv, hv', hrun, hsuffix.trans (List.suffix_cons _ _)⟩

/-- A removal is still under way at the end of a stylesheet exactly if what it has skipped has left
a block open, be it the block of a run or the one that was being removed before. -/
theorem phase_judge_ne_copying_iff {s : State} {statements : List Statement}
    (hfits : s.phase.Fits statements) :
  (judge names s statements).2.phase ≠ .copying
    ↔ 0 < s.phase.depth + balanceOf (skippedFrom names s statements)
      ∨ ∃ run ∈ removedRuns names (visits names s statements), 0 < balanceOf (braced run)
  := by
  induction statements generalizing s with
  | nil =>
      have hruns : removedRuns names (visits names s []) = [] := rfl
      have hskipped : skippedFrom names s [] = [] := rfl
      rw [hruns, hskipped, balanceOf_nil]
      simpa [judge] using hfits.ne_copying_iff
  | cons st rest ih =>
      have hnext := Visit.fits_next names (v := ⟨s, st, rest⟩) hfits
      rw [judge_cons, ih hnext]
      rcases (⟨s, st, rest⟩ : Visit).kept_or_starts_or_skipped names with hk | hs | hskip
      · have hcopying := Visit.phase_next_of_kept hk
        have hphase : s.phase = .copying := (Visit.kept_iff.mp hk).1
        rw [visits_cons, removedRuns_cons_of_not_starts (not_starts_of_kept hk),
          skippedFrom_of_copying hcopying, skippedFrom_of_copying hphase, hcopying, hphase]
        rfl
      · obtain ⟨before, opener, hopener⟩ := exists_openedBy hfits hs
        have hphase : s.phase = .copying := hs.1
        have hbalance := hopener.balanceOf_run
        rw [removedRuns_cons_of_starts hs, List.exists_mem_cons_iff, hopener.braced_run, hbalance,
          skippedFrom_of_copying hphase, hphase]
        simp [Phase.depth, Visit.behind]
      · have hdepth := Visit.depth_next_of_skipped names hfits hskip
        dsimp only at hdepth
        rw [visits_cons, removedRuns_cons_of_not_starts (fun hs => hskip hs.1),
          skippedFrom_cons hskip, balanceOf_cons, hdepth, Int.add_assoc]
        rfl

end Runs

/-- Where the statements of a stylesheet can be told, nothing is reported but a block that is still
open at its end. -/
theorem anomalies_remove {names : List Text} {t : Text} {statements : List Statement}
    (hsplit : Statement.split t = .ok statements) (hnames : names ≠ []) :
  (remove t names).anomalies = (judge names {} statements).2.unclosed
  := by
  rw [remove, if_neg hnames, hsplit]
  dsimp only
  split
  · rfl
  · rfl

/-- A block that is never closed is reported exactly if the removal is under way at the end of the
stylesheet. -/
theorem neverClosed_mem_anomalies_iff {names : List Text} {t : Text} {statements : List Statement}
    (hsplit : Statement.split t = .ok statements) (hnames : names ≠ []) :
  (∃ line, .neverClosed line ∈ (remove t names).anomalies)
    ↔ (judge names {} statements).2.phase ≠ .copying
  := by
  rw [anomalies_remove hsplit hnames, State.unclosed]
  cases (judge names {} statements).2.phase with
  | copying => simp
  | awaiting start => simp
  | inside start depth => simp

/-- What a removal cuts are whole blocks, as many as it counts: their runs hold the statements that
are cut and no others, each run is a block that its last statement closes or that reaches the end of
the stylesheet, and a block that is never closed is reported exactly if there is one. -/
theorem removedRuns_course {names : List Text} {t : Text}
    (hsplit : (Statement.split t).isOk = true) (hnames : names ≠ []) :
  (removedRuns names (course names t)).length = (remove t names).blocks
    ∧ (removedRuns names (course names t)).flatten
      = (course names t).filter (fun v => ¬ v.Kept names)
    ∧ (∀ run ∈ removedRuns names (course names t), run <:+: course names t ∧ IsBlock names run
      ∧ (balanceOf (braced run) = 0
        ∨ 0 < balanceOf (braced run) ∧ run <:+ course names t))
    ∧ ((∃ line, .neverClosed line ∈ (remove t names).anomalies)
      ↔ ∃ run ∈ removedRuns names (course names t), 0 < balanceOf (braced run))
  := by
  cases hstatements : Statement.split t with
  | error anomaly =>
      rw [hstatements] at hsplit
      cases hsplit
  | ok statements =>
      have hcourse : course names t = visits names {} statements := by
        rw [course, hstatements]
      have hfits : (Phase.copying).Fits statements :=
        Phase.fits_copying fun _ => Statement.single_of_mem_split hstatements
      have hskipped : skippedFrom names {} statements = [] := skippedFrom_of_copying rfl
      rw [hcourse]
      and_intros
      · have hblocks : (remove t names).blocks = (judge names {} statements).2.blocks := by
          rw [remove, if_neg hnames, hstatements]
          dsimp only
          split
          · next hzero => exact hzero.symm
          · rfl
        rw [hblocks, blocks_judge]
        exact (Nat.zero_add _).symm
      · rw [filter_not_kept_visits, hskipped]
        rfl
      · intro run hrun
        obtain ⟨v, hs, hv, rfl, hsuffix⟩ :=
          exists_of_mem_removedRuns (s := {}) hfits hrun
        obtain ⟨before, opener, hopener⟩ := exists_openedBy hv hs
        have hinitial : v.run names <+: v :: v.behind names :=
          (List.prefix_cons_inj v).mpr (List.takeWhile_prefix _)
        and_intros
        · exact hinitial.isInfix.trans hsuffix.isInfix
        · apply hopener.isBlock (Visit.starts_cases (hv.single _ List.mem_cons_self) hs).1
        · rcases hopener.closed_or_unclosed with hclosed | ⟨hopened, hall⟩
          · exact .inl hclosed
          · right
            use hopened
            rw [hall]
            exact hsuffix
      · rw [neverClosed_mem_anomalies_iff hstatements hnames,
          phase_judge_ne_copying_iff (s := {}) hfits, hskipped]
        simp [Phase.depth]

/-- A block whose brace stands two lines below its selector, a nested one that goes with it, and one
that is never closed. -/
theorem removedRuns_course_unclosed :
  let t := ".b \x7b \x7d .a,\n\n.b:hover\n\n\x7b\n  &__c \x7b \x7d\n\x7d\n.b .d \x7b\n".toList;
  let names := ["b".toList];
  (Statement.split t).isOk = true ∧ names ≠ []
    ∧ (removedRuns names (course names t)).length = (remove t names).blocks
    ∧ (remove t names).blocks = 2
    ∧ ∃ line, .neverClosed line ∈ (remove t names).anomalies
  := by
  intro t names
  have hsplit : (Statement.split t).isOk = true := by decide +kernel
  have hnames : names ≠ [] := List.cons_ne_nil _ _
  have hruns := removedRuns_course hsplit hnames
  and_intros
  · exact hsplit
  · exact hnames
  · exact hruns.1
  · decide +kernel
  · apply hruns.2.2.2.mpr
    decide +kernel

end StylePrune.Prune
