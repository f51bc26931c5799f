import StylePrune.Proofs.Prune.Blocks
import StylePrune.Proofs.Prune.Repeat

/-!
# Nesting

What a removal leaves of well nested statements is well nested again, exactly if no selector line
where a block goes has a closing brace.  Such a brace goes with the block but is not counted, so
that the block takes one closing brace too many away.  A removal never leaves a closing brace
without its opening one, and it reports nothing of a stylesheet that is well nested.
-/

namespace StylePrune.Prune

open Text Stylesheet

variable {names : List Text}

/-- The number of closing braces on the selector lines where removals start. -/
def startCloses (names : List Text) (vs : List Visit) : Nat :=
  closes ((vs.filter (Visit.Starts names)).flatMap Visit.text)

theorem startCloses_cons (v : Visit) (vs : List Visit) :
  startCloses names (v :: vs) = startCloses names [v] + startCloses names vs
  := by
  simp only [startCloses, closes, ← List.count_append, ← List.flatMap_append, ← List.filter_append]
  rfl

theorem startCloses_eq_zero_iff {vs : List Visit} :
  startCloses names vs = 0 ↔ ∀ v ∈ vs, v.Starts names → '\x7d' ∉ v.text
  := by
  simp [startCloses, closes, List.count_eq_zero]

theorem cleanOf_visits (names : List Text) (s : State) (statements : List Statement) :
  cleanOf (visits names s statements) = statements.flatMap Statement.clean
  := by
  conv_rhs => rw [← map_statement_visits names s statements]
  rw [List.flatMap_map]
  rfl

theorem cleanOf_cons (v : Visit) (vs : List Visit) :
  cleanOf (v :: vs) = v.statement.clean ++ cleanOf vs
  := rfl

namespace Visit

variable {v : Visit}

/-- Only braces that are kept, and closing ones on a selector line that goes, leave the depth
behind. -/
theorem depth_next_add (names : List Text)
    (hfits : v.state.phase.Fits (v.statement :: v.following)) :
  ((v.next names).phase.depth : Int) + balanceOf ([v].filter (Kept names))
    = v.state.phase.depth + balance v.statement.clean + startCloses names [v]
  := by
  rcases v.kept_or_starts_or_skipped names with hk | hs | hskip
  · have hs : ¬ v.Starts names := fun hs => not_kept_of_starts hs hk
    have hzero : startCloses names [v] = 0 := startCloses_eq_zero_iff.mpr (by simp [hs])
    rw [phase_next_of_kept hk, (kept_iff.mp hk).1, hzero]
    simp [hk]
  · have hk := not_kept_of_starts hs
    rw [depth_next_of_starts (hfits.single _ List.mem_cons_self) hs, hs.1, balance]
    simp [startCloses, hk, hs, Phase.depth, text, opens_trim, closes_trim]
  · have hk : ¬ v.Kept names := not_kept_of_skipped hskip
    have hs : ¬ v.Starts names := fun hs => hskip hs.1
    have hzero : startCloses names [v] = 0 := startCloses_eq_zero_iff.mpr (by simp [hs])
    rw [depth_next_of_skipped names hfits hskip, hzero]
    simp [hk]

/-- A bound on the depth moves with the balance, as long as it does not fall below zero. -/
theorem depth_next_le (names : List Text)
    (hfits : v.state.phase.Fits (v.statement :: v.following)) {d : Int}
    (hd : v.state.phase.depth ≤ d) (hclean : 0 ≤ d + balance v.statement.clean) :
  (v.next names).phase.depth ≤ d + balance v.statement.clean
  := by
  rcases v.kept_or_starts_or_skipped names with hk | hs | hskip
  · rw [phase_next_of_kept hk]
    exact hclean
  · have hsingle := hfits.single _ List.mem_cons_self
    have hone : opens v.statement.clean + closes v.statement.clean ≤ 1 := hsingle.count_le_one
    rw [balance] at hclean
    rw [depth_next_of_starts hsingle hs, text, opens_trim, balance]
    omega
  · rw [depth_next_of_skipped names hfits hskip]
    omega

end Visit

section Run

variable {s : State} {statements : List Statement}

/-- The phase behind the last statement agrees with the end of the stylesheet. -/
theorem fits_judge (names : List Text) (hfits : s.phase.Fits statements) :
  (judge names s statements).2.phase.Fits []
  := by
  induction statements generalizing s with
  | nil => exact hfits
  | cons st rest ih => exact ih (Visit.fits_next names (v := ⟨s, st, rest⟩) hfits)

/-- What is kept has the balance of the whole, but for the closing braces of the selector lines
where removals start and for the depth of the block that is open at the end. -/
theorem balanceOf_kept (names : List Text) (hfits : s.phase.Fits statements) :
  balanceOf ((visits names s statements).filter (Visit.Kept names))
      + (judge names s statements).2.phase.depth
    = s.phase.depth + balanceOf (visits names s statements)
      + startCloses names (visits names s statements)
  := by
  induction statements generalizing s with
  | nil =>
      have hzero : startCloses names [] = 0 := rfl
      simp [visits, judge, hzero]
  | cons st rest ih =>
      have hnext := Visit.depth_next_add names (v := ⟨s, st, rest⟩) hfits
      have hrest := ih (Visit.fits_next names (v := ⟨s, st, rest⟩) hfits)
      have hkept : ∀ vs, balanceOf (((⟨s, st, rest⟩ : Visit) :: vs).filter (Visit.Kept names))
          = balanceOf ([⟨s, st, rest⟩].filter (Visit.Kept names))
            + balanceOf (vs.filter (Visit.Kept names)) := by
        intro vs
        simp only [balanceOf, ← balance_append, cleanOf, ← List.flatMap_append,
          ← List.filter_append]
        rfl
      rw [visits_cons, hkept, startCloses_cons, balanceOf_cons, judge_cons]
      simp only [Visit.behind] at *
      push_cast
      omega

/-- Whatever the kept statements start with, all statements start with something that has no greater
balance. -/
theorem exists_prefix_of_kept (hfits : s.phase.Fits statements) {p : Text}
    (hp : p <+: cleanOf ((visits names s statements).filter (Visit.Kept names))) (hne : p ≠ []) :
  ∃ q, q <+: cleanOf (visits names s statements) ∧ s.phase.depth + balance q ≤ balance p
  := by
  induction statements generalizing s p with
  | nil => exact absurd (List.prefix_nil.mp hp) hne
  | cons st rest ih =>
      have hnext := Visit.depth_next_add names (v := ⟨s, st, rest⟩) hfits
      have hfits' := Visit.fits_next names (v := ⟨s, st, rest⟩) hfits
      rw [visits_cons] at hp ⊢
      rw [cleanOf_cons]
      by_cases hk : (⟨s, st, rest⟩ : Visit).Kept names
      · have hphase : s.phase = .copying := (Visit.kept_iff.mp hk).1
        rw [List.filter_cons_of_pos (by simpa using hk), cleanOf_cons] at hp
        rw [hphase, Phase.depth_copying]
        rcases isPrefix_append_iff.mp hp with hp | ⟨p', hp', rfl⟩
        · use p, List.prefix_append_of_prefix hp
          omega
        · by_cases hne' : p' = []
          · use st.clean, List.prefix_append _ _
            simp [hne']
          · obtain ⟨q, hq, hle⟩ := ih hfits' hp' hne'
            use st.clean ++ q, (List.prefix_append_right_inj _).mpr hq
            simp only [balance_append]
            omega
      · rw [List.filter_cons_of_neg (by simpa using hk)] at hp
        rw [List.filter_cons_of_neg (by simpa using hk)] at hnext
        -- a statement that goes moves the depth by its balance
        obtain ⟨q, hq, hle⟩ := ih hfits' hp hne
        use st.clean ++ q, (List.prefix_append_right_inj _).mpr hq
        simp only [balance_append]
        dsimp only at hnext
        simp only [List.filter_nil, balanceOf_nil] at hnext
        omega

/-- Where the statements close no block that they do not open, no more is open at the end than they
leave open. -/
theorem depth_judge_le (names : List Text) (hfits : s.phase.Fits statements) {d : Int}
    (hd : s.phase.depth ≤ d)
    (hclosed : ∀ q, q <+: cleanOf (visits names s statements) → 0 ≤ d + balance q) :
  (judge names s statements).2.phase.depth ≤ d + balanceOf (visits names s statements)
  := by
  induction statements generalizing s d with
  | nil => simpa [visits, judge] using hd
  | cons st rest ih =>
      rw [visits_cons, cleanOf_cons] at hclosed
      have hclean : 0 ≤ d + balance st.clean := hclosed _ (List.prefix_append _ _)
      have hnext := Visit.depth_next_le names (v := ⟨s, st, rest⟩) hfits hd hclean
      rw [visits_cons, balanceOf_cons, judge_cons, ← Int.add_assoc]
      apply ih (Visit.fits_next names (v := ⟨s, st, rest⟩) hfits) hnext
      intro q hq
      have := hclosed (st.clean ++ q) ((List.prefix_append_right_inj _).mpr hq)
      rw [balance_append, ← Int.add_assoc] at this
      exact this

end Run

section WellNested

variable {statements : List Statement} (hsingle : ∀ st ∈ statements, Single st.clean)
    (hnested : WellNested (statements.flatMap Statement.clean))

include hsingle hnested

/-- No block is open at the end of well nested statements. -/
theorem phase_judge_of_wellNested (names : List Text) :
  (judge names {} statements).2.phase = .copying
  := by
  have hfits := Phase.fits_copying hsingle
  rw [← cleanOf_visits names {}] at hnested
  obtain ⟨hclosed, hopened⟩ := wellNested_iff.mp hnested
  have hdepth := depth_judge_le names (s := {}) hfits (d := 0) (Int.le_refl 0)
    (by simpa using hclosed)
  rw [balanceOf, hopened] at hdepth
  by_contra hne
  have := (fits_judge names (s := {}) hfits).ne_copying_iff.mp hne
  omega

theorem wellNested_kept_visits_iff :
  WellNested (cleanOf ((visits names {} statements).filter (Visit.Kept names)))
    ↔ startCloses names (visits names {} statements) = 0
  := by
  have hfits := Phase.fits_copying hsingle
  have hend := phase_judge_of_wellNested hsingle hnested names
  rw [← cleanOf_visits names {}] at hnested
  obtain ⟨hclosed, hopened⟩ := wellNested_iff.mp hnested
  have hkept := balanceOf_kept names (s := {}) hfits
  rw [hend, balanceOf, balanceOf, hopened] at hkept
  simp only [Phase.depth_copying, Int.natCast_zero, Int.add_zero, Int.zero_add] at hkept
  rw [wellNested_iff]
  constructor
  · rintro ⟨-, hzero⟩
    omega
  · intro hzero
    constructor
    · intro p hp
      by_cases hne : p = []
      · subst hne
        exact Int.le_refl 0
      · obtain ⟨q, hq, hle⟩ := exists_prefix_of_kept (s := {}) hfits hp hne
        have := hclosed q hq
        simp only [Phase.depth_copying, Int.natCast_zero, Int.zero_add] at hle
        omega
    · omega

end WellNested

/-- A removal from well nested statements reports nothing, and it leaves well nested statements
exactly if none of the selector lines where blocks go has a closing brace. -/
theorem wellNested_kept_iff {t : Text} (hsplit : (Statement.split t).isOk = true)
    (hnested : WellNested ((statementsIn t).flatMap Statement.clean)) :
  (WellNested (cleanOf (keptVisits names t))
      ↔ ∀ v ∈ course names t, v.Starts names → '\x7d' ∉ v.text)
    ∧ (remove t names).anomalies = []
  := by
  cases hstatements : Statement.split t with
  | error anomaly =>
      rw [hstatements] at hsplit
      cases hsplit
  | ok statements =>
      have hin : statementsIn t = statements := by
        rw [statementsIn, hstatements]
      have hsingle : ∀ st ∈ statements, Single st.clean :=
        fun _ => Statement.single_of_mem_split hstatements
      rw [hin] at hnested
      constructor
      · rw [keptVisits, course_eq_visits, hin, wellNested_kept_visits_iff hsingle hnested,
          startCloses_eq_zero_iff]
      · by_cases hnames : names = []
        · rw [remove, if_pos hnames]
        · rw [anomalies_remove hstatements hnames, State.unclosed,
            phase_judge_of_wellNested hsingle hnested names]

/-- Nested rules on one line and on several. -/
theorem wellNested_kept_nested :
  let t := ".b \x7b &__c \x7b \x7d .a,\n.d \x7b p: q; \x7d \x7d\n.b\n\x7b\n\x7d\n".toList;
  let names := ["b__c".toList, "d".toList];
  (Statement.split t).isOk = true ∧ WellNested ((statementsIn t).flatMap Statement.clean)
    ∧ (remove t names).blocks = 1 ∧ WellNested (cleanOf (keptVisits names t))
  := by
  intro t names
  have hdecided : (Statement.split t).isOk = true
      ∧ WellNested ((statementsIn t).flatMap Statement.clean) ∧ (remove t names).blocks = 1
      ∧ ∀ v ∈ course names t, v.Starts names → '\x7d' ∉ v.text := by
    decide +kernel
  obtain ⟨hsplit, hnested, hblocks, hstarts⟩ := hdecided
  use hsplit, hnested, hblocks
  apply (wellNested_kept_iff hsplit hnested).1.mpr hstarts

/-- The closing brace behind a call of a mixin is lost if the next line starts with a brace once it
is cleaned. -/
theorem not_wellNested_kept_closing :
  let t := ".p \x7b .a \x7d\n#\x7b$s\x7d \x7b b: c; \x7d\n".toList;
  let names := ["a".toList];
  ¬ ((Statement.split t).isOk = true → WellNested ((statementsIn t).flatMap Statement.clean) →
    WellNested (cleanOf (keptVisits names t)) ∧ (remove t names).anomalies = [])
  := by
  intro t names h
  have hdecided : (Statement.split t).isOk = true
      ∧ WellNested ((statementsIn t).flatMap Statement.clean)
      ∧ ¬ WellNested (cleanOf (keptVisits names t)) := by
    decide +kernel
  obtain ⟨hsplit, hnested, hkept⟩ := hdecided
  exact hkept (h hsplit hnested).1

end StylePrune.Prune
