import StylePrune.Proofs.Prune.Blocks
import StylePrune.Proofs.Prune.Glue

/-!
# Removals line by line

What a removal makes of a statement depends on the statement, blanks around it apart, on its line,
and on those statements behind it that are more than blanks (`step_congr`).  So a removal goes over
the lines of a stylesheet one after the other: `rowsOf` has the visits to the statements of each
line, and the lines of the new text are what is kept of the `leftRows` (`leftLines_judge`).
-/

namespace StylePrune.Prune

open Text Stylesheet

/-! ### What a removal sees of statements -/

/-- The statements that are more than blanks, without the blanks around them, and their lines. -/
def cores (statements : List Statement) : List (Text × Nat) :=
  (statements.filter fun st => trim st.clean != []).map fun st => (trim st.clean, st.line)

/-- Whether statements stand in the order of their lines. -/
def InOrder (statements : List Statement) : Prop := statements.Pairwise fun a b => a.line ≤ b.line

theorem cores_cons_of_blank {st : Statement} (h : trim st.clean = []) (rest : List Statement) :
  cores (st :: rest) = cores rest
  := by
  rw [cores, List.filter_cons_of_neg (by simp [h])]
  rfl

theorem cores_cons_of_ne {st : Statement} (h : trim st.clean ≠ []) (rest : List Statement) :
  cores (st :: rest) = (trim st.clean, st.line) :: cores rest
  := by
  rw [cores, List.filter_cons_of_pos (by simp [h])]
  rfl

theorem cores_append (first second : List Statement) :
  cores (first ++ second) = cores first ++ cores second
  := by
  rw [cores, List.filter_append, List.map_append]
  rfl

theorem exists_of_mem_cores {statements : List Statement} {core : Text × Nat}
    (h : core ∈ cores statements) :
  ∃ st ∈ statements, st.line = core.2
  := by
  obtain ⟨st, hst, rfl⟩ := List.mem_map.mp h
  exact ⟨st, List.mem_of_mem_filter hst, rfl⟩

theorem map_fst_cores (statements : List Statement) :
  (cores statements).map Prod.fst = solids (statements.map Statement.clean)
  := by
  induction statements with
  | nil => rfl
  | cons st rest ih =>
      by_cases h : trim st.clean = []
      · rw [cores_cons_of_blank h, List.map_cons, solids_cons_of_blank h, ih]
      · rw [cores_cons_of_ne h, List.map_cons, List.map_cons, solids_cons_of_ne h, ih]

/-- Looking ahead for an opening brace means looking at the next statement that is not blank. -/
theorem opensAhead_eq {last : Nat} {statements : List Statement} (h : InOrder statements) :
  opensAhead last statements
    = (cores statements).head?.any fun core => core.2 ≤ last && core.1.head? == some '\x7b'
  := by
  induction statements with
  | nil => rfl
  | cons st rest ih =>
      obtain ⟨hlines, hrest⟩ := List.pairwise_cons.mp h
      rw [opensAhead]
      by_cases hlast : last < st.line
      · have hbehind : ∀ core ∈ (cores (st :: rest)).head?, last < core.2 := by
          intro core hcore
          obtain ⟨st', hst', hline⟩ := exists_of_mem_cores (List.mem_of_mem_head? hcore)
          rw [← hline]
          rcases List.mem_cons.mp hst' with rfl | hst'
          · exact hlast
          · exact Nat.lt_of_lt_of_le hlast (hlines st' hst')
        rw [if_pos hlast]
        cases hhead : (cores (st :: rest)).head? with
        | none => rfl
        | some core => simp [hbehind core hhead]
      · rw [if_neg hlast]
        cases htext : trim st.clean with
        | nil => rw [cores_cons_of_blank htext, ih hrest]
        | cons c u =>
            rw [cores_cons_of_ne (by rw [htext]; exact List.cons_ne_nil c u), htext]
            simp [Nat.le_of_not_lt hlast]

/-- What is done with a statement depends on what there is of it and of those behind it but for
blanks. -/
theorem step_congr {names : List Text} {s : State} {st st' : Statement}
    {following following' : List Statement} (hclean : trim st'.clean = trim st.clean)
    (hline : st'.line = st.line) (hcores : cores following' = cores following)
    (h : InOrder following) (h' : InOrder following') :
  s.step names st' following' = s.step names st following
  := by
  have hread : s.scanner.read st'.clean (following'.map Statement.clean)
      = s.scanner.read st.clean (following.map Statement.clean) := by
    apply Scanner.read_congr_of_solids _ hclean
    rw [← map_fst_cores, ← map_fst_cores, hcores]
  simp only [State.step, State.begins?, hread, hclean, hline, opensAhead_eq h, opensAhead_eq h',
    hcores]

namespace Visit

variable {names : List Text} {v : Visit}

/-- A blank statement leaves the state as it is. -/
theorem next_of_blank (h : v.text = []) (hsound : v.state.phase.Sound) :
  v.next names = v.state
  := by
  have htrim : trim v.statement.clean = [] := h
  rcases v.kept_or_starts_or_skipped names with hk | hs | hskip
  · have hread : v.reading = none := Scanner.read_eq_none_iff.mpr htrim
    rw [next_of_kept hk, State.keep, if_pos h, hread]
    rfl
  · exact absurd h (solid_of_starts hs)
  · cases hphase : v.state.phase with
    | copying => exact absurd hphase hskip
    | awaiting start =>
        rw [next, step_of_awaiting hphase, htrim]
        rfl
    | inside start depth =>
        have hdepth : Phase.ofDepth start depth = v.state.phase := by
          rw [hphase, Phase.ofDepth, if_neg (hsound start depth hphase)]
        rw [next, step_of_inside hphase, htrim]
        exact congrArg (fun phase => { v.state with phase }) hdepth

/-- A statement without braces is kept exactly where no block is being removed behind it. -/
theorem kept_iff_copying (ho : opens v.text = 0) (hc : closes v.text = 0)
    (hsound : v.state.phase.Sound) :
  v.Kept names ↔ (v.next names).phase = .copying
  := by
  constructor
  · exact phase_next_of_kept
  · intro hnext
    rcases v.kept_or_starts_or_skipped names with hk | hs | hskip
    · exact hk
    · obtain ⟨found, phase, hb, hstart⟩ := next_of_starts hs
      rw [hstart] at hnext
      obtain ⟨-, -, -, ⟨hopen, -, -⟩ | ⟨-, -, rfl⟩⟩ := begins?_eq_some_iff.mp hb
      · exact absurd ho hopen
      · cases hnext
    · have hopens : opens (trim v.statement.clean) = 0 := ho
      have hcloses : closes (trim v.statement.clean) = 0 := hc
      cases hphase : v.state.phase with
      | copying => exact absurd hphase hskip
      | awaiting start =>
          rw [next, step_of_awaiting hphase, if_pos hopens] at hnext
          exact absurd hnext hskip
      | inside start depth =>
          rw [next, step_of_inside hphase, hopens, hcloses] at hnext
          exact absurd (Phase.ofDepth_eq_copying_iff.mp hnext) (hsound start depth hphase)

/-- In particular a statement that does not end, and has no brace for it. -/
theorem kept_iff_copying_of_unended (h : ∀ c ∈ v.statement.clean, endsStatement c = false)
    (hsound : v.state.phase.Sound) :
  v.Kept names ↔ (v.next names).phase = .copying
  := by
  apply kept_iff_copying _ _ hsound
  · rw [text, opens_trim]
    exact List.count_eq_zero.mpr fun hmem => absurd (h _ hmem) (by decide)
  · rw [text, closes_trim]
    exact List.count_eq_zero.mpr fun hmem => absurd (h _ hmem) (by decide)

end Visit

/-! ### Visits to the first statements -/

/-- The visits to the first ones of a list of statements, with the others behind them. -/
def visitsTo (names : List Text) (s : State) : List Statement → List Statement → List Visit
  | [], _ => []
  | st :: first, rest =>
    ⟨s, st, first ++ rest⟩
      :: visitsTo names ((⟨s, st, first ++ rest⟩ : Visit).next names) first rest

/-- The state behind the first ones of a list of statements, with the others behind them. -/
def stateBehind (names : List Text) (s : State) : List Statement → List Statement → State
  | [], _ => s
  | st :: first, rest =>
    stateBehind names ((⟨s, st, first ++ rest⟩ : Visit).next names) first rest

section

variable {names : List Text} {s : State} {first rest : List Statement}

theorem visits_append (names : List Text) (s : State) (first rest : List Statement) :
  visits names s (first ++ rest)
    = visitsTo names s first rest ++ visits names (stateBehind names s first rest) rest
  := by
  induction first generalizing s with
  | nil => rfl
  | cons st first ih =>
      rw [List.cons_append, visits_cons, Visit.behind, ih]
      rfl

theorem judge_append (names : List Text) (s : State) (first rest : List Statement) :
  (judge names s (first ++ rest)).2 = (judge names (stateBehind names s first rest) rest).2
  := by
  induction first generalizing s with
  | nil => rfl
  | cons st first ih =>
      rw [List.cons_append, judge_cons, ih]
      rfl

theorem map_statement_visitsTo (names : List Text) (s : State) (first rest : List Statement) :
  (visitsTo names s first rest).map Visit.statement = first
  := by
  induction first generalizing s with
  | nil => rfl
  | cons st first ih => rw [visitsTo, List.map_cons, ih]

theorem visitsTo_concat (names : List Text) (s : State) (first : List Statement) (st : Statement)
    (rest : List Statement) :
  visitsTo names s (first ++ [st]) rest
    = visitsTo names s first (st :: rest) ++ [⟨stateBehind names s first (st :: rest), st, rest⟩]
  := by
  induction first generalizing s with
  | nil => rfl
  | cons st' first ih =>
      have hrest : first ++ [st] ++ rest = first ++ st :: rest :=
        List.append_cons first st rest ▸ rfl
      rw [List.cons_append, visitsTo, hrest, ih]
      rfl

theorem stateBehind_concat (names : List Text) (s : State) (first : List Statement)
    (st : Statement) (rest : List Statement) :
  stateBehind names s (first ++ [st]) rest
    = (⟨stateBehind names s first (st :: rest), st, rest⟩ : Visit).next names
  := by
  induction first generalizing s with
  | nil => rfl
  | cons st' first ih =>
      have hrest : first ++ [st] ++ rest = first ++ st :: rest :=
        List.append_cons first st rest ▸ rfl
      rw [List.cons_append, stateBehind, hrest, ih]
      rfl

theorem sound_stateBehind (hs : s.phase.Sound) :
  (stateBehind names s first rest).phase.Sound
  := by
  induction first generalizing s with
  | nil => exact hs
  | cons st first ih =>
      apply ih
      exact Visit.sound_next hs

/-- A statement with its verdict. -/
def Visit.judged (names : List Text) (v : Visit) : Statement × Verdict :=
  (v.statement, v.verdict names)

/-- What is done with the first statements depends on what there is of those behind them but for
blanks. -/
theorem visitsTo_congr {rest' : List Statement} (hcores : cores rest' = cores rest)
    (h : InOrder (first ++ rest)) (h' : InOrder (first ++ rest')) :
  (visitsTo names s first rest').map (Visit.judged names)
      = (visitsTo names s first rest).map (Visit.judged names)
    ∧ stateBehind names s first rest' = stateBehind names s first rest
  := by
  induction first generalizing s with
  | nil => exact ⟨rfl, rfl⟩
  | cons st first ih =>
      have hrest : InOrder (first ++ rest) := (List.pairwise_cons.mp h).2
      have hrest' : InOrder (first ++ rest') := (List.pairwise_cons.mp h').2
      have hstep : s.step names st (first ++ rest') = s.step names st (first ++ rest) := by
        apply step_congr rfl rfl _ hrest hrest'
        rw [cores_append, cores_append, hcores]
      have hnext : (⟨s, st, first ++ rest'⟩ : Visit).next names
          = (⟨s, st, first ++ rest⟩ : Visit).next names := congrArg Prod.snd hstep
      obtain ⟨hjudged, hbehind⟩ := @ih ((⟨s, st, first ++ rest⟩ : Visit).next names) hrest hrest'
      rw [visitsTo, visitsTo, stateBehind, stateBehind, hnext, List.map_cons, List.map_cons,
        hjudged]
      exact ⟨congrArg (fun step => (st, step.1) :: _) hstep, hbehind⟩

end

/-! ### Rows -/

/-- The visits to the statements of each line. -/
def rowsOf (vs : List Visit) : List (List Visit) :=
  vs.splitBy fun v w => v.statement.line == w.statement.line

/-- What is kept of a row. -/
def keptText (names : List Text) (row : List Visit) : Text := keptOf (row.map (Visit.judged names))

/-- Whether something is left of a row, or nothing is cut from it. -/
def stays (names : List Text) (row : List Visit) : Bool := !goes (row.map (Visit.judged names))

/-- Whether behind a row no block is being removed. -/
def EndsOutside (names : List Text) (row : List Visit) : Prop :=
  ∀ v ∈ row.getLast?, (v.next names).phase = .copying

instance (names : List Text) : DecidablePred (EndsOutside names) := fun row =>
  inferInstanceAs (Decidable (∀ v ∈ row.getLast?, (v.next names).phase = .copying))

theorem endsOutside_concat {names : List Text} {row : List Visit} {v : Visit} :
  EndsOutside names (row ++ [v]) ↔ (v.next names).phase = .copying
  := by
  rw [EndsOutside, List.getLast?_concat]
  constructor
  · exact fun h => h v rfl
  · rintro h w ⟨⟩
    exact h

theorem endsOutside_visitsTo {names : List Text} {s : State} {row rest : List Statement}
    (hne : row ≠ []) :
  EndsOutside names (visitsTo names s row rest)
    ↔ (stateBehind names s row rest).phase = .copying
  := by
  obtain ⟨before, st, rfl⟩ := List.eq_nil_or_concat row |>.resolve_left hne
  rw [List.concat_eq_append, visitsTo_concat, stateBehind_concat, endsOutside_concat]

/-- The visits to the statements of a line stand together, before those of the lines behind it. -/
theorem rowsOf_visits (names : List Text) (s : State) {row rest : List Statement} {line : Nat}
    (hne : row ≠ []) (hrow : ∀ st ∈ row, st.line = line) (hrest : ∀ st ∈ rest, line < st.line) :
  rowsOf (visits names s (row ++ rest))
    = visitsTo names s row rest :: rowsOf (visits names (stateBehind names s row rest) rest)
  := by
  have hfirst : ∀ v ∈ visitsTo names s row rest, v.statement.line = line := by
    intro v hv
    apply hrow
    rw [← map_statement_visitsTo names s row rest]
    exact List.mem_map_of_mem hv
  have hvisits : visitsTo names s row rest ≠ [] := by
    intro hnil
    apply hne
    rw [← map_statement_visitsTo names s row rest, hnil]
    rfl
  rw [visits_append, rowsOf, List.splitBy_append, List.splitBy_of_isChain hvisits]
  · rfl
  · apply List.Pairwise.isChain
    apply List.pairwise_of_forall_mem_list
    intro v hv w hw
    rw [hfirst v hv, hfirst w hw]
    exact beq_self_eq_true line
  · intro v hv w hw
    have hlt := hrest _ (statement_mem_of_mem_visits (List.mem_of_mem_head? hw))
    rw [hfirst v (List.mem_of_mem_getLast? hv)]
    exact beq_eq_false_iff_ne.mpr (Nat.ne_of_lt hlt)

/-- The lines of judged statements are the rows of visits. -/
theorem byLine_judge (names : List Text) (s : State) (statements : List Statement) :
  byLine (judge names s statements).1
    = (rowsOf (visits names s statements)).map (List.map (Visit.judged names))
  := by
  have hjudge : (judge names s statements).1
      = (visits names s statements).map (Visit.judged names) := judge_eq_visits names s statements
  obtain ⟨hflatten, hne, hrows, hbetween⟩ := List.splitBy_eq_iff.mp
    (rfl : rowsOf (visits names s statements) = rowsOf (visits names s statements))
  rw [hjudge, byLine, List.splitBy_eq_iff]
  refine ⟨?_, ?_, ?_, ?_⟩
  · rw [← List.map_flatten, ← hflatten]
  · rw [List.mem_map]
    rintro ⟨row, hrow, hnil⟩
    rw [List.map_eq_nil_iff.mp hnil] at hrow
    exact hne hrow
  · intro line hline
    obtain ⟨row, hrow, rfl⟩ := List.mem_map.mp hline
    exact (List.isChain_map _).mpr (hrows row hrow)
  · rw [List.isChain_map]
    apply hbetween.imp
    rintro row row' ⟨hrow, hrow', hline⟩
    refine ⟨by simpa using hrow, by simpa using hrow', ?_⟩
    rw [List.getLast_map, List.head_map]
    exact hline

/-! ### The rows that are left -/

/-- The entries behind a run of `run` whose texts are blank, with no run of more than `limit`. -/
def collapseOn {α : Type} (f : α → Text) (limit : Nat) : Nat → List α → List α
  | _, [] => []
  | run, a :: rest =>
    if blank (f a) then
      if run < limit then a :: collapseOn f limit (run + 1) rest
      else collapseOn f limit (run + 1) rest
    else a :: collapseOn f limit 0 rest

theorem collapseOn_sublist {α : Type} (f : α → Text) (limit run : Nat) (entries : List α) :
  (collapseOn f limit run entries).Sublist entries
  := by
  induction entries generalizing run with
  | nil => exact List.Sublist.refl []
  | cons a rest ih =>
      rw [collapseOn]
      split
      · split
        · exact (ih _).cons_cons a
        · exact (ih _).cons a
      · exact (ih _).cons_cons a

/-- Lines are collapsed as the entries that they are made of, if they are blank where those are. -/
theorem collapseAfter_map {α : Type} {f g : α → Text} (h : ∀ a, blank (g a) = blank (f a))
    (limit run : Nat) (entries : List α) :
  collapseAfter limit run (entries.map g) = (collapseOn f limit run entries).map g
  := by
  induction entries generalizing run with
  | nil => rfl
  | cons a rest ih =>
      rw [List.map_cons, collapseAfter, collapseOn, h a]
      split
      · split
        · rw [List.map_cons, ih]
        · exact ih _
      · rw [List.map_cons, ih]

/-- The rows of which something is left in the new text. -/
def leftRows (names : List Text) (t : Text) : List (List Visit) :=
  collapseOn (keptText names) maxBlankRun 0 ((rowsOf (course names t)).filter (stays names))

theorem leftRows_sublist (names : List Text) (t : Text) :
  (leftRows names t).Sublist (rowsOf (course names t))
  := (collapseOn_sublist _ _ _ _).trans List.filter_sublist

/-- The lines that are left of judged statements are what is kept of rows. -/
theorem leftLines_judge (names : List Text) (s : State) (statements : List Statement) :
  leftLines (judge names s statements).1 = collapseBlanks maxBlankRun
    (((rowsOf (visits names s statements)).filter (stays names)).map (keptText names))
  := by
  rw [leftLines, byLine_judge, List.filter_map, List.map_map]
  rfl

end StylePrune.Prune
