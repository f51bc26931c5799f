import StylePrune.Proofs.Prune.Glue

/-!
# Reading what a removal has left

The new text of a removal is read afresh by whoever looks for the class names it defines.  That
reader sees the statements that were kept and no others, so a name that a statement handed on to
the next may now reach another one.  Where no name is handed on over a removed block, the new text
defines what the kept statements defined.
-/

namespace StylePrune.Prune

open Text Stylesheet

/-- Whether the first of the visited statements that is more than blanks is cut. -/
def CutNext (names : List Text) (vs : List Visit) : Prop :=
  ∃ w ∈ vs.find? Visit.Solid, ¬ w.Kept names

instance (names : List Text) (vs : List Visit) : Decidable (CutNext names vs) :=
  inferInstanceAs (Decidable (∃ w ∈ vs.find? Visit.Solid, ¬ w.Kept names))

namespace Visit

/-- What the scanner makes of the visited statement if only kept statements follow. -/
def rereading (names : List Text) (v : Visit) : Option Reading :=
  v.state.scanner.read v.statement.clean (keptCleans names (v.behind names))

/-- Whether the visited statement hands no name on over a removed block. -/
def Detached (names : List Text) (v : Visit) : Prop :=
  CutNext names (v.behind names) → (v.rereading names).bind Reading.carry = none

instance (names : List Text) : DecidablePred (Detached names) := fun v =>
  inferInstanceAs (Decidable (CutNext names (v.behind names) →
    (v.rereading names).bind Reading.carry = none))

/-- What the visited statement defines, as the removal has read it. -/
def definitions (v : Visit) : List (Text × Context) :=
  (v.reading.map Reading.definitions).getD []

/-- Only what a statement hands on can come out otherwise when it is read again. -/
theorem map_bare_rereading (names : List Text) (v : Visit) :
  (v.rereading names).map Reading.bare = v.reading.map Reading.bare
  := by
  apply Scanner.map_bare_read

theorem exists_rereading (names : List Text) {v : Visit} (h : v.Solid) :
  ∃ r, v.rereading names = some r
  := by
  apply Option.ne_none_iff_exists'.mp
  exact mt Scanner.read_eq_none_iff.mp h

theorem definitions_of_rereading {names : List Text} {v : Visit} {r : Reading}
    (h : v.rereading names = some r) :
  v.definitions = r.definitions
  := by
  have hbare := map_bare_rereading names v
  rw [h] at hbare
  obtain ⟨r', hr', hrr'⟩ := Option.map_eq_some_iff.mp hbare.symm
  rw [definitions, hr']
  calc r'.definitions
    _ = r'.bare.definitions := rfl
    _ = r.definitions := by rw [hrr']; rfl

theorem definitions_of_blank {v : Visit} (h : ¬ v.Solid) :
  v.definitions = []
  := by
  rw [definitions, reading, Scanner.read_eq_none_iff.mpr (not_not.mp h)]
  rfl

end Visit

/-- A statement that is cut or blank adds nothing to what is kept. -/
theorem solids_keptCleans_cons_of_passed {names : List Text} {v : Visit}
    (h : ¬ (v.Kept names ∧ v.Solid)) (vs : List Visit) :
  solids (keptCleans names (v :: vs)) = solids (keptCleans names vs)
  := by
  by_cases hk : v.Kept names
  · have hblank : trim v.statement.clean = [] := not_not.mp fun hsolid => h ⟨hk, hsolid⟩
    rw [keptCleans_cons_of_kept hk, solids_cons_of_blank hblank]
  · rw [keptCleans_cons_of_not_kept hk]

theorem cutNext_cons_of_blank {names : List Text} {v : Visit} (h : ¬ v.Solid) (vs : List Visit) :
  CutNext names (v :: vs) ↔ CutNext names vs
  := by
  rw [CutNext, List.find?_cons_of_neg (by simpa using h)]
  rfl

theorem cutNext_cons_of_solid {names : List Text} {v : Visit} (h : v.Solid) (vs : List Visit) :
  CutNext names (v :: vs) ↔ ¬ v.Kept names
  := by
  rw [CutNext, List.find?_cons_of_pos (by simpa using h)]
  simp

/-- Unless the next statement is cut, looking ahead over the kept statements is looking ahead over
all of them. -/
theorem continues_keptCleans {names : List Text} {s : State} {statements : List Statement}
    (h : ¬ CutNext names (visits names s statements)) :
  continues (keptCleans names (visits names s statements))
    = continues (statements.map Statement.clean)
  := by
  induction statements generalizing s with
  | nil => rfl
  | cons st rest ih =>
      rw [visits] at h ⊢
      rw [continues_eq, continues_eq, List.map_cons]
      by_cases hsolid : (⟨s, st, rest⟩ : Visit).Solid
      · rw [cutNext_cons_of_solid hsolid, not_not] at h
        rw [keptCleans_cons_of_kept h, solids_cons_of_ne hsolid, solids_cons_of_ne hsolid]
        rfl
      · rw [cutNext_cons_of_blank hsolid] at h
        have hblank : trim st.clean = [] := not_not.mp hsolid
        rw [solids_keptCleans_cons_of_passed fun hks => hsolid hks.2, solids_cons_of_blank hblank,
          ← continues_eq, ← continues_eq, ih h]

/-- Unless the next statement is cut, a statement is read again as it was read. -/
theorem Visit.rereading_eq {names : List Text} {v : Visit} (h : ¬ CutNext names (v.behind names)) :
  v.rereading names = v.reading
  := by
  apply Scanner.read_congr
  apply continues_keptCleans h

/-! ### The two scanners -/

/-- A scanner that has read the statements kept so far agrees with the state of the removal: it has
the same blocks open, and the same name handed on unless the statement that would take it up is
cut. -/
structure Agrees (names : List Text) (scanner : Scanner) (s : State) (statements : List Statement) :
    Prop where
  blocks : scanner.blocks = s.scanner.blocks
  dropped : CutNext names (visits names s statements) → scanner.pending = none
  pending : ¬ CutNext names (visits names s statements) → scanner.pending = s.scanner.pending
  inside : s.phase ≠ .copying → s.scanner.pending = none

namespace Agrees

variable {names : List Text} {scanner : Scanner} {v : Visit}

theorem start (names : List Text) (statements : List Statement) :
  Agrees names {} {} statements
  := by
  constructor
  · rfl
  · intro _
    rfl
  · intro _
    rfl
  · intro h
    exact absurd rfl h

/-- Where nothing is handed on, agreement is agreement about the open blocks. -/
theorem of_pending_eq_none {s : State} {statements : List Statement}
    (hblocks : scanner.blocks = s.scanner.blocks) (hscanner : scanner.pending = none)
    (hs : s.scanner.pending = none) :
  Agrees names scanner s statements
  := by
  constructor
  · exact hblocks
  · intro _
    exact hscanner
  · intro _
    rw [hscanner, hs]
  · intro _
    exact hs

/-- Past a statement that is cut the two agree as before. -/
theorem of_cut (h : Agrees names scanner v.state (v.statement :: v.following))
    (hcut : ¬ v.Kept names) :
  Agrees names scanner (v.next names) v.following
  := by
  rcases v.kept_or_starts_or_skipped names with hk | hs | hp
  · exact absurd hk hcut
  · obtain ⟨found, phase, -, hnext⟩ := Visit.next_of_starts hs
    have hscanner : scanner.pending = none := by
      apply h.dropped
      rw [visits, cutNext_cons_of_solid (Visit.solid_of_starts hs)]
      exact hcut
    rw [hnext]
    refine of_pending_eq_none ?_ hscanner rfl
    exact h.blocks
  · obtain ⟨-, phase, hnext⟩ := Visit.skipped names hp
    have hs : v.state.scanner.pending = none := h.inside hp
    have hscanner : scanner.pending = none := by
      by_cases hc : CutNext names (visits names v.state (v.statement :: v.following))
      · apply h.dropped hc
      · rw [h.pending hc, hs]
    rw [hnext]
    refine of_pending_eq_none ?_ hscanner hs
    exact h.blocks

/-- Past a blank statement that is kept the two agree as before. -/
theorem of_blank (h : Agrees names scanner v.state (v.statement :: v.following))
    (hk : v.Kept names) (hblank : ¬ v.Solid) :
  Agrees names scanner (v.next names) v.following
  := by
  have hnext : (v.next names).scanner = v.state.scanner := by
    rw [Visit.next_of_kept hk, State.keep, Visit.reading,
      Scanner.read_eq_none_iff.mpr (not_not.mp hblank)]
    rfl
  have hcutNext : CutNext names (visits names v.state (v.statement :: v.following))
      ↔ CutNext names (v.behind names) := cutNext_cons_of_blank hblank _
  constructor
  · rw [hnext, h.blocks]
  · intro hc
    apply h.dropped (hcutNext.mpr hc)
  · intro hc
    rw [hnext]
    apply h.pending (mt hcutNext.mp hc)
  · rw [Visit.next_of_kept hk]
    intro hp
    exact absurd (Visit.kept_iff.mp hk).1 hp

/-- Past a statement that is cut or blank the two agree as before. -/
theorem of_passed (h : Agrees names scanner v.state (v.statement :: v.following))
    (hpassed : ¬ (v.Kept names ∧ v.Solid)) :
  Agrees names scanner (v.next names) v.following
  := by
  by_cases hk : v.Kept names
  · apply h.of_blank hk
    intro hsolid
    exact hpassed ⟨hk, hsolid⟩
  · apply h.of_cut hk

/-- At a statement that is kept the two scanners are the same. -/
theorem scanner_eq (h : Agrees names scanner v.state (v.statement :: v.following))
    (hsolid : v.Solid) (hk : v.Kept names) :
  scanner = v.state.scanner
  := by
  have hpending : scanner.pending = v.state.scanner.pending := by
    apply h.pending
    rw [visits, cutNext_cons_of_solid hsolid, not_not]
    exact hk
  calc scanner
    _ = ⟨scanner.blocks, scanner.pending⟩ := rfl
    _ = v.state.scanner := by rw [h.blocks, hpending]

/-- Past a statement that is kept the two agree, if it hands nothing on over a removed block. -/
theorem of_kept (h : Agrees names scanner v.state (v.statement :: v.following))
    (hsolid : v.Solid) (hk : v.Kept names) (hd : v.Detached names) :
  Agrees names (scanner.advance (v.rereading names)) (v.next names) v.following
  := by
  obtain rfl := h.scanner_eq hsolid hk
  have hbare := Visit.map_bare_rereading names v
  have hne : v.reading ≠ none := mt Scanner.read_eq_none_iff.mp hsolid
  obtain ⟨r, hr⟩ := Option.ne_none_iff_exists'.mp hne
  have hnext : (v.next names).scanner = v.state.scanner.advance (some r) := by
    rw [Visit.next_of_kept hk, State.keep, hr]
  rw [hr] at hbare
  obtain ⟨r', hr', hrr'⟩ := Option.map_eq_some_iff.mp hbare
  constructor
  · rw [hnext, hr']
    calc v.state.scanner.blocks.feed r'.opener r'.text
      _ = v.state.scanner.blocks.feed r'.bare.opener r'.bare.text := rfl
      _ = v.state.scanner.blocks.feed r.opener r.text := by rw [hrr']; rfl
  · intro hcut
    have := hd hcut
    rw [hr'] at this ⊢
    exact this
  · intro hcut
    rw [hnext, Visit.rereading_eq hcut, hr]
  · intro hp
    rw [Visit.next_of_kept hk] at hp
    exact absurd (Visit.kept_iff.mp hk).1 hp

end Agrees

theorem flatMap_definitions_cons_of_passed {names : List Text} {v : Visit}
    (h : ¬ (v.Kept names ∧ v.Solid)) (vs : List Visit) :
  ((v :: vs).filter (Visit.Kept names)).flatMap Visit.definitions
    = (vs.filter (Visit.Kept names)).flatMap Visit.definitions
  := by
  by_cases hk : v.Kept names
  · rw [List.filter_cons_of_pos (by simpa using hk), List.flatMap_cons,
      Visit.definitions_of_blank fun hsolid => h ⟨hk, hsolid⟩, List.nil_append]
  · rw [List.filter_cons_of_neg (by simpa using hk)]

/-- What a scanner finds in the kept statements is what the removal has found in them. -/
theorem finds_keptCleans {names : List Text} {scanner : Scanner} {s : State}
    {statements : List Statement} (h : Agrees names scanner s statements)
    (hd : ∀ v ∈ visits names s statements, v.Kept names → v.Detached names) :
  scanner.finds (keptCleans names (visits names s statements))
    = ((visits names s statements).filter (Visit.Kept names)).flatMap Visit.definitions
  := by
  induction statements generalizing s scanner with
  | nil => rfl
  | cons st rest ih =>
      rw [visits] at hd ⊢
      obtain ⟨hd, hbehind⟩ := List.forall_mem_cons.mp hd
      by_cases hks : (⟨s, st, rest⟩ : Visit).Kept names ∧ (⟨s, st, rest⟩ : Visit).Solid
      · obtain ⟨hk, hsolid⟩ := hks
        obtain ⟨r, hr⟩ := Visit.exists_rereading names hsolid
        have hread : scanner.read st.clean
            (keptCleans names (visits names (s.step names st rest).2 rest)) = some r := by
          rw [h.scanner_eq hsolid hk]
          exact hr
        have hnext := h.of_kept hsolid hk (hd hk)
        rw [hr] at hnext
        rw [keptCleans_cons_of_kept hk, List.filter_cons_of_pos (by simpa using hk),
          List.flatMap_cons, Scanner.finds_cons_of_some hread, Visit.definitions_of_rereading hr]
        exact congrArg _ (ih hnext hbehind)
      · rw [Scanner.finds_congr (solids_keptCleans_cons_of_passed hks _),
          flatMap_definitions_cons_of_passed hks]
        exact ih (h.of_passed hks) hbehind

/-! ### What the new text defines -/

/-- Whether the new text, cleaned, falls into the statements that were kept. -/
def Rereads (names : List Text) (t : Text) : Prop :=
  solids (statementsOf (strip (remove t names).text)) = solids (keptCleans names (course names t))

instance (names : List Text) (t : Text) : Decidable (Rereads names t) :=
  inferInstanceAs (Decidable (_ = _))

/-- If the kept statements stand apart, the new text falls into them for whoever reads it. -/
theorem rereads_of_apart {names : List Text} {t : Text} {statements : List Statement}
    (hsplit : Statement.split t = .ok statements)
    (h : ∀ v ∈ keptVisits names t, Apart v.statement) :
  Rereads names t
  := by
  obtain ⟨ls, htext, hlines, hsolids⟩ := madeOf_remove hsplit h
  rw [Rereads, htext, solids_statementsOf_ofLines hlines, ← hsolids]
  rfl

/-- All that the new text defines is what the removal has found in the statements it kept. -/
theorem definedIn_remove {names : List Text} {t : Text} (hreread : Rereads names t)
    (hdetached : ∀ v ∈ keptVisits names t, v.Detached names) :
  definedIn (remove t names).text = (keptVisits names t).flatMap Visit.definitions
  := by
  calc definedIn (remove t names).text
    _ = ({} : Scanner).finds (keptCleans names (course names t)) := by
        rw [definedIn_eq_finds, Scanner.finds_congr hreread]
    _ = (keptVisits names t).flatMap Visit.definitions := by
        rw [keptVisits]
        simp only [keptVisits, List.mem_filter, decide_eq_true_eq, and_imp] at hdetached
        rw [course] at hdetached ⊢
        cases hsplit : Statement.split t with
        | error anomaly => rfl
        | ok statements =>
            simp only [hsplit] at hdetached
            exact finds_keptCleans (Agrees.start names statements) hdetached

end StylePrune.Prune
