import StylePrune.Proofs.Prune.Course

/-!
# Removals that do nothing

A removal begins a block nowhere else than at a selector line all of whose members are to go.  It
leaves the text as it is exactly if it keeps every statement; otherwise the new text is put together
from the lines.
-/

namespace StylePrune.Prune

open Text Stylesheet

/-- A removal begins nowhere else than at a selector line all of whose members are to go. -/
theorem begins?_eq_none_iff {names : List Text} {s : State} {st : Statement}
    {following : List Statement} {reading : Option Reading} :
  s.begins? names st following reading = none
    ↔ (targets names reading ≠ [] → s.lastKept.getLast? ≠ some ',' →
      (opens (trim st.clean) ≠ 0 → opens (trim st.clean) < closes (trim st.clean))
        ∧ (opens (trim st.clean) = 0 → opensAhead (st.line + lookahead) following = false))
  := by
  constructor
  · intro h hne hcomma
    constructor
    · intro ho
      apply Nat.lt_of_not_le
      intro hle
      have hsome : s.begins? names st following reading = some (targets names reading, _) :=
        begins?_eq_some_iff.mpr ⟨rfl, hne, hcomma, .inl ⟨ho, hle, rfl⟩⟩
      rw [h] at hsome
      cases hsome
    · intro ho
      apply Bool.eq_false_iff.mpr
      intro ha
      have hsome : s.begins? names st following reading = some (targets names reading, _) :=
        begins?_eq_some_iff.mpr ⟨rfl, hne, hcomma, .inr ⟨ho, ha, rfl⟩⟩
      rw [h] at hsome
      cases hsome
  · intro h
    cases hb : s.begins? names st following reading with
    | none => rfl
    | some found =>
        obtain ⟨found, phase⟩ := found
        obtain ⟨rfl, hne, hcomma, hopen⟩ := begins?_eq_some_iff.mp hb
        obtain ⟨hline, hahead⟩ := h hne hcomma
        rcases hopen with ⟨ho, hle, -⟩ | ⟨ho, ha, -⟩
        · exact absurd (hline ho) (Nat.not_lt.mpr hle)
        · rw [hahead ho] at ha
          cases ha

theorem targets_nil (reading : Option Reading) :
  targets [] reading = []
  := by
  have hhits : ∀ m, hits [] m = [] := by
    intro m
    simp [hits]
  rw [targets]
  split
  · rfl
  · next members _ =>
    cases members with
    | nil => rfl
    | cons m ms => simp [hhits]

/-- Blocks that have been removed stay removed. -/
theorem blocks_le_next (names : List Text) (v : Visit) :
  v.state.blocks ≤ (v.next names).blocks
  := by
  rcases v.kept_or_starts_or_skipped names with hk | hs | hp
  · rw [Visit.next_of_kept hk]
    apply Nat.le_refl
  · obtain ⟨found, phase, -, hnext⟩ := Visit.next_of_starts hs
    rw [hnext]
    apply Nat.le_succ
  · obtain ⟨-, phase, hnext⟩ := Visit.skipped names hp
    rw [hnext]

theorem blocks_le_judge (names : List Text) (s : State) (statements : List Statement) :
  s.blocks ≤ (judge names s statements).2.blocks
  := by
  induction statements generalizing s with
  | nil => apply Nat.le_refl
  | cons st rest ih =>
      apply Nat.le_trans (blocks_le_next names ⟨s, st, rest⟩)
      apply ih

/-- Nothing is cut exactly where no block is removed. -/
theorem forall_kept_iff {names : List Text} {s : State} (hs : s.phase = .copying)
    (statements : List Statement) :
  (∀ v ∈ visits names s statements, v.Kept names)
    ↔ (judge names s statements).2.blocks = s.blocks
  := by
  induction statements generalizing s with
  | nil => simp [visits, judge]
  | cons st rest ih =>
      rw [visits, List.forall_mem_cons]
      have hjudge : (judge names s (st :: rest)).2
          = (judge names ((⟨s, st, rest⟩ : Visit).next names) rest).2 := rfl
      rw [hjudge]
      rcases (⟨s, st, rest⟩ : Visit).kept_or_starts_or_skipped names with hk | hstart | hp
      · have hnext := Visit.next_of_kept hk
        have hphase : ((⟨s, st, rest⟩ : Visit).next names).phase = .copying := by
          rw [hnext]
          exact hs
        have hblocks : ((⟨s, st, rest⟩ : Visit).next names).blocks = s.blocks := by
          rw [hnext]
          rfl
        rw [← hblocks, ← ih hphase]
        constructor
        · rintro ⟨-, h⟩
          exact h
        · intro h
          exact ⟨hk, h⟩
      · constructor
        · rintro ⟨hk, -⟩
          exact absurd hk (Visit.not_kept_of_starts hstart)
        · intro h
          -- a start counts a block, and blocks are never counted back
          obtain ⟨found, phase, -, hnext⟩ := Visit.next_of_starts hstart
          have hle := blocks_le_judge names ((⟨s, st, rest⟩ : Visit).next names) rest
          rw [h, hnext] at hle
          exact absurd hle (Nat.not_succ_le_self _)
      · exact absurd hs hp

/-- Without names to remove, every statement is kept. -/
theorem kept_of_names_eq_nil {s : State} (hs : s.phase = .copying) {statements : List Statement}
    {v : Visit} (h : v ∈ visits [] s statements) :
  v.Kept []
  := by
  induction statements generalizing s with
  | nil => cases h
  | cons st rest ih =>
      have hk : (⟨s, st, rest⟩ : Visit).Kept [] := by
        apply Visit.kept_iff.mpr
        use hs
        apply begins?_eq_none_iff.mpr
        intro hne
        exact absurd (targets_nil _) hne
      rcases List.mem_cons.mp h with rfl | h
      · exact hk
      · have hphase : ((⟨s, st, rest⟩ : Visit).next []).phase = .copying := by
          rw [Visit.next_of_kept hk]
          exact hs
        apply ih hphase h

/-- A removal that keeps every statement does nothing, and no other does nothing. -/
theorem remove_eq_self_iff (names : List Text) (t : Text) :
  ((remove t names).text = t ∧ (remove t names).removed = [] ∧ (remove t names).blocks = 0)
    ↔ ∀ v ∈ course names t, v.Kept names
  := by
  rw [course, remove]
  cases hsplit : Statement.split t with
  | error anomaly => by_cases hnames : names = [] <;> simp [hnames]
  | ok statements =>
      by_cases hnames : names = []
      · subst hnames
        have hkept : ∀ v ∈ visits [] {} statements, v.Kept [] := fun v => kept_of_names_eq_nil rfl
        simpa using hkept
      · rw [if_neg hnames, forall_kept_iff rfl]
        by_cases hblocks : (judge names {} statements).2.blocks = 0
        · simp [hblocks]
        · simp [hblocks]

/-- Where something is cut, the new text is what is left of the lines, and blocks are counted. -/
theorem remove_of_not_forall {names : List Text} {t : Text} {statements : List Statement}
    (hsplit : Statement.split t = .ok statements)
    (h : ¬ ∀ v ∈ visits names {} statements, v.Kept names) :
  (remove t names).text = rebuild (judge names {} statements).1
    ∧ (remove t names).removed = (judge names {} statements).2.removed
    ∧ (remove t names).blocks ≠ 0
  := by
  have hnames : names ≠ [] := by
    rintro rfl
    apply h
    intro v hv
    apply kept_of_names_eq_nil rfl hv
  have hblocks : (judge names {} statements).2.blocks ≠ 0 :=
    mt (forall_kept_iff rfl statements).mpr h
  rw [remove, if_neg hnames, hsplit]
  simp only [if_neg hblocks]
  exact ⟨trivial, trivial, hblocks⟩

end StylePrune.Prune
