import StylePrune.Proofs.Prune.Course
import StylePrune.Proofs.Stylesheet.Statements

/-!
# Fragments in front of removed blocks

A selector may go on over several lines, and a removal that takes only its last line leaves a
fragment behind, which then belongs to whatever follows.  The one sort of fragment a removal looks
for is a list of members that ends with a comma.  Any other fragment it leaves is one that the
stylesheet has in front of a removed block, and `fragment_left_iff` says that those are left and no
others.
-/

namespace StylePrune.Prune

open Text Stylesheet

/-! ### Removed blocks end with a closing brace -/

/-- A block that is being removed and has opened is open. -/
def Phase.Sound (phase : Phase) : Prop := ∀ start depth, phase = .inside start depth → depth ≠ 0

theorem Phase.ofDepth_eq_copying_iff {start depth : Nat} :
  Phase.ofDepth start depth = .copying ↔ depth = 0
  := by
  rw [Phase.ofDepth]
  split
  · next h => simp [h]
  · next h => simp [h]

theorem Phase.sound_ofDepth (start depth : Nat) :
  (Phase.ofDepth start depth).Sound
  := by
  intro start' depth' h
  by_cases hd : depth = 0
  · simp [Phase.ofDepth, hd] at h
  · simp only [Phase.ofDepth, if_neg hd, Phase.inside.injEq] at h
    rw [← h.2]
    exact hd

namespace Visit

variable {names : List Text} {v : Visit}

/-- A statement that brings its brace leaves a block open, since it brings no second one. -/
theorem depth_ne_zero (hs : Single v.statement.clean) (ho : opens v.text ≠ 0) :
  opens v.text - closes v.text ≠ 0
  := by
  have hopen : opens v.text ≤ v.statement.clean.count '\x7b' := (trim_sublist _).count_le _
  have hclose : closes v.text ≤ v.statement.clean.count '\x7d' := (trim_sublist _).count_le _
  have := hs.count_le_one
  omega

/-- The first statement of a removed block leaves the block open. -/
theorem phase_ne_copying_of_starts (hs : Single v.statement.clean) (h : v.Starts names) :
  (v.next names).phase ≠ .copying
  := by
  obtain ⟨found, phase, hb, hnext⟩ := next_of_starts h
  rw [hnext]
  obtain ⟨-, -, -, ⟨ho, -, rfl⟩ | ⟨-, -, rfl⟩⟩ := begins?_eq_some_iff.mp hb
  · intro hc
    apply depth_ne_zero hs ho
    apply Phase.ofDepth_eq_copying_iff.mp hc
  · rintro ⟨⟩

/-- Behind the statement that closes a removed block the removal is over, and the statement ends
with the closing brace. -/
theorem terminated_of_closes (hs : Single v.statement.clean) (hv : v.state.phase.Sound)
    (hp : v.state.phase ≠ .copying) (hc : (v.next names).phase = .copying) :
  v.Solid ∧ Terminated v.text
  := by
  have hmem : '\x7d' ∈ v.text := by
    apply List.count_pos_iff.mp
    apply Nat.pos_of_ne_zero
    intro hzero
    have hcloses : closes (trim v.statement.clean) = 0 := hzero
    cases hphase : v.state.phase with
    | copying => exact hp hphase
    | awaiting start =>
        rw [next, step_of_awaiting hphase] at hc
        split at hc
        · exact hp hc
        · next ho => exact depth_ne_zero hs ho (Phase.ofDepth_eq_copying_iff.mp hc)
    | inside start depth =>
        rw [next, step_of_inside hphase] at hc
        have := Phase.ofDepth_eq_copying_iff.mp hc
        have := hv start depth hphase
        omega
  constructor
  · apply List.ne_nil_of_mem hmem
  · apply hs.terminated_trim (mem_of_mem_trim hmem)
    rfl

/-- Every step leaves a block that is being removed open. -/
theorem sound_next (hv : v.state.phase.Sound) :
  (v.next names).phase.Sound
  := by
  rcases v.kept_or_starts_or_skipped names with hk | hs | hp
  · rw [next_of_kept hk]
    apply hv
  · obtain ⟨found, phase, hb, hnext⟩ := next_of_starts hs
    rw [hnext]
    obtain ⟨-, -, -, ⟨-, -, rfl⟩ | ⟨-, -, rfl⟩⟩ := begins?_eq_some_iff.mp hb
    · apply Phase.sound_ofDepth
    · rintro start depth ⟨⟩
  · rw [next]
    cases hphase : v.state.phase with
    | copying => exact absurd hphase hp
    | awaiting start =>
        rw [step_of_awaiting hphase]
        split
        · apply hv
        · apply Phase.sound_ofDepth
    | inside start depth =>
        rw [step_of_inside hphase]
        apply Phase.sound_ofDepth

end Visit

/-- Where statements are copied, the last statement cut, if none has been kept since, is
terminated. -/
theorem terminated_of_cut {names : List Text} {statements : List Statement}
    (hsingle : ∀ st ∈ statements, Single st.clean) {before : List Visit} {v : Visit}
    {after : List Visit} (h : visits names {} statements = before ++ v :: after)
    (hp : v.state.phase = .copying) {u : Visit} (hu : u ∈ lastSolid before)
    (hcut : ¬ u.Kept names) :
  Terminated u.text
  := by
  have hrun := Visit.history (fun before s => s.phase.Sound ∧ (s.phase = .copying →
    ∀ u ∈ lastSolid before, ¬ u.Kept names → Terminated u.text)) ?_ ?_ h
  · exact hrun.2 hp u hu hcut
  · constructor
    · rintro start depth ⟨⟩
    · rintro - u ⟨⟩
  · rintro before w after hw ⟨hsound, ih⟩
    have hmem : w.statement ∈ statements :=
      statement_mem_of_mem_visits (hw ▸ List.mem_append_right _ List.mem_cons_self)
    use Visit.sound_next hsound
    intro hnext u hu hcut
    rw [lastSolid_concat] at hu
    rcases w.kept_or_starts_or_skipped names with hk | hs | hp
    · split at hu
      · obtain rfl := Option.mem_some_iff.mp hu
        exact absurd hk hcut
      · apply ih (Visit.kept_iff.mp hk).1 u hu hcut
    · exact absurd hnext (Visit.phase_ne_copying_of_starts (hsingle _ hmem) hs)
    · obtain ⟨hsolid, hterm⟩ := Visit.terminated_of_closes (hsingle _ hmem) hsound hp hnext
      rw [if_pos hsolid] at hu
      obtain rfl := Option.mem_some_iff.mp hu
      exact hterm

/-! ### What is left in front of removed blocks -/

/-- A statement that stands in front of a removed block, nothing but blank statements between. -/
def InFront (names : List Text) (vs : List Visit) (u : Visit) : Prop :=
  ∃ before v after, vs = before ++ v :: after ∧ v.Starts names ∧ u ∈ lastSolid before

/-- A statement that is left in front of a removed block: of the statements kept before the block,
the last that is more than blanks. -/
def LeftInFront (names : List Text) (vs : List Visit) (u : Visit) : Prop :=
  ∃ before v after, vs = before ++ v :: after ∧ v.Starts names
    ∧ u ∈ lastSolid (before.filter (Visit.Kept names))

/-- The last statement, if it is kept, is the last one kept. -/
theorem mem_lastSolid_filter {names : List Text} {vs : List Visit} {u : Visit}
    (hu : u ∈ lastSolid vs) (hk : u.Kept names) :
  u ∈ lastSolid (vs.filter (Visit.Kept names))
  := by
  obtain ⟨init, hinit⟩ := List.getLast?_eq_some_iff.mp hu
  rw [lastSolid, List.filter_comm, hinit, List.filter_append,
    List.filter_cons_of_pos (by simpa using hk), List.filter_nil]
  apply List.getLast?_concat

/-- Inside a removed block the last statement has been cut. -/
theorem not_kept_of_inside {names : List Text} {statements : List Statement}
    {before : List Visit} {v : Visit} {after : List Visit}
    (h : visits names {} statements = before ++ v :: after) (hp : v.state.phase ≠ .copying)
    {u : Visit} (hu : u ∈ lastSolid before) :
  ¬ u.Kept names
  := by
  refine Visit.history (fun before s => s.phase ≠ .copying →
    ∀ u ∈ lastSolid before, ¬ u.Kept names) ?_ ?_ h hp u hu
  · intro _ u hu
    cases hu
  · intro before w after _ ih hnext u hu
    rw [lastSolid_concat] at hu
    rcases w.kept_or_starts_or_skipped names with hk | hs | hp
    · rw [Visit.next_of_kept hk] at hnext
      exact absurd (Visit.kept_iff.mp hk).1 hnext
    · rw [if_pos (Visit.solid_of_starts hs)] at hu
      obtain rfl := Option.mem_some_iff.mp hu
      apply Visit.not_kept_of_starts hs
    · split at hu
      · obtain rfl := Option.mem_some_iff.mp hu
        apply Visit.not_kept_of_skipped hp
      · apply ih hp u hu

/-- The last statement kept is the last statement, or else stands in front of a removed block. -/
theorem mem_lastSolid_or_inFront {names : List Text} {statements : List Statement}
    {before : List Visit} {v : Visit} {after : List Visit}
    (h : visits names {} statements = before ++ v :: after) {u : Visit}
    (hu : u ∈ lastSolid (before.filter (Visit.Kept names))) :
  u ∈ lastSolid before ∨ InFront names (visits names {} statements) u
  := by
  refine Visit.history (fun before _ => ∀ u ∈ lastSolid (before.filter (Visit.Kept names)),
    u ∈ lastSolid before ∨ InFront names (visits names {} statements) u) ?_ ?_ h u hu
  · intro u hu
    cases hu
  · intro before w after hw ih u hu
    rw [lastSolid_concat]
    rw [List.filter_append] at hu
    rcases w.kept_or_starts_or_skipped names with hk | hs | hp
    · rw [List.filter_cons_of_pos (by simpa using hk), List.filter_nil, lastSolid_concat] at hu
      by_cases hsolid : w.Solid
      · rw [if_pos hsolid] at hu ⊢
        exact .inl hu
      · rw [if_neg hsolid] at hu ⊢
        apply ih u hu
    · rw [List.filter_cons_of_neg (by simpa using Visit.not_kept_of_starts hs), List.filter_nil,
        List.append_nil] at hu
      rcases ih u hu with hlast | hfront
      · exact .inr ⟨before, w, after, hw, hs, hlast⟩
      · exact .inr hfront
    · rw [List.filter_cons_of_neg (by simpa using Visit.not_kept_of_skipped hp), List.filter_nil,
        List.append_nil] at hu
      rcases ih u hu with hlast | hfront
      · have hkept : u.Kept names := by
          have := List.mem_of_getLast? hu
          simp only [List.mem_filter] at this
          simpa using this.1.2
        exact absurd hkept (not_kept_of_inside hw hp hlast)
      · exact .inr hfront

/-- What is left in front of a removed block does not end with a comma. -/
theorem LeftInFront.getLast?_ne_comma {names : List Text} {statements : List Statement} {u : Visit}
    (h : LeftInFront names (visits names {} statements) u) :
  u.text.getLast? ≠ some ','
  := by
  obtain ⟨before, v, after, h, hs, hu⟩ := h
  obtain ⟨found, phase, hb, -⟩ := Visit.next_of_starts hs
  obtain ⟨-, -, hcomma, -⟩ := begins?_eq_some_iff.mp hb
  rw [lastKept_eq h, Option.mem_def.mp hu] at hcomma
  exact hcomma

/-- A statement left in front of a removed block stands in front of one. -/
theorem LeftInFront.inFront {names : List Text} {statements : List Statement} {u : Visit}
    (h : LeftInFront names (visits names {} statements) u) :
  InFront names (visits names {} statements) u
  := by
  obtain ⟨before, v, after, h, hs, hu⟩ := h
  rcases mem_lastSolid_or_inFront h hu with hlast | hfront
  · exact ⟨before, v, after, h, hs, hlast⟩
  · exact hfront

/-- A fragment that stands in front of a removed block is left there. -/
theorem InFront.leftInFront {names : List Text} {statements : List Statement}
    (hsingle : ∀ st ∈ statements, Single st.clean) {u : Visit}
    (h : InFront names (visits names {} statements) u) (hfragment : ¬ Terminated u.text) :
  LeftInFront names (visits names {} statements) u
  := by
  obtain ⟨before, v, after, h, hs, hu⟩ := h
  use before, v, after, h, hs
  apply mem_lastSolid_filter hu
  apply Classical.byContradiction
  intro hcut
  apply hfragment
  apply terminated_of_cut hsingle h hs.1 hu hcut

theorem not_inFront_nil (names : List Text) (u : Visit) :
  ¬ InFront names [] u
  := by
  rintro ⟨before, v, after, h, -⟩
  simp at h

theorem not_leftInFront_nil (names : List Text) (u : Visit) :
  ¬ LeftInFront names [] u
  := by
  rintro ⟨before, v, after, h, -⟩
  simp at h

/-- The fragments left in front of removed blocks are those that stand there in the stylesheet, and
nothing that ends with a comma is left there. -/
theorem fragment_left_iff (names : List Text) (t : Text) (u : Visit) :
  (LeftInFront names (course names t) u ∧ ¬ Terminated u.text
      ↔ InFront names (course names t) u ∧ ¬ Terminated u.text)
    ∧ ¬ (LeftInFront names (course names t) u ∧ u.text.getLast? = some ',')
  := by
  rw [course]
  cases hsplit : Statement.split t with
  | error anomaly => simp [not_inFront_nil, not_leftInFront_nil]
  | ok statements =>
      constructor
      · constructor
        · rintro ⟨h, hfragment⟩
          exact ⟨h.inFront, hfragment⟩
        · rintro ⟨h, hfragment⟩
          use h.leftInFront (fun _ => Statement.single_of_mem_split hsplit) hfragment
      · rintro ⟨h, hcomma⟩
        apply h.getLast?_ne_comma hcomma

/-- A selector that ends with a combinator is left behind when the line that completes it goes. -/
theorem combinator_left_in_front :
  let t := ".x >\n.a \x7b \x7d\n.c \x7b \x7d".toList
  (∃ u, LeftInFront ["a".toList] (course ["a".toList] t) u ∧ ¬ Terminated u.text)
    ∧ (remove t ["a".toList]).text = ".x >\n.c \x7b \x7d".toList
  := by
  intro t
  constructor
  · use (course ["a".toList] t).get ⟨0, by decide +kernel⟩
    constructor
    · use (course ["a".toList] t).take 1, (course ["a".toList] t).get ⟨1, by decide +kernel⟩,
        (course ["a".toList] t).drop 2
      and_intros <;> decide +kernel
    · decide +kernel
  · decide +kernel

end StylePrune.Prune
