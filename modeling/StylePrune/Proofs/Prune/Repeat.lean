import StylePrune.Proofs.Prune.Reread

/-!
# Removing twice

A second removal of the same class names reads the statements that the first one has kept.  It
comes to the same members for each of them, so it starts a block only where the first one would
have, had it seen the block open: the lines between a selector and its brace may have become fewer.
`remove_remove_iff` says that a second removal does nothing exactly where this does not happen.
-/

namespace StylePrune.Prune

open Text Stylesheet

/-! ### Statements of the new text -/

/-- The statements that are more than blanks, each with those that follow it. -/
def solidTails : List Statement → List (Statement × List Statement)
  | [] => []
  | st :: rest => if trim st.clean = [] then solidTails rest else (st, rest) :: solidTails rest

/-- Statements of which one is more than blanks are blank ones, that one, and the others. -/
theorem exists_of_solids_eq_cons {statements : List Statement} {text : Text} {texts : List Text}
    (h : solids (statements.map Statement.clean) = text :: texts) :
  ∃ blanks st rest, statements = blanks ++ st :: rest ∧ (∀ b ∈ blanks, trim b.clean = [])
    ∧ trim st.clean = text ∧ solids (rest.map Statement.clean) = texts
  := by
  induction statements with
  | nil => cases h
  | cons st rest ih =>
      rw [List.map_cons] at h
      by_cases hblank : trim st.clean = []
      · rw [solids_cons_of_blank hblank] at h
        obtain ⟨blanks, st', rest', rfl, hblanks, hst, hrest⟩ := ih h
        use st :: blanks, st', rest', rfl
        constructor
        · exact List.forall_mem_cons.mpr ⟨hblank, hblanks⟩
        · exact ⟨hst, hrest⟩
      · rw [solids_cons_of_ne hblank] at h
        obtain ⟨hst, hrest⟩ := List.cons.inj h
        use [], st, rest, rfl
        constructor
        · rintro b ⟨⟩
        · exact ⟨hst, hrest⟩

theorem solidTails_append_of_blank {blanks : List Statement}
    (h : ∀ b ∈ blanks, trim b.clean = []) (statements : List Statement) :
  solidTails (blanks ++ statements) = solidTails statements
  := by
  induction blanks with
  | nil => rfl
  | cons b blanks ih =>
      obtain ⟨hb, hblanks⟩ := List.forall_mem_cons.mp h
      rw [List.cons_append, solidTails, if_pos hb, ih hblanks]

namespace Visit

variable {names : List Text} {v : Visit}

/-- Where statements are copied, a blank one is kept and leaves the state as it is. -/
theorem kept_of_blank (names : List Text) {v : Visit} (hp : v.state.phase = .copying)
    (hblank : ¬ v.Solid) :
  v.Kept names ∧ v.next names = v.state
  := by
  have hreading : v.reading = none := Scanner.read_eq_none_iff.mpr (not_not.mp hblank)
  have hk : v.Kept names := by
    apply kept_iff.mpr
    use hp
    apply begins?_eq_none_iff.mpr
    intro hne
    rw [hreading] at hne
    exact absurd rfl hne
  use hk
  rw [next_of_kept hk, hreading, not_not.mp hblank]
  rfl

end Visit

/-- Blank statements are kept and change nothing for the others. -/
theorem forall_kept_append_of_blank {names : List Text} {s : State} (hs : s.phase = .copying)
    {blanks : List Statement} (h : ∀ b ∈ blanks, trim b.clean = [])
    (statements : List Statement) :
  (∀ v ∈ visits names s (blanks ++ statements), v.Kept names)
    ↔ ∀ v ∈ visits names s statements, v.Kept names
  := by
  induction blanks with
  | nil => rfl
  | cons b blanks ih =>
      obtain ⟨hb, hblanks⟩ := List.forall_mem_cons.mp h
      obtain ⟨hk, hnext⟩ := Visit.kept_of_blank names (v := ⟨s, b, blanks ++ statements⟩) hs
        (not_not.mpr hb)
      have hvisits : visits names s (b :: (blanks ++ statements))
          = ⟨s, b, blanks ++ statements⟩ :: visits names s (blanks ++ statements) := by
        rw [visits]
        exact congrArg (fun s => _ :: visits names s (blanks ++ statements)) hnext
      rw [List.cons_append, hvisits, List.forall_mem_cons, ih hblanks]
      constructor
      · rintro ⟨-, h⟩
        exact h
      · intro h
        exact ⟨hk, h⟩

/-! ### The second removal -/

namespace Visit

/-- Whether a removal would start at the visited statement if its block were seen to open on one of
the next lines. -/
def Due (names : List Text) (v : Visit) : Prop :=
  targets names v.reading ≠ [] ∧ v.state.lastKept.getLast? ≠ some ',' ∧ opens v.text = 0

instance (names : List Text) : DecidablePred (Due names) := fun v =>
  inferInstanceAs (Decidable (targets names v.reading ≠ [] ∧ v.state.lastKept.getLast? ≠ some ','
    ∧ opens v.text = 0))

end Visit

theorem targets_congr {names : List Text} {first second : Option Reading}
    (h : first.map Reading.bare = second.map Reading.bare) :
  targets names first = targets names second
  := by
  have hbare : ∀ r : Option Reading, r.bind Reading.members
      = (r.map Reading.bare).bind Reading.members := by
    intro r
    cases r <;> rfl
  rw [targets, targets, hbare first, hbare second, h]

/-- A statement that one removal has kept is kept by the next one too, unless it is due and its
block has come within sight. -/
theorem kept_again_iff {names : List Text} {v w : Visit} (hk : v.Kept names)
    (hphase : w.state.phase = .copying) (htext : w.text = v.text)
    (hlast : w.state.lastKept = v.state.lastKept) (hreading : w.reading = v.rereading names) :
  w.Kept names
    ↔ (v.Due names → opensAhead (w.statement.line + lookahead) w.following = false)
  := by
  have htargets : targets names w.reading = targets names v.reading := by
    apply targets_congr
    rw [hreading, Visit.map_bare_rereading]
  have hv := begins?_eq_none_iff.mp (Visit.kept_iff.mp hk).2
  rw [Visit.kept_iff, begins?_eq_none_iff, htargets, hlast]
  change w.state.phase = .copying ∧ (_ → _ → (opens w.text ≠ 0 → opens w.text < closes w.text)
    ∧ (opens w.text = 0 → _)) ↔ _
  rw [htext]
  constructor
  · rintro ⟨-, h⟩ ⟨hne, hcomma, ho⟩
    apply (h hne hcomma).2 ho
  · intro h
    use hphase
    intro hne hcomma
    constructor
    · apply (hv hne hcomma).1
    · intro ho
      apply h ⟨hne, hcomma, ho⟩

/-- Whether no block of a due one of the kept statements is within sight of the place where the new
text has the statement. -/
def OutOfSight (names : List Text) (kept : List Visit) (statements : List Statement) : Prop :=
  ∀ p ∈ (kept.filter Visit.Solid).zip (solidTails statements),
    p.1.Due names → opensAhead (p.2.1.line + lookahead) p.2.2 = false

instance (names : List Text) (kept : List Visit) (statements : List Statement) :
    Decidable (OutOfSight names kept statements) :=
  inferInstanceAs (Decidable (∀ p ∈ (kept.filter Visit.Solid).zip (solidTails statements),
    p.1.Due names → opensAhead (p.2.1.line + lookahead) p.2.2 = false))

theorem outOfSight_cons_of_passed {names : List Text} {v : Visit}
    (h : ¬ (v.Kept names ∧ v.Solid)) (vs : List Visit) (statements : List Statement) :
  OutOfSight names ((v :: vs).filter (Visit.Kept names)) statements
    ↔ OutOfSight names (vs.filter (Visit.Kept names)) statements
  := by
  by_cases hk : v.Kept names
  · have hblank : ¬ v.Solid := fun hsolid => h ⟨hk, hsolid⟩
    rw [List.filter_cons_of_pos (by simpa using hk), OutOfSight,
      List.filter_cons_of_neg (by simpa using hblank)]
    rfl
  · rw [List.filter_cons_of_neg (by simpa using hk)]

theorem outOfSight_cons_of_solid {names : List Text} {v : Visit} (hk : v.Kept names)
    (hsolid : v.Solid) (vs : List Visit) {st : Statement} (hst : trim st.clean ≠ [])
    (rest : List Statement) :
  OutOfSight names ((v :: vs).filter (Visit.Kept names)) (st :: rest)
    ↔ (v.Due names → opensAhead (st.line + lookahead) rest = false)
      ∧ OutOfSight names (vs.filter (Visit.Kept names)) rest
  := by
  rw [List.filter_cons_of_pos (by simpa using hk), OutOfSight,
    List.filter_cons_of_pos (by simpa using hsolid), solidTails, if_neg hst, List.zip_cons_cons,
    List.forall_mem_cons]
  rfl

theorem outOfSight_append_of_blank {names : List Text} {kept : List Visit} {blanks : List Statement}
    (h : ∀ b ∈ blanks, trim b.clean = []) (statements : List Statement) :
  OutOfSight names kept (blanks ++ statements) ↔ OutOfSight names kept statements
  := by
  rw [OutOfSight, solidTails_append_of_blank h]
  rfl

/-- The state of a second removal that has kept all the statements so far, beside the state of the
first one. -/
structure Repeats (names : List Text) (s' s : State) (statements : List Statement) : Prop where
  phase : s'.phase = .copying
  agrees : Agrees names s'.scanner s statements
  lastKept : s'.lastKept = s.lastKept

namespace Repeats

variable {names : List Text} {s' : State} {v w : Visit}

theorem start (names : List Text) (statements : List Statement) :
  Repeats names {} {} statements
  := by
  constructor
  · rfl
  · apply Agrees.start
  · rfl

/-- What the first removal has cut, and what is blank, changes nothing for the second one. -/
theorem of_passed (h : Repeats names s' v.state (v.statement :: v.following))
    (hpassed : ¬ (v.Kept names ∧ v.Solid)) :
  Repeats names s' (v.next names) v.following
  := by
  constructor
  · exact h.phase
  · apply h.agrees.of_passed hpassed
  · rw [Visit.lastKept_next, if_neg hpassed, h.lastKept]

/-- Past a statement that both keep the two removals are beside one another again. -/
theorem of_kept (h : Repeats names w.state v.state (v.statement :: v.following))
    (hk : v.Kept names) (hsolid : v.Solid) (hd : v.Detached names) (hkept : w.Kept names)
    (htext : w.text = v.text) (hreading : w.reading = v.rereading names) :
  Repeats names (w.next names) (v.next names) v.following
  := by
  have hnext := Visit.next_of_kept hkept
  have hsolid' : w.Solid := by
    rw [Visit.Solid, htext]
    exact hsolid
  constructor
  · rw [hnext]
    exact h.phase
  · have hscanner : (w.next names).scanner = w.state.scanner.advance (v.rereading names) := by
      rw [hnext, hreading]
      rfl
    rw [hscanner]
    apply h.agrees.of_kept hsolid hk hd
  · rw [Visit.lastKept_next, Visit.lastKept_next, if_pos ⟨hkept, hsolid'⟩, if_pos ⟨hk, hsolid⟩,
      htext]

end Repeats

/-- A removal from the statements that another one has kept keeps them all exactly if no block of a
due statement has come within sight. -/
theorem forall_kept_again_iff {names : List Text} {s s' : State}
    {statements statements' : List Statement} (h : Repeats names s' s statements)
    (hsolids : solids (statements'.map Statement.clean)
      = solids (keptCleans names (visits names s statements)))
    (hd : ∀ v ∈ visits names s statements, v.Kept names → v.Detached names) :
  (∀ w ∈ visits names s' statements', w.Kept names)
    ↔ OutOfSight names ((visits names s statements).filter (Visit.Kept names)) statements'
  := by
  induction statements generalizing s s' statements' with
  | nil =>
      have hblank : ∀ b ∈ statements', trim b.clean = [] := by
        simpa [visits, keptCleans, solids, List.filter_eq_nil_iff] using hsolids
      have hkept : (∀ w ∈ visits names s' [], w.Kept names)
          → ∀ w ∈ visits names s' (statements' ++ []), w.Kept names :=
        (forall_kept_append_of_blank h.phase hblank []).mpr
      rw [List.append_nil] at hkept
      constructor
      · rintro - p ⟨⟩
      · intro _
        apply hkept
        rintro v ⟨⟩
  | cons st rest ih =>
      rw [visits] at hsolids hd ⊢
      obtain ⟨hd, hbehind⟩ := List.forall_mem_cons.mp hd
      -- only what is kept and not blank is met again by the second removal
      by_cases hks : (⟨s, st, rest⟩ : Visit).Kept names ∧ (⟨s, st, rest⟩ : Visit).Solid
      · obtain ⟨hk, hsolid⟩ := hks
        rw [keptCleans_cons_of_kept hk, solids_cons_of_ne hsolid] at hsolids
        obtain ⟨blanks, st', rest', rfl, hblanks, hst', hrest'⟩ := exists_of_solids_eq_cons hsolids
        have hne : trim st'.clean ≠ [] := by
          rw [hst']
          exact hsolid
        have hreading : (⟨s', st', rest'⟩ : Visit).reading
            = (⟨s, st, rest⟩ : Visit).rereading names := by
          have hscanner : s'.scanner = s.scanner := h.agrees.scanner_eq hsolid hk
          rw [Visit.reading, hscanner]
          exact Scanner.read_congr_of_solids s.scanner hst' hrest'
        have hw := kept_again_iff (w := ⟨s', st', rest'⟩) hk h.phase hst' h.lastKept hreading
        rw [forall_kept_append_of_blank h.phase hblanks, outOfSight_append_of_blank hblanks, visits,
          List.forall_mem_cons, hw, outOfSight_cons_of_solid hk hsolid _ hne]
        apply and_congr_right
        intro hdue
        apply ih _ hrest' hbehind
        apply h.of_kept (w := ⟨s', st', rest'⟩) hk hsolid (hd hk) (hw.mpr hdue) hst' hreading
      · rw [solids_keptCleans_cons_of_passed hks] at hsolids
        rw [outOfSight_cons_of_passed hks]
        exact ih (h.of_passed hks) hsolids hbehind

/-! ### Removing twice -/

/-- The statements of a stylesheet; none if they cannot be told. -/
def statementsIn (t : Text) : List Statement :=
  match Statement.split t with
  | .error _ => []
  | .ok statements => statements

theorem course_eq_visits (names : List Text) (t : Text) :
  course names t = visits names {} (statementsIn t)
  := by
  rw [course, statementsIn]
  cases Statement.split t with
  | error anomaly => rfl
  | ok statements => rfl

/-- Whether the statements of the new text, if they can be told, are those that were kept. -/
def Resplits (names : List Text) (t : Text) : Prop :=
  match Statement.split (remove t names).text with
  | .error _ => True
  | .ok statements =>
    solids (statements.map Statement.clean) = solids (keptCleans names (course names t))

instance (names : List Text) (t : Text) : Decidable (Resplits names t) :=
  match h : Statement.split (remove t names).text with
  | .error _ => .isTrue (by simp [Resplits, h])
  | .ok statements =>
    decidable_of_iff
      (solids (statements.map Statement.clean) = solids (keptCleans names (course names t)))
      (by simp [Resplits, h])

/-- If the kept statements stand apart, the new text falls into them for a second removal. -/
theorem resplits_of_apart {names : List Text} {t : Text}
    (h : ∀ v ∈ keptVisits names t, Apart v.statement) :
  Resplits names t
  := by
  cases hsplit : Statement.split t with
  | error anomaly =>
      have htext : (remove t names).text = t := by
        rw [remove, hsplit]
        split
        · rfl
        · rfl
      rw [Resplits, htext, hsplit]
      trivial
  | ok statements =>
      obtain ⟨ls, htext, hlines, hsolids⟩ := madeOf_remove hsplit h
      obtain ⟨statements', hsplit', hstatements⟩ := exists_split_ofLines hlines
      rw [Resplits, htext, hsplit']
      exact hstatements.trans hsolids

/-- Where the new text falls into the kept statements, or each of them stands apart, a second removal
does nothing exactly if the new text brings no block of a due statement within sight. -/
theorem remove_remove_iff {names : List Text} {t : Text}
    (hreads : Resplits names t ∨ ∀ v ∈ keptVisits names t, Apart v.statement)
    (hdetached : ∀ v ∈ keptVisits names t, v.Detached names) :
  ((remove (remove t names).text names).text = (remove t names).text
      ∧ (remove (remove t names).text names).removed = []
      ∧ (remove (remove t names).text names).blocks = 0)
    ↔ OutOfSight names (keptVisits names t) (statementsIn (remove t names).text)
  := by
  have hresplit : Resplits names t := hreads.elim id resplits_of_apart
  rw [remove_eq_self_iff, course_eq_visits]
  rw [Resplits] at hresplit
  rw [statementsIn]
  cases hsplit : Statement.split (remove t names).text with
  | error anomaly =>
      constructor
      · rintro - p hp
        simp [solidTails] at hp
      · rintro - v ⟨⟩
  | ok statements =>
      simp only [hsplit, course_eq_visits] at hresplit
      rw [keptVisits, course_eq_visits] at hdetached ⊢
      apply forall_kept_again_iff (Repeats.start names _) hresplit
      intro v hv hk
      apply hdetached v
      rw [List.mem_filter]
      exact ⟨hv, by simpa using hk⟩

/-- A stylesheet with a comment, and with a due statement that stays since it opens no block. -/
theorem remove_remove_trailing :
  let t := ".b \x7b /* .c */ \x7d\n.a \x7b \x7d\n.a".toList;
  let again := remove (remove t ["a".toList]).text ["a".toList];
  (remove t ["a".toList]).blocks = 1
    ∧ (∀ v ∈ keptVisits ["a".toList] t, Apart v.statement)
    ∧ (∀ v ∈ keptVisits ["a".toList] t, v.Detached ["a".toList])
    ∧ OutOfSight ["a".toList] (keptVisits ["a".toList] t)
        (statementsIn (remove t ["a".toList]).text)
    ∧ again.text = (remove t ["a".toList]).text ∧ again.removed = [] ∧ again.blocks = 0
  := by
  intro t again
  have hdecided : (remove t ["a".toList]).blocks = 1
      ∧ (∀ v ∈ keptVisits ["a".toList] t, Neat v.statement)
      ∧ (∀ v ∈ keptVisits ["a".toList] t, v.Detached ["a".toList])
      ∧ OutOfSight ["a".toList] (keptVisits ["a".toList] t)
        (statementsIn (remove t ["a".toList]).text) := by
    decide +kernel
  obtain ⟨hblocks, hneat, hdetached, hsight⟩ := hdecided
  have happart : ∀ v ∈ keptVisits ["a".toList] t, Apart v.statement := by
    intro v hv
    exact (hneat v hv).apart
  have hagain := (remove_remove_iff (.inr happart) hdetached).mpr hsight
  and_intros
  · exact hblocks
  · exact happart
  · exact hdetached
  · exact hsight
  · exact hagain.1
  · exact hagain.2.1
  · exact hagain.2.2

/-- A second removal takes a block away whose brace has come nearer with the blank lines that are
gone, one that a suffix defines which has got a name to extend, and one that stood in a line comment
before the line comment got into a comment. -/
theorem remove_remove_ne :
  (let t := ".old\n\n\n\n\x7b \x7d\n.gone \x7b \x7d\n".toList;
    let names := ["old".toList, "gone".toList];
    (remove t names).text = ".old\n\n\n\x7b \x7d\n".toList
      ∧ (remove (remove t names).text names).text = []
      ∧ (remove (remove t names).text names).removed = ["old".toList])
    ∧ (let t := ".x\n&__a \x7b \x7d\n&__b \x7b \x7d\n".toList;
      let names := ["x__a".toList, "x__b".toList];
      (remove t names).text = ".x\n&__b \x7b \x7d\n".toList
        ∧ (remove (remove t names).text names).text = ".x\n".toList)
    ∧ (let t := "/* x\n*/ .a \x7b \x7d\n// */ .a \x7b \x7d".toList;
      let names := ["a".toList];
      (remove t names).text = "/* x\n// */ .a \x7b \x7d".toList
        ∧ (remove (remove t names).text names).text = "/* x".toList)
  := by
  refine ⟨?_, ?_, ?_⟩
  all_goals decide +kernel

end StylePrune.Prune
