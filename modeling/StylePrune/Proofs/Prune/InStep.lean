import StylePrune.Proofs.Prune.Blocks
import StylePrune.Proofs.Prune.Repeat
import StylePrune.Proofs.Stylesheet.Enclosing

/-!
# Removing and reading in step

Whoever looks for the class names of a stylesheet reads all of its statements; a removal reads those
that it does not skip, and forgets the name that was handed on where it starts to skip.  The two come
to the same reading of a statement as long as every removed block leaves the blocks around it as it
found them and hands no name on.  A block does so if the selector line where it starts closes no
block, and if the statement where it ends hands nothing on.
-/

namespace StylePrune.Stylesheet

open Text

namespace OpenBlocks

/-- Whether the innermost block that belongs to a class rule is open. -/
def Tight (b : OpenBlocks) : Prop := within b.depth b.frames = b.frames

theorem Tight.opened {b : OpenBlocks} (h : b.Tight) (opener : Option Text) :
  (b.opened opener).Tight
  := by
  cases opener with
  | none =>
      change within (b.depth + 1) b.frames = b.frames
      rw [← h, within_within, Nat.min_eq_right (Nat.le_succ _)]
  | some name => exact within_cons_of_le (Nat.le_refl (b.depth + 1)) _

theorem frames_closed {b : OpenBlocks} (h : b.depth ≠ 0) :
  b.closed.frames = within (b.depth - 1) b.frames
  := by
  rw [closed, if_neg h]
  rfl

theorem Tight.closed {b : OpenBlocks} (h : b.Tight) :
  b.closed.Tight
  := by
  by_cases hb : b.depth = 0
  · rw [closed_of_depth_eq_zero hb]
    exact h
  · rw [Tight, depth_closed, frames_closed hb, within_within, Nat.min_self]

theorem Tight.feed {b : OpenBlocks} (h : b.Tight) (opener : Option Text) (t : Text) :
  (b.feed opener t).Tight
  := by
  induction t generalizing b opener with
  | nil => exact h
  | cons c t ih =>
      rw [OpenBlocks.feed]
      split
      · exact ih (h.opened opener) none
      · split
        · exact ih h.closed opener
        · exact ih h opener

/-! ### Texts with one brace -/

theorem feed_of_count_eq_zero {t : Text} (hopen : t.count '\x7b' = 0) (hclose : t.count '\x7d' = 0)
    (b : OpenBlocks) (opener : Option Text) :
  b.feed opener t = b
  := by
  rw [← List.append_nil t, feed_append (List.count_eq_zero.mp hopen) (List.count_eq_zero.mp hclose)]
  rfl

theorem feed_of_opens {t : Text} (hopen : t.count '\x7b' = 1) (hclose : t.count '\x7d' = 0)
    (b : OpenBlocks) (opener : Option Text) :
  b.feed opener t = b.opened opener
  := by
  have hmem : '\x7b' ∈ t := List.count_pos_iff.mp (by omega)
  obtain ⟨u, w, rfl⟩ := List.append_of_mem hmem
  rw [List.count_append, List.count_cons_self] at hopen
  rw [List.count_append, List.count_cons_of_ne (by decide)] at hclose
  have huo : u.count '\x7b' = 0 := by omega
  have huc : u.count '\x7d' = 0 := by omega
  have hwo : w.count '\x7b' = 0 := by omega
  have hwc : w.count '\x7d' = 0 := by omega
  rw [feed_append (List.count_eq_zero.mp huo) (List.count_eq_zero.mp huc)]
  exact feed_of_count_eq_zero hwo hwc _ _

theorem feed_of_closes {t : Text} (hopen : t.count '\x7b' = 0) (hclose : t.count '\x7d' = 1)
    (b : OpenBlocks) (opener : Option Text) :
  b.feed opener t = b.closed
  := by
  have hmem : '\x7d' ∈ t := List.count_pos_iff.mp (by omega)
  obtain ⟨u, w, rfl⟩ := List.append_of_mem hmem
  rw [List.count_append, List.count_cons_of_ne (by decide)] at hopen
  rw [List.count_append, List.count_cons_self] at hclose
  have huo : u.count '\x7b' = 0 := by omega
  have huc : u.count '\x7d' = 0 := by omega
  have hwo : w.count '\x7b' = 0 := by omega
  have hwc : w.count '\x7d' = 0 := by omega
  rw [feed_append (List.count_eq_zero.mp huo) (List.count_eq_zero.mp huc)]
  exact feed_of_count_eq_zero hwo hwc _ _

/-! ### Blocks inside of others -/

/-- Whether open blocks are others with a number of further ones open inside. -/
structure Above (b base : OpenBlocks) (d : Nat) : Prop where
  tight : b.Tight
  depth : b.depth = base.depth + d
  frames : within base.depth b.frames = base.frames

namespace Above

variable {b base : OpenBlocks} {d : Nat}

theorem of_tight (h : b.Tight) :
  b.Above b 0
  := ⟨h, rfl, h⟩

/-- With no further block open they are the same. -/
theorem eq_base (h : b.Above base 0) :
  b = base
  := by
  have hdepth : b.depth = base.depth := h.depth
  have hframes : b.frames = base.frames := by rw [← h.frames, ← hdepth, h.tight]
  calc b
    _ = ⟨b.frames, b.depth⟩ := rfl
    _ = base := by rw [hframes, hdepth]

theorem opened (h : b.Above base d) (opener : Option Text) :
  (b.opened opener).Above base (d + 1)
  := by
  constructor
  · exact h.tight.opened opener
  · rw [depth_opened, h.depth, Nat.add_assoc]
  · rw [← h.frames]
    cases opener with
    | none => rfl
    | some name =>
        apply within_cons_of_lt
        apply Nat.lt_succ_of_le
        rw [h.depth]
        exact Nat.le_add_right base.depth d

theorem closed (h : b.Above base (d + 1)) :
  b.closed.Above base d
  := by
  have hdepth : b.depth = base.depth + d + 1 := h.depth
  have hne : b.depth ≠ 0 := by omega
  constructor
  · exact h.tight.closed
  · rw [depth_closed, hdepth]
    rfl
  · rw [frames_closed hne, within_within, Nat.min_eq_left (by omega), h.frames]

/-- A text with at most one brace moves the number of further blocks by its balance. -/
theorem feed (h : b.Above base d) {t : Text} (hone : t.count '\x7b' + t.count '\x7d' ≤ 1) {d' : Nat}
    (hd : d' + t.count '\x7d' = d + t.count '\x7b') (opener : Option Text) :
  (b.feed opener t).Above base d'
  := by
  by_cases hopen : t.count '\x7b' = 1
  · have hclose : t.count '\x7d' = 0 := by omega
    obtain rfl : d' = d + 1 := by omega
    rw [feed_of_opens hopen hclose]
    exact h.opened opener
  · have hopen : t.count '\x7b' = 0 := by omega
    by_cases hclose : t.count '\x7d' = 1
    · obtain rfl : d = d' + 1 := by omega
      rw [feed_of_closes hopen hclose]
      exact h.closed
    · have hclose : t.count '\x7d' = 0 := by omega
      obtain rfl : d' = d := by omega
      rw [feed_of_count_eq_zero hopen hclose]
      exact h

end Above

end OpenBlocks

namespace Scanner

/-- A reading has the text of the statement, without blanks around it. -/
theorem text_of_read {s : Scanner} {line : Text} {following : List Text} {r : Reading}
    (h : s.read line following = some r) :
  r.text = trim line
  := (read_cases h).1

end Scanner

end StylePrune.Stylesheet

namespace StylePrune.Prune

open Text Stylesheet

namespace Visit

/-- Whether the removal of a block ends at the visited statement. -/
def Ends (names : List Text) (v : Visit) : Prop :=
  v.Skipped ∧ (v.next names).phase = .copying

/-- Whether the visited statement closes a block. -/
def ClosesBlock (v : Visit) : Prop := '\x7d' ∈ v.text ∧ v.state.scanner.blocks.depth ≠ 0

instance (names : List Text) : DecidablePred (Ends names) :=
  fun v => inferInstanceAs (Decidable (v.Skipped ∧ (v.next names).phase = .copying))

instance : DecidablePred ClosesBlock := fun v =>
  inferInstanceAs (Decidable ('\x7d' ∈ v.text ∧ v.state.scanner.blocks.depth ≠ 0))

/-- What a scanner makes of the visited statement. -/
def readBy (v : Visit) (scanner : Scanner) : Option Reading :=
  scanner.read v.statement.clean (v.following.map Statement.clean)

/-- Past the visited statement the blocks of a scanner follow its braces. -/
theorem exists_blocks_advance (v : Visit) (scanner : Scanner) :
  ∃ opener, (scanner.advance (v.readBy scanner)).blocks = scanner.blocks.feed opener v.text
  := by
  rw [readBy]
  cases h : scanner.read v.statement.clean (v.following.map Statement.clean) with
  | none =>
      use none
      rw [text, Scanner.read_eq_none_iff.mp h]
      rfl
  | some r =>
      use r.opener
      rw [text, ← Scanner.text_of_read h]
      rfl

end Visit

/-! ### The two scanners -/

/-- A scanner that leaves no statement out is in step with the state of a removal: they are the same
while statements are copied, and inside a removed block the scanner has the blocks open in addition
that were opened there. -/
structure InStep (scanner : Scanner) (s : State) : Prop where
  blocks : scanner.blocks.Above s.scanner.blocks s.phase.depth
  copying : s.phase = .copying → scanner.pending = s.scanner.pending
  skipping : s.phase ≠ .copying → s.scanner.pending = none

namespace InStep

variable {names : List Text} {scanner : Scanner} {v : Visit}

theorem start :
  InStep {} {}
  := by
  constructor
  · exact OpenBlocks.Above.of_tight rfl
  · intro _
    rfl
  · intro h
    exact absurd rfl h

/-- While statements are copied the two scanners are the same. -/
theorem scanner_eq {s : State} (h : InStep scanner s) (hp : s.phase = .copying) :
  scanner = s.scanner
  := by
  have hblocks : scanner.blocks = s.scanner.blocks := by
    apply OpenBlocks.Above.eq_base
    have := h.blocks
    rwa [hp] at this
  calc scanner
    _ = ⟨scanner.blocks, scanner.pending⟩ := rfl
    _ = s.scanner := by rw [hblocks, h.copying hp]

/-- Past a statement that is kept the scanners have moved on alike. -/
theorem of_kept (h : InStep scanner v.state) (hk : v.Kept names) :
  InStep (scanner.advance (v.readBy scanner)) (v.next names)
  := by
  obtain ⟨hp, -⟩ := Visit.kept_iff.mp hk
  have hphase := Visit.phase_next_of_kept hk
  have hnext : scanner.advance (v.readBy scanner) = (v.next names).scanner := by
    rw [Visit.next_of_kept hk, h.scanner_eq hp]
    rfl
  obtain ⟨opener, hblocks⟩ := v.exists_blocks_advance scanner
  have htight : (scanner.advance (v.readBy scanner)).blocks.Tight := by
    rw [hblocks]
    exact h.blocks.tight.feed opener _
  rw [hnext] at htight ⊢
  constructor
  · rw [hphase]
    exact OpenBlocks.Above.of_tight htight
  · intro _
    rfl
  · intro hne
    exact absurd hphase hne

section Cut

variable (h : InStep scanner v.state) (hfits : v.state.phase.Fits (v.statement :: v.following))

include h hfits

/-- Where a removal starts the blocks around it stay as they are, unless the selector line closes
one. -/
theorem blocks_of_starts (hs : v.Starts names) (hstart : ¬ v.ClosesBlock) :
  (scanner.advance (v.readBy scanner)).blocks.Above (v.next names).scanner.blocks
    (v.next names).phase.depth
  := by
  have hsingle := hfits.single v.statement List.mem_cons_self
  have hone : opens v.text + closes v.text ≤ 1 := by
    rw [Visit.text, opens_trim, closes_trim]
    exact hsingle.count_le_one
  have hbase : scanner.blocks.Above v.state.scanner.blocks 0 := by
    have := h.blocks
    rwa [hs.1] at this
  obtain ⟨found, phase, -, hnext⟩ := Visit.next_of_starts hs
  have hscanner : (v.next names).scanner.blocks = v.state.scanner.blocks := by
    rw [hnext]
    rfl
  obtain ⟨opener, hblocks⟩ := v.exists_blocks_advance scanner
  rw [hscanner, Visit.depth_next_of_starts hsingle hs, hblocks]
  by_cases hclose : closes v.text = 0
  · apply hbase.feed hone
    change opens v.text + closes v.text = 0 + opens v.text
    omega
  · have hopen : opens v.text = 0 := by omega
    have hmem : '\x7d' ∈ v.text := List.count_pos_iff.mp (Nat.pos_of_ne_zero hclose)
    have hdepth : v.state.scanner.blocks.depth = 0 := by
      by_contra hne
      exact hstart ⟨hmem, hne⟩
    rw [hopen]
    rw [← hbase.eq_base] at hdepth ⊢
    rw [OpenBlocks.feed_of_closes hopen (by change closes v.text = 1; omega),
      OpenBlocks.closed_of_depth_eq_zero hdepth]
    exact OpenBlocks.Above.of_tight hbase.tight

/-- Inside a removed block the scanner follows its braces. -/
theorem blocks_of_skipped (names : List Text) (hskip : v.Skipped) :
  (scanner.advance (v.readBy scanner)).blocks.Above (v.next names).scanner.blocks
    (v.next names).phase.depth
  := by
  have hsingle := hfits.single v.statement List.mem_cons_self
  obtain ⟨-, phase, hnext⟩ := Visit.skipped names hskip
  have hscanner : (v.next names).scanner.blocks = v.state.scanner.blocks := by
    rw [hnext]
  have hdepth := Visit.depth_next_of_skipped names hfits hskip
  obtain ⟨opener, hblocks⟩ := v.exists_blocks_advance scanner
  rw [balance, ← opens_trim, ← closes_trim] at hdepth
  rw [hscanner, hblocks]
  apply h.blocks.feed
  · change opens v.text + closes v.text ≤ 1
    rw [Visit.text, opens_trim, closes_trim]
    exact hsingle.count_le_one
  · change _ + closes (trim v.statement.clean) = _ + opens (trim v.statement.clean)
    omega

/-- Past a statement that is cut the two are in step, if a selector line that starts a removed block
closes none, and a statement that ends one hands nothing on. -/
theorem of_cut (hcut : ¬ v.Kept names) (hstart : v.Starts names → ¬ v.ClosesBlock)
    (hend : v.Ends names → ∀ r ∈ v.readBy scanner, r.carry = none) :
  InStep (scanner.advance (v.readBy scanner)) (v.next names)
  := by
  have hsingle := hfits.single v.statement List.mem_cons_self
  rcases v.kept_or_starts_or_skipped names with hk | hs | hskip
  · exact absurd hk hcut
  · obtain ⟨found, phase, -, hnext⟩ := Visit.next_of_starts hs
    constructor
    · exact h.blocks_of_starts hfits hs (hstart hs)
    · intro hp
      exact absurd hp (Visit.phase_ne_copying_of_starts hsingle hs)
    · intro _
      rw [hnext]
      rfl
  · obtain ⟨-, phase, hnext⟩ := Visit.skipped names hskip
    have hpending : (v.next names).scanner.pending = none := by
      rw [hnext]
      exact h.skipping hskip
    constructor
    · exact h.blocks_of_skipped hfits names hskip
    · intro hp
      obtain ⟨hsolid, -⟩ := Visit.terminated_of_closes hsingle hfits.sound hskip hp
      have hne : v.readBy scanner ≠ none := mt Scanner.read_eq_none_iff.mp hsolid
      obtain ⟨r, hr⟩ := Option.ne_none_iff_exists'.mp hne
      rw [hpending, hr]
      exact hend ⟨hskip, hp⟩ r hr
    · intro _
      exact hpending

/-- Past any statement the two are in step as before. -/
theorem next (hstart : v.Starts names → ¬ v.ClosesBlock)
    (hend : v.Ends names → ∀ r ∈ v.readBy scanner, r.carry = none) :
  InStep (scanner.advance (v.readBy scanner)) (v.next names)
  := by
  by_cases hk : v.Kept names
  · exact h.of_kept hk
  · exact h.of_cut hfits hk hstart hend

end Cut

/-! ### Runs -/

/-- Where the two stay in step, a removal reads the statements that it copies as the scanner does. -/
theorem reading_eq {s : State} {statements : List Statement} (h : InStep scanner s)
    (hfits : s.phase.Fits statements)
    (hstart : ∀ v ∈ visits names s statements, v.Starts names → ¬ v.ClosesBlock)
    (hend : ∀ p ∈ ((visits names s statements).filter Visit.Solid).zip
      (scanner.readings (statements.map Statement.clean)), p.1.Ends names → p.2.carry = none) :
  ∀ p ∈ ((visits names s statements).filter Visit.Solid).zip
    (scanner.readings (statements.map Statement.clean)),
    p.1.state.phase = .copying → p.1.reading = some p.2
  := by
  -- the scanners stay in step while a block is skipped, too
  induction statements generalizing scanner s with
  | nil => rintro p ⟨⟩
  | cons st rest ih =>
      rw [visits_cons] at hstart hend ⊢
      rw [List.map_cons] at hend ⊢
      obtain ⟨hstart, hbehind⟩ := List.forall_mem_cons.mp hstart
      have hfits' := Visit.fits_next names (v := ⟨s, st, rest⟩) hfits
      by_cases hsolid : (⟨s, st, rest⟩ : Visit).Solid
      · have hne : (⟨s, st, rest⟩ : Visit).readBy scanner ≠ none :=
          mt Scanner.read_eq_none_iff.mp hsolid
        obtain ⟨r, hr⟩ := Option.ne_none_iff_exists'.mp hne
        rw [List.filter_cons_of_pos (by simpa using hsolid), Scanner.readings_cons_of_some hr,
          List.zip_cons_cons, List.forall_mem_cons] at hend ⊢
        obtain ⟨hend, hends⟩ := hend
        have hnext := h.next (v := ⟨s, st, rest⟩) hfits hstart (by
          intro he r' hr'
          obtain rfl := Option.some.inj (hr.symm.trans hr')
          exact hend he)
        rw [hr] at hnext
        constructor
        · intro hp
          rw [h.scanner_eq hp] at hr
          exact hr
        · exact ih hnext hfits' hbehind hends
      · have hblank : trim st.clean = [] := not_not.mp hsolid
        have hread : (⟨s, st, rest⟩ : Visit).readBy scanner = none :=
          Scanner.read_eq_none_iff.mpr hblank
        have hnext := h.next (v := ⟨s, st, rest⟩) hfits hstart (by
          rw [hread]
          rintro - r ⟨⟩)
        rw [hread] at hnext
        rw [List.filter_cons_of_neg (by simpa using hsolid),
          Scanner.readings_cons_of_blank hblank] at hend ⊢
        exact ih hnext hfits' hbehind hend

end InStep

/-! ### The names that are removed -/

theorem nodup_eraseDups {α : Type} [BEq α] [LawfulBEq α] (l : List α) :
  l.eraseDups.Nodup
  := by
  induction hn : l.length using Nat.strongRecOn generalizing l with
  | ind n ih =>
      cases l with
      | nil => exact List.nodup_nil
      | cons a l =>
          rw [List.eraseDups_cons, List.nodup_cons]
          constructor
          · simp
          · apply ih _ _ _ rfl
            rw [← hn, List.length_cons]
            exact Nat.lt_succ_of_le (List.length_filter_le _ l)

theorem nodup_targets (names : List Text) (reading : Option Reading) :
  (targets names reading).Nodup
  := by
  rw [targets]
  split
  · exact List.nodup_nil
  · split
    · exact List.nodup_nil
    · exact nodup_eraseDups _

/-- What is to go at a selector line is defined there. -/
theorem mem_of_mem_targets {names : List Text} {reading : Option Reading} {name : Text}
    (h : name ∈ targets names reading) :
  name ∈ names ∧ ∃ r ∈ reading, name ∈ r.definitions.map Prod.fst
  := by
  rw [targets] at h
  split at h
  · cases h
  · next members hmembers =>
    obtain ⟨r, hr, hrm⟩ := Option.bind_eq_some_iff.mp hmembers
    split at h
    · cases h
    · obtain ⟨m, hm, hname⟩ := List.mem_flatMap.mp (List.mem_eraseDups.mp h)
      obtain ⟨hmem, hcontains⟩ := List.mem_filter.mp hname
      obtain ⟨entry, hentry, rfl⟩ := List.mem_map.mp hmem
      use List.contains_iff_mem.mp hcontains, r, hr
      rw [Reading.definitions, hrm]
      exact List.mem_map_of_mem (List.mem_flatMap.mpr ⟨m, hm, hentry⟩)

/-- The names that a removal has removed behind a visit are those before it, and those that are to
go where the removal of a block starts. -/
theorem removed_next (names : List Text) (v : Visit) :
  (v.next names).removed = v.state.removed
    ++ if v.Starts names then
        (targets names v.reading).filter fun name => !v.state.removed.contains name
      else []
  := by
  rcases v.kept_or_starts_or_skipped names with hk | hs | hskip
  · rw [if_neg fun hs => Visit.not_kept_of_starts hs hk, List.append_nil, Visit.next_of_kept hk]
    rfl
  · obtain ⟨found, phase, hb, hnext⟩ := Visit.next_of_starts hs
    obtain ⟨rfl, -⟩ := begins?_eq_some_iff.mp hb
    rw [if_pos hs, hnext]
    rfl
  · obtain ⟨-, phase, hnext⟩ := Visit.skipped names hskip
    rw [if_neg fun hs => hskip hs.1, List.append_nil, hnext]

theorem nodup_removed_next {names : List Text} {v : Visit} (h : v.state.removed.Nodup) :
  (v.next names).removed.Nodup
  := by
  rw [removed_next]
  split
  · refine List.nodup_append.mpr ⟨h, (nodup_targets _ _).filter _, ?_⟩
    rintro name hname other hother rfl
    have := (List.mem_filter.mp hother).2
    simp [hname] at this
  · rwa [List.append_nil]

theorem nodup_removed_judge {names : List Text} {s : State} (h : s.removed.Nodup)
    (statements : List Statement) :
  (judge names s statements).2.removed.Nodup
  := by
  induction statements generalizing s with
  | nil => exact h
  | cons st rest ih =>
      rw [judge_cons]
      exact ih (nodup_removed_next h)

/-- A removal adds the names that are to go where the removal of a block starts, and no others. -/
theorem mem_removed_judge_iff {names : List Text} {s : State} {statements : List Statement}
    {name : Text} :
  name ∈ (judge names s statements).2.removed
    ↔ name ∈ s.removed
      ∨ ∃ v ∈ visits names s statements, v.Starts names ∧ name ∈ targets names v.reading
  := by
  induction statements generalizing s with
  | nil => simp [judge, visits]
  | cons st rest ih =>
      have hnext : name ∈ ((⟨s, st, rest⟩ : Visit).next names).removed
          ↔ name ∈ s.removed ∨ ((⟨s, st, rest⟩ : Visit).Starts names
            ∧ name ∈ targets names (⟨s, st, rest⟩ : Visit).reading) := by
        rw [removed_next, List.mem_append]
        split
        · next hs =>
          by_cases hmem : name ∈ s.removed
          · simp [hmem]
          · simp [hmem, hs]
        · next hs => simp [hs]
      rw [judge_cons, ih, hnext, visits_cons, List.exists_mem_cons_iff, or_assoc]
      rfl

/-- The names that are removed are listed once, and each is to go at a selector line where the
removal of a block starts. -/
theorem removed_remove (names : List Text) (t : Text) :
  (remove t names).removed.Nodup
    ∧ ∀ name ∈ (remove t names).removed,
      ∃ v ∈ course names t, v.Starts names ∧ name ∈ targets names v.reading
  := by
  have hnone : ([] : List Text).Nodup ∧ ∀ name ∈ ([] : List Text),
      ∃ v ∈ course names t, v.Starts names ∧ name ∈ targets names v.reading :=
    ⟨List.nodup_nil, List.forall_mem_nil _⟩
  rw [remove]
  by_cases hnames : names = []
  · rwa [if_pos hnames]
  · rw [if_neg hnames]
    cases hsplit : Statement.split t with
    | error anomaly => exact hnone
    | ok statements =>
        dsimp only
        split
        · exact hnone
        · use nodup_removed_judge List.nodup_nil statements
          intro name hname
          rw [course, hsplit]
          rcases mem_removed_judge_iff.mp hname with hbefore | hstart
          · cases hbefore
          · exact hstart

/-! ### A whole stylesheet -/

/-- Whether the statements that a removal works on are those that are read, blank ones apart: behind
the last end of a statement that a line has, cleaning leaves something only where the line itself
has something. -/
def Whole (t : Text) : Prop :=
  solids ((statementsIn t).map Statement.clean) = solids (statementsOf (strip t))

instance : DecidablePred Whole := fun _ => inferInstanceAs (Decidable (_ = _))

/-- The statements of a stylesheet that are more than blanks, as a removal comes to them, each with
what is read in it by whoever leaves none out. -/
def sideBySide (names : List Text) (t : Text) : List (Visit × Reading) :=
  ((course names t).filter Visit.Solid).zip (({} : Scanner).readings (statementsOf (strip t)))

theorem length_readings (s : Scanner) (statements : List Text) :
  (s.readings statements).length = (solids statements).length
  := by
  induction statements generalizing s with
  | nil => rfl
  | cons line rest ih =>
      by_cases h : trim line = []
      · rw [Scanner.readings_cons_of_blank h, solids_cons_of_blank h, ih]
      · have hne : s.read line rest ≠ none := mt Scanner.read_eq_none_iff.mp h
        obtain ⟨r, hr⟩ := Option.ne_none_iff_exists'.mp hne
        rw [Scanner.readings_cons_of_some hr, solids_cons_of_ne h, List.length_cons,
          List.length_cons, ih]

theorem length_filter_solid (names : List Text) (s : State) (statements : List Statement) :
  ((visits names s statements).filter Visit.Solid).length
    = (solids (statements.map Statement.clean)).length
  := by
  have hmap : (statements.map Statement.clean).map trim
      = (visits names s statements).map Visit.text := by
    conv_lhs => rw [← map_statement_visits names s statements]
    simp only [List.map_map]
    rfl
  rw [solids, hmap, List.filter_map, List.length_map]
  rfl

/-- Every statement has its reading beside it. -/
theorem map_sideBySide {names : List Text} {t : Text} (h : Whole t) :
  (sideBySide names t).map Prod.fst = (course names t).filter Visit.Solid
    ∧ (sideBySide names t).map Prod.snd = ({} : Scanner).readings (statementsOf (strip t))
  := by
  have hlength : ((course names t).filter Visit.Solid).length
      = (({} : Scanner).readings (statementsOf (strip t))).length := by
    rw [course_eq_visits, length_filter_solid, length_readings, h]
  constructor
  · exact List.map_fst_zip (Nat.le_of_eq hlength)
  · exact List.map_snd_zip (Nat.le_of_eq hlength.symm)

/-- A removal removes names that are to go, each once.  It comes to the same reading of every
statement that it copies as whoever reads the whole stylesheet, and what it removes is found there,
if no selector line where a removed block starts closes a block, and no statement where one ends
hands a name on. -/
theorem reading_sideBySide (names : List Text) (t : Text) (file : String) (place : Path) :
  (remove t names).removed.Nodup ∧ (∀ name ∈ (remove t names).removed, name ∈ names)
    ∧ (Whole t → (∀ v ∈ course names t, v.Starts names → ¬ v.ClosesBlock) →
      (∀ p ∈ sideBySide names t, p.1.Ends names → p.2.carry = none) →
      (sideBySide names t).map Prod.fst = (course names t).filter Visit.Solid
        ∧ (sideBySide names t).map Prod.snd = ({} : Scanner).readings (statementsOf (strip t))
        ∧ (∀ p ∈ sideBySide names t, p.1.state.phase = .copying → p.1.reading = some p.2)
        ∧ ∀ name ∈ (remove t names).removed,
          name ∈ (definitionsOf t file place).map ClassDefinition.name)
  := by
  obtain ⟨hnodup, hremoved⟩ := removed_remove names t
  use hnodup
  constructor
  · intro name hname
    obtain ⟨v, -, -, htarget⟩ := hremoved name hname
    exact (mem_of_mem_targets htarget).1
  · intro hwhole hstart hend
    obtain ⟨hfst, hsnd⟩ := @map_sideBySide names t hwhole
    have hreadings : ({} : Scanner).readings ((statementsIn t).map Statement.clean)
        = ({} : Scanner).readings (statementsOf (strip t)) := by
      rw [← Scanner.readings_solids, hwhole, Scanner.readings_solids]
    have hfits : (Phase.copying).Fits (statementsIn t) := by
      apply Phase.fits_copying
      intro st hst
      rw [statementsIn] at hst
      split at hst
      · cases hst
      · next hsplit => exact Statement.single_of_mem_split hsplit hst
    have hsame : ∀ p ∈ sideBySide names t, p.1.state.phase = .copying → p.1.reading = some p.2 := by
      rw [course_eq_visits] at hstart
      rw [sideBySide, course_eq_visits, ← hreadings] at hend ⊢
      exact InStep.start.reading_eq hfits hstart hend
    use hfst, hsnd, hsame
    intro name hname
    obtain ⟨v, hv, hs, htarget⟩ := hremoved name hname
    obtain ⟨-, r, hr, hdefinition⟩ := mem_of_mem_targets htarget
    have hmem : v ∈ (sideBySide names t).map Prod.fst := by
      rw [hfst, List.mem_filter]
      exact ⟨hv, by simpa using Visit.solid_of_starts hs⟩
    obtain ⟨p, hp, rfl⟩ := List.mem_map.mp hmem
    obtain rfl := Option.some.inj ((hsame p hp hs.1).symm.trans hr)
    rw [map_name_definitionsOf, mem_map_fst_firstByName_iff, definedIn_eq_finds, Scanner.finds,
      ← hsnd, List.map_flatMap, List.mem_flatMap]
    exact ⟨⟨p.2, List.mem_map_of_mem hp, hdefinition⟩, List.not_mem_nil⟩

/-- A nested rule that goes, a list that is kept since it goes on over two lines, a rule that goes
with its brace below it, and a list all of which goes. -/
theorem reading_sideBySide_nested :
  let t := (".p \x7b\n  .a \x7b &:hover \x7b \x7d \x7d\n  &__c,\n  .d \x7b \x7d\n\x7d\n.a\n\x7b\n\x7d\n"
    ++ ".a, .d .p \x7b &__e \x7b \x7d \x7d\n&__f \x7b \x7d").toList;
  let names := ["a".toList, "d".toList];
  (remove t names).removed = ["a".toList, "d".toList] ∧ (remove t names).blocks = 3 ∧ Whole t
    ∧ (∀ v ∈ course names t, v.Starts names → ¬ v.ClosesBlock)
    ∧ (∀ p ∈ sideBySide names t, p.1.Ends names → p.2.carry = none)
    ∧ ∀ p ∈ sideBySide names t, p.1.state.phase = .copying → p.1.reading = some p.2
  := by
  intro t names
  have hdecided : (remove t names).removed = ["a".toList, "d".toList] ∧ (remove t names).blocks = 3
      ∧ Whole t ∧ (∀ v ∈ course names t, v.Starts names → ¬ v.ClosesBlock)
      ∧ ∀ p ∈ sideBySide names t, p.1.Ends names → p.2.carry = none := by
    decide +kernel
  obtain ⟨hremoved, hblocks, hwhole, hstart, hend⟩ := hdecided
  obtain ⟨-, -, hsame⟩ := reading_sideBySide names t "a.scss" (Path.ofString "a.scss")
  use hremoved, hblocks, hwhole, hstart, hend
  exact (hsame hwhole hstart hend).2.2.1

/-- A name that is found nowhere in the stylesheet is removed: behind a block whose selector line has
the closing brace of the rule around it, behind one whose last statement hands a name on, and where
the last statement of a line is lost.  Each time the two other conditions are met. -/
theorem removed_notMem_definitionsOf :
  (let t := ".p \x7b .a \x7d\n\x7b \x7d\n&__b \x7b \x7d".toList;
    let names := ["a".toList, "p__b".toList];
    Whole t ∧ (∀ p ∈ sideBySide names t, p.1.Ends names → p.2.carry = none)
      ∧ "p__b".toList ∈ (remove t names).removed
      ∧ "p__b".toList ∉ (definitionsOf t "a.scss" (Path.ofString "a.scss")).map
        ClassDefinition.name)
    ∧ (let t := ".p \x7b .a \x7b .b \x7d\n&__c \x7b \x7d\n\x7d".toList;
      let names := ["a".toList, "p__c".toList];
      Whole t ∧ (∀ v ∈ course names t, v.Starts names → ¬ v.ClosesBlock)
        ∧ "p__c".toList ∈ (remove t names).removed
        ∧ "p__c".toList ∉ (definitionsOf t "a.scss" (Path.ofString "a.scss")).map
          ClassDefinition.name)
    ∧ (let t := ".b xmlns=\"\"#\x7b a\x7d .c xmlns=\"\";\n&__d \x7b \x7d".toList;
      let names := ["b__d".toList];
      (∀ v ∈ course names t, v.Starts names → ¬ v.ClosesBlock)
        ∧ (∀ p ∈ sideBySide names t, p.1.Ends names → p.2.carry = none)
        ∧ "b__d".toList ∈ (remove t names).removed
        ∧ "b__d".toList ∉ (definitionsOf t "a.scss" (Path.ofString "a.scss")).map
          ClassDefinition.name)
  := by
  refine ⟨?_, ?_, ?_⟩
  all_goals decide +kernel

end StylePrune.Prune
