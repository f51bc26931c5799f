import Mathlib.Data.List.Basic
import StylePrune.Prune.Statement
import StylePrune.Proofs.Stylesheet.Columns
import StylePrune.Proofs.Text.Trim

/-!
# Where statements end

A statement ends at the first brace or semicolon, or at the end of its line.  So an end of a
statement is its last character, and a statement holds at most one; only the last statement of a
line may have none.  `Rows` says how the statements of a stylesheet lie on its lines.
-/

namespace StylePrune.Stylesheet

open Text

/-- A text that holds no end of a statement but at its own end. -/
def Single (t : Text) : Prop := ∀ c ∈ t.dropLast, endsStatement c = false

/-- A text whose last character ends a statement. -/
def Terminated (t : Text) : Prop := ∃ c ∈ t.getLast?, endsStatement c = true

instance (t : Text) : Decidable (Terminated t) :=
  decidable_of_iff (t.getLast?.any endsStatement = true) (by simp [Terminated, Option.any_eq_true])

/-- The pieces of a line hold no end of a statement but at their own ends. -/
theorem single_of_mem_cut {line p : Text} (h : p ∈ cut line) :
  Single p
  := by
  induction line generalizing p with
  | nil =>
      obtain rfl : p = [] := by simpa [cut, cutAlong] using h
      simp [Single]
  | cons c t ih =>
      rw [cut, cutAlong] at h
      split at h
      · rcases List.mem_cons.mp h with rfl | h
        · simp [Single]
        · apply ih h
      · next hc =>
        split at h
        · obtain rfl : p = [c] := by simpa using h
          simp [Single]
        · next q ps hq =>
          rcases List.mem_cons.mp h with rfl | h
          · have hs : Single q := ih (by rw [cut, hq]; apply List.mem_cons_self)
            cases q with
            | nil => simp [Single]
            | cons d q =>
                intro e he
                rcases List.mem_cons.mp he with rfl | he
                · simpa using hc
                · apply hs e he
          · apply ih
            rw [cut, hq]
            apply List.mem_cons_of_mem _ h

theorem Terminated.cons {t : Text} (h : Terminated t) (c : Char) :
  Terminated (c :: t)
  := by
  obtain ⟨d, hd, he⟩ := h
  use d
  rw [List.getLast?_cons, Option.mem_def.mp hd]
  exact ⟨rfl, he⟩

/-- A terminated piece is its last character behind others that end nothing. -/
theorem Single.exists_concat {t : Text} (hs : Single t) (ht : Terminated t) :
  ∃ init d, t = init ++ [d] ∧ (∀ c ∈ init, endsStatement c = false) ∧ endsStatement d = true
  := by
  obtain ⟨d, hd, he⟩ := ht
  obtain ⟨init, rfl⟩ := List.getLast?_eq_some_iff.mp hd
  rw [Single, List.dropLast_concat] at hs
  exact ⟨init, d, rfl, hs, he⟩

/-- A piece that is not terminated holds no end of a statement. -/
theorem Single.forall_not {t : Text} (hs : Single t) (ht : ¬ Terminated t) :
  ∀ c ∈ t, endsStatement c = false
  := by
  rcases List.eq_nil_or_concat t with rfl | ⟨init, d, rfl⟩
  · rintro c ⟨⟩
  · rw [List.concat_eq_append] at hs ht ⊢
    rw [Single, List.dropLast_concat] at hs
    intro c hc
    rcases List.mem_append.mp hc with hc | hc
    · apply hs c hc
    · obtain rfl := List.mem_singleton.mp hc
      apply Bool.eq_false_iff.mpr
      intro he
      exact ht ⟨c, List.getLast?_concat, he⟩

/-- Every piece of a line is terminated but the last one. -/
theorem pairwise_cut (line : Text) :
  (cut line).Pairwise fun p _ => Terminated p
  := by
  induction line with
  | nil => apply List.pairwise_singleton
  | cons c t ih =>
      rw [cut] at ih ⊢
      rw [cutAlong]
      split
      · next hc =>
        apply List.Pairwise.cons _ ih
        intro _ _
        exact ⟨c, rfl, hc⟩
      · split
        · apply List.pairwise_singleton
        · next p ps hp =>
          rw [hp] at ih
          obtain ⟨hterminated, hps⟩ := List.pairwise_cons.mp ih
          apply List.Pairwise.cons _ hps
          intro q hq
          apply (hterminated q hq).cons

/-- A piece that holds an end of a statement is terminated, and so it is when trimmed. -/
theorem Single.terminated_trim {t : Text} (hs : Single t) {c : Char} (hc : c ∈ t)
    (he : endsStatement c = true) :
  Terminated (trim t)
  := by
  have hne : t ≠ [] := List.ne_nil_of_mem hc
  rw [← List.dropLast_concat_getLast hne] at hc ⊢
  have hlast : c = t.getLast hne := by
    rcases List.mem_append.mp hc with hc | hc
    · rw [hs c hc] at he
      cases he
    · simpa using hc
  have hblank : isBlank (t.getLast hne) = false := by
    rw [← hlast]
    simp only [endsStatement, Bool.or_eq_true, beq_iff_eq] at he
    rcases he with (rfl | rfl) | rfl <;> rfl
  rw [trim_concat _ hblank]
  exact ⟨t.getLast hne, by simp, hlast ▸ he⟩

/-- A piece holds at most one brace. -/
theorem Single.count_le_one {t : Text} (hs : Single t) :
  t.count '\x7b' + t.count '\x7d' ≤ 1
  := by
  rcases List.eq_nil_or_concat t with rfl | ⟨init, c, rfl⟩
  · simp
  · have hinit : ∀ d ∈ init, endsStatement d = false := by simpa [Single] using hs
    have hopen : init.count '\x7b' = 0 := List.count_eq_zero.mpr fun h => by
      simpa [endsStatement] using hinit _ h
    have hclose : init.count '\x7d' = 0 := List.count_eq_zero.mpr fun h => by
      simpa [endsStatement] using hinit _ h
    by_cases ho : c = '\x7b'
    · subst ho
      simp [List.concat_eq_append, hopen, hclose]
    · simp only [List.concat_eq_append, List.count_append, hopen, hclose, Nat.zero_add,
        List.count_singleton]
      split <;> split <;> simp_all

/-! ### Where the next statement begins -/

/-- A line whose guide has no end of a statement is one piece. -/
theorem cutAlong_of_forall_not {guide p : Text} (h : ∀ c ∈ guide, endsStatement c = false)
    (hlength : guide.length = p.length) :
  cutAlong guide p = [p]
  := by
  induction guide generalizing p with
  | nil =>
      obtain rfl := List.length_eq_zero_iff.mp hlength.symm
      rfl
  | cons g guide ih =>
      obtain ⟨c, p, rfl⟩ := List.exists_cons_of_length_eq_add_one hlength.symm
      obtain ⟨hg, hguide⟩ := List.forall_mem_cons.mp h
      rw [cutAlong, hg, ih hguide (Nat.succ.inj hlength)]
      rfl

/-- Behind the end of a statement in the guide the next piece begins. -/
theorem cutAlong_append_cons {guide p : Text} (h : ∀ c ∈ guide, endsStatement c = false)
    (hlength : guide.length = p.length) {d : Char} (hd : endsStatement d = true) (rest : Text)
    (e : Char) (t : Text) :
  cutAlong (guide ++ d :: rest) (p ++ e :: t) = (p ++ [e]) :: cutAlong rest t
  := by
  induction guide generalizing p with
  | nil =>
      obtain rfl := List.length_eq_zero_iff.mp hlength.symm
      rw [List.nil_append, List.nil_append, cutAlong, if_pos hd, List.nil_append]
  | cons g guide ih =>
      obtain ⟨c, p, rfl⟩ := List.exists_cons_of_length_eq_add_one hlength.symm
      obtain ⟨hg, hguide⟩ := List.forall_mem_cons.mp h
      rw [List.cons_append, List.cons_append, cutAlong, hg, ih hguide (Nat.succ.inj hlength)]
      rfl

/-- A line without the end of a statement is one statement. -/
theorem cut_of_forall_not {p : Text} (h : ∀ c ∈ p, endsStatement c = false) :
  cut p = [p]
  := cutAlong_of_forall_not h rfl

/-- Behind the end of a statement the next one begins. -/
theorem cut_append_cons {p : Text} (h : ∀ c ∈ p, endsStatement c = false) {d : Char}
    (hd : endsStatement d = true) (t : Text) :
  cut (p ++ d :: t) = (p ++ [d]) :: cut t
  := cutAlong_append_cons h rfl hd t d t

/-- Behind a terminated piece of the guide the next piece begins. -/
theorem Single.cutAlong_append {guide p : Text} (hs : Single guide) (ht : Terminated guide)
    (hlength : guide.length = p.length) (rest t : Text) :
  cutAlong (guide ++ rest) (p ++ t) = p :: cutAlong rest t
  := by
  obtain ⟨init, d, rfl, hinit, hd⟩ := hs.exists_concat ht
  rcases List.eq_nil_or_concat p with rfl | ⟨written, c, rfl⟩
  · rw [List.length_append] at hlength
    cases hlength
  · rw [List.concat_eq_append] at hlength ⊢
    rw [List.length_append, List.length_append] at hlength
    rw [List.append_assoc, List.append_assoc, List.singleton_append, List.singleton_append,
      cutAlong_append_cons hinit (Nat.add_right_cancel hlength) hd]

/-- Behind a terminated piece the next one begins. -/
theorem Single.cut_append {p : Text} (hs : Single p) (ht : Terminated p) (t : Text) :
  cut (p ++ t) = p :: cut t
  := hs.cutAlong_append ht rfl t t

theorem cutAlong_ne_nil (guide t : Text) :
  cutAlong guide t ≠ []
  := by
  fun_cases cutAlong guide t with
  | case1 => simp
  | case2 => simp
  | case3 => simp
  | case4 => simp

/-- The end of a statement cuts a stylesheet. -/
theorem statementsOf_append_end {p : Text} (h : ∀ c ∈ p, endsStatement c = false)
    (hline : '\n' ∉ p) {d : Char} (hd : endsStatement d = true) (t : Text) :
  statementsOf (p ++ d :: t) = (p ++ [d]) :: statementsOf t
  := by
  have hne : d ≠ '\n' := by
    rintro rfl
    cases hd
  have hlines : ∃ l ls, lines t = l :: ls ∧ lines (p ++ d :: t) = (p ++ d :: l) :: ls := by
    induction p with
    | nil => exact splitOn_cons_of_ne hne t
    | cons c p ih =>
        obtain ⟨hc, hp⟩ := not_or.mp (mt List.mem_cons.mpr hline)
        obtain ⟨l, ls, ht, hpt⟩ := ih (List.forall_mem_cons.mp h).2 hp
        use l, ls, ht
        obtain ⟨q, qs, hq, hcq⟩ := splitOn_cons_of_ne (Ne.symm hc) (p ++ d :: t)
        obtain ⟨rfl, rfl⟩ := List.cons.inj (hpt.symm.trans hq)
        exact hcq
  obtain ⟨l, ls, ht, hpt⟩ := hlines
  rw [statementsOf, hpt, statementsOf, ht, List.flatMap_cons, List.flatMap_cons,
    cut_append_cons h hd]
  rfl

/-- The end of a line cuts a stylesheet. -/
theorem statementsOf_append_lineFeed {p : Text} (h : ∀ c ∈ p, endsStatement c = false)
    (hline : '\n' ∉ p) (t : Text) :
  statementsOf (p ++ '\n' :: t) = p :: statementsOf t
  := by
  rw [statementsOf, lines, splitOn_append_cons hline, List.flatMap_cons, cut_of_forall_not h]
  rfl

/-! ### The lines of a masked stylesheet -/

/-- Masking leaves the line feeds where they are. -/
theorem map_lineFeed_mask (t : Text) :
  (mask t).map (· == '\n') = t.map (· == '\n')
  := (masks_mask t).lineFeeds

theorem lineFeed_notMem_mask {t : Text} (h : '\n' ∉ t) :
  '\n' ∉ mask t
  := by
  have hfeeds := map_lineFeed_mask t
  intro hmem
  apply h
  have htrue : true ∈ t.map (· == '\n') := by
    rw [← hfeeds]
    exact List.mem_map.mpr ⟨'\n', hmem, rfl⟩
  obtain ⟨c, hc, heq⟩ := List.mem_map.mp htrue
  rwa [← eq_of_beq heq]

theorem length_lines_mask (t : Text) :
  (lines (mask t)).length = (lines t).length
  := by
  have hcount : ∀ u : Text, u.count '\n' = (u.map (· == '\n')).count true := by
    intro u
    rw [List.count, List.count, List.countP_map]
    congr 1
    funext c
    simp
  rw [lines, lines, length_splitOn, length_splitOn, hcount, hcount, map_lineFeed_mask]

end StylePrune.Stylesheet

namespace StylePrune.Statement

open Text Stylesheet

/-- The cleaned statements of a line are its pieces, up to a last one perhaps. -/
theorem isPrefix_map_clean_pairUp (line : Nat) (raws cleans : List Text) :
  (pairUp line raws cleans).map clean <+: cleans
  := by
  fun_induction pairUp line raws cleans with
  | case1 raw clean => exact List.prefix_rfl
  | case2 raw clean last => exact List.prefix_append [clean] [last]
  | case3 raw raws clean cleans _ _ ih => exact (List.prefix_cons_inj clean).mpr ih
  | case4 => apply List.nil_prefix

theorem line_of_mem_pairUp {line : Nat} {raws cleans : List Text} {st : Statement}
    (h : st ∈ pairUp line raws cleans) :
  st.line = line
  := by
  fun_induction pairUp line raws cleans with
  | case1 raw clean =>
      obtain rfl := List.mem_singleton.mp h
      rfl
  | case2 raw clean =>
      obtain rfl := List.mem_singleton.mp h
      rfl
  | case3 raw raws clean cleans _ _ ih =>
      rcases List.mem_cons.mp h with rfl | h
      · rfl
      · apply ih h
  | case4 => cases h

theorem pairUp_ne_nil {line : Nat} {raws cleans : List Text} (hraws : raws ≠ [])
    (hlength : raws.length = cleans.length) :
  pairUp line raws cleans ≠ []
  := by
  fun_cases pairUp line raws cleans with
  | case1 => simp
  | case2 => simp
  | case3 => simp
  | case4 raws cleans _ _ hcons =>
      obtain ⟨raw, raws, rfl⟩ := List.exists_cons_of_ne_nil hraws
      obtain ⟨clean, cleans, rfl⟩ := List.exists_cons_of_length_eq_add_one hlength.symm
      exact absurd rfl (hcons raw raws clean cleans rfl)

/-- Rows of statements that lie on lines from a number on, at least one on each: together they are
written as the line is, and cleaned they begin the pieces of the cleaned line. -/
inductive Rows : Nat → List Text → List Text → List (List Statement) → Prop
  | nil (line : Nat) : Rows line [] [] []
  | cons {line : Nat} {raw clean : Text} {raws cleans : List Text} {row : List Statement}
      {rows : List (List Statement)} (row_ne : row ≠ []) (raw_eq : row.flatMap Statement.raw = raw)
      (clean_starts : row.map Statement.clean <+: cut clean) (line_eq : ∀ st ∈ row, st.line = line)
      (behind : Rows (line + 1) raws cleans rows) :
      Rows line (raw :: raws) (clean :: cleans) (row :: rows)

/-- The statements of lines are those of the first line and those of the others. -/
theorem pairLines_cons_eq_ok {line : Nat} {raw clean masked : Text}
    {raws cleans maskeds : List Text} {statements : List Statement}
    (h : pairLines line (raw :: raws) (clean :: cleans) (masked :: maskeds) = .ok statements) :
  ∃ row others, pairLine line raw clean masked = .ok row
    ∧ pairLines (line + 1) raws cleans maskeds = .ok others ∧ row ++ others = statements
  := by
  rw [pairLines] at h
  cases hrow : pairLine line raw clean masked with
  | error anomaly => rw [hrow] at h; cases h
  | ok row =>
      cases hothers : pairLines (line + 1) raws cleans maskeds with
      | error anomaly => rw [hrow, hothers] at h; cases h
      | ok others =>
          rw [hrow, hothers] at h
          exact ⟨row, others, rfl, rfl, Except.ok.inj h⟩

theorem exists_rows_of_pairLines {line : Nat} {raws cleans maskeds : List Text}
    {statements : List Statement} (hcleans : raws.length = cleans.length)
    (hmaskeds : raws.length = maskeds.length)
    (h : pairLines line raws cleans maskeds = .ok statements) :
  ∃ rows, Rows line raws cleans rows ∧ rows.flatten = statements
  := by
  induction raws generalizing line cleans maskeds statements with
  | nil =>
      obtain rfl := List.length_eq_zero_iff.mp hcleans.symm
      obtain rfl := Except.ok.inj h
      exact ⟨[], .nil line, rfl⟩
  | cons raw raws ih =>
      obtain ⟨clean, cleans, rfl⟩ := List.exists_cons_of_length_eq_add_one hcleans.symm
      obtain ⟨masked, maskeds, rfl⟩ := List.exists_cons_of_length_eq_add_one hmaskeds.symm
      obtain ⟨row, others, hrow, hothers, rfl⟩ := pairLines_cons_eq_ok h
      obtain ⟨rows, hrows, rfl⟩ := ih (Nat.succ.inj hcleans) (Nat.succ.inj hmaskeds) hothers
      use row :: rows
      constructor
      · have hraw := flatten_raw_of_pairLine hrow
        rw [pairLine] at hrow
        split at hrow
        · next hlength =>
          obtain rfl := Except.ok.inj hrow
          apply Rows.cons _ _ _ _ hrows
          · exact pairUp_ne_nil (cutAlong_ne_nil masked raw) hlength
          · rw [List.flatMap, hraw]
          · apply isPrefix_map_clean_pairUp
          · intro st hst
            apply line_of_mem_pairUp hst
        · cases hrow
      · rfl

namespace Rows

variable {line : Nat} {raws cleans : List Text} {rows : List (List Statement)}

theorem map_raw (h : Rows line raws cleans rows) :
  rows.map (fun row => row.flatMap Statement.raw) = raws
  := by
  induction h with
  | nil => rfl
  | cons _ hraw _ _ _ ih => rw [List.map_cons, hraw, ih]

theorem clean_starts (h : Rows line raws cleans rows) :
  ∀ row ∈ rows, ∃ clean ∈ cleans, row.map Statement.clean <+: cut clean
  := by
  induction h with
  | nil =>
      rintro row ⟨⟩
  | @cons _ _ clean _ _ _ _ _ _ hclean _ _ ih =>
      intro row' hrow
      rcases List.mem_cons.mp hrow with rfl | hrow
      · exact ⟨clean, List.mem_cons_self, hclean⟩
      · obtain ⟨clean', hmem, hstarts⟩ := ih row' hrow
        exact ⟨clean', List.mem_cons_of_mem clean hmem, hstarts⟩

/-- On a line every statement is terminated but the last one. -/
theorem pairwise_row (h : Rows line raws cleans rows) {row : List Statement} (hrow : row ∈ rows) :
  row.Pairwise fun a _ => Terminated a.clean
  := by
  obtain ⟨clean, -, hstarts⟩ := h.clean_starts row hrow
  have hcut := (pairwise_cut clean).sublist hstarts.sublist
  rwa [List.pairwise_map] at hcut

theorem le_line (h : Rows line raws cleans rows) :
  ∀ st ∈ rows.flatten, line ≤ st.line
  := by
  induction h with
  | nil =>
      rintro st ⟨⟩
  | cons _ _ _ hline _ ih =>
      intro st hst
      rw [List.flatten_cons] at hst
      rcases List.mem_append.mp hst with hst | hst
      · rw [hline st hst]
      · apply Nat.le_of_succ_le (ih st hst)

/-- A statement is terminated if another one follows on its line. -/
theorem pairwise_flatten (h : Rows line raws cleans rows) :
  rows.flatten.Pairwise fun a b => a.line = b.line → Terminated a.clean
  := by
  induction h with
  | nil => apply List.Pairwise.nil
  | @cons line _ _ _ _ row rows hne hraw hclean hline behind ih =>
      have hrows := Rows.cons hne hraw hclean hline behind
      rw [List.flatten_cons, List.pairwise_append]
      and_intros
      · apply (hrows.pairwise_row List.mem_cons_self).imp
        intro a b hterminated _
        exact hterminated
      · exact ih
      · intro a ha b hb heq
        have hlt : line < b.line := behind.le_line b hb
        rw [← heq, hline a ha] at hlt
        exact absurd hlt (Nat.lt_irrefl line)

end Rows

/-- The statements of a stylesheet lie on its lines. -/
theorem exists_rows_of_split {t : Text} {statements : List Statement}
    (h : split t = .ok statements) :
  ∃ rows, Rows 0 (lines t) (lines (strip t)) rows ∧ rows.flatten = statements
  := by
  rw [split] at h
  split at h
  · next hlength => apply exists_rows_of_pairLines hlength (length_lines_mask t).symm h
  · cases h

/-- What holds of a piece of a cleaned line holds of a cleaned statement. -/
theorem exists_mem_cut_of_mem_split {t : Text} {statements : List Statement}
    (h : split t = .ok statements) {st : Statement} (hst : st ∈ statements) :
  ∃ line ∈ lines (strip t), st.clean ∈ cut line
  := by
  obtain ⟨rows, hrows, rfl⟩ := exists_rows_of_split h
  obtain ⟨row, hrow, hmem⟩ := List.mem_flatten.mp hst
  obtain ⟨clean, hclean, hstarts⟩ := hrows.clean_starts row hrow
  exact ⟨clean, hclean, hstarts.subset (List.mem_map_of_mem hmem)⟩

/-- The cleaned statements of a stylesheet hold no end of a statement but at their own ends. -/
theorem single_of_mem_split {t : Text} {statements : List Statement}
    (h : split t = .ok statements) {st : Statement} (hst : st ∈ statements) :
  Single st.clean
  := by
  obtain ⟨line, -, hcut⟩ := exists_mem_cut_of_mem_split h hst
  apply single_of_mem_cut hcut

/-- A cleaned statement stands on one line. -/
theorem lineFeed_notMem_clean {t : Text} {statements : List Statement}
    (h : split t = .ok statements) {st : Statement} (hst : st ∈ statements) :
  '\n' ∉ st.clean
  := by
  obtain ⟨line, hline, hcut⟩ := exists_mem_cut_of_mem_split h hst
  intro hmem
  apply notMem_of_mem_splitOn hline
  rw [← flatten_cutAlong line line]
  exact List.mem_flatten.mpr ⟨st.clean, hcut, hmem⟩

/-- A statement is written on one line. -/
theorem lineFeed_notMem_raw {t : Text} {statements : List Statement}
    (h : split t = .ok statements) {st : Statement} (hst : st ∈ statements) :
  '\n' ∉ st.raw
  := by
  obtain ⟨rows, hrows, rfl⟩ := exists_rows_of_split h
  obtain ⟨row, hrow, hmem⟩ := List.mem_flatten.mp hst
  have hline : row.flatMap Statement.raw ∈ lines t := by
    rw [← hrows.map_raw]
    apply List.mem_map_of_mem hrow
  intro hfeed
  apply notMem_of_mem_splitOn hline
  exact List.mem_flatMap.mpr ⟨st, hmem, hfeed⟩

end StylePrune.Statement
