import Mathlib.Data.List.SplitBy
import StylePrune.Proofs.Prune.Apart
import StylePrune.Proofs.Prune.Untouched

/-!
# The lines that are left

The new text of a removal is made of lines: what was kept of each line, without the lines that a
removal has left blank and without some of those that were blank before.  If the kept statements
stand apart so do these lines, and the new text is made of the kept statements.
-/

namespace StylePrune.Prune

open Text Stylesheet

/-! ### Blank lines -/

theorem trim_of_blank {line : Text} (h : blank line = true) :
  trim line = []
  := by
  have htrim := trim_append_of_blank (List.all_eq_true.mp h) []
  rwa [List.append_nil] at htrim

/-- Cleaning leaves blanks as they are. -/
theorem strip_of_blank {line : Text} (h : blank line = true) :
  strip line = line
  := by
  have hcalm := Calm.nil.append_of_blank (List.all_eq_true.mp h)
  rw [List.append_nil] at hcalm
  apply (hcalm.passes_strip (.inl rfl) _).1
  rintro ⟨⟩

/-- The statements of a line that are more than blanks, when it is cleaned by itself. -/
def solidsOf (line : Text) : List Text := solids (cut (strip line))

theorem solidsOf_of_blank {line : Text} (h : blank line = true) :
  solidsOf line = []
  := by
  have hends : ∀ c ∈ line, endsStatement c = false := by
    intro c hc
    have hblank := List.all_eq_true.mp h c hc
    apply Bool.eq_false_iff.mpr
    intro he
    simp only [endsStatement, Bool.or_eq_true, beq_iff_eq] at he
    rcases he with (rfl | rfl) | rfl
    · cases hblank
    · cases hblank
    · cases hblank
  rw [solidsOf, strip_of_blank h, cut_of_forall_not hends, solids_cons_of_blank (trim_of_blank h)]
  rfl

/-- Entries that give nothing may be left out. -/
theorem flatMap_filter_of_eq_nil {α β : Type} {f : α → List β} {p : α → Bool} {l : List α}
    (h : ∀ a ∈ l, p a = false → f a = []) :
  (l.filter p).flatMap f = l.flatMap f
  := by
  induction l with
  | nil => rfl
  | cons a l ih =>
      obtain ⟨ha, hl⟩ := List.forall_mem_cons.mp h
      cases hp : p a with
      | true => rw [List.filter_cons_of_pos hp, List.flatMap_cons, List.flatMap_cons, ih hl]
      | false => rw [List.filter_cons_of_neg (by simp [hp]), List.flatMap_cons, ha hp, ih hl,
          List.nil_append]

/-- Shortening runs of blank lines leaves the other lines. -/
theorem filter_collapseAfter (limit run : Nat) (ls : List Text) :
  (collapseAfter limit run ls).filter (fun l => !blank l) = ls.filter fun l => !blank l
  := by
  induction ls generalizing run with
  | nil => rfl
  | cons l ls ih =>
      rw [collapseAfter]
      cases hl : blank l with
      | true =>
          rw [if_pos rfl, List.filter_cons_of_neg (by simp [hl])]
          split
          · rw [List.filter_cons_of_neg (by simp [hl]), ih]
          · apply ih
      | false =>
          rw [if_neg (by simp), List.filter_cons_of_pos (by simp [hl]),
            List.filter_cons_of_pos (by simp [hl]), ih]

/-! ### Lines of judged statements -/

/-- The statements of a line that are kept. -/
def keptRow (line : List (Statement × Verdict)) : List Statement :=
  (line.filter (·.2 == .kept)).map Prod.fst

theorem keptOf_eq (line : List (Statement × Verdict)) :
  keptOf line = (keptRow line).flatMap Statement.raw
  := by
  rw [keptRow, List.flatMap_map]
  rfl

/-- The lines of the new text. -/
def leftLines (judged : List (Statement × Verdict)) : List Text :=
  collapseBlanks maxBlankRun (((byLine judged).filter fun line => !goes line).map keptOf)

theorem leftLines_sublist (judged : List (Statement × Verdict)) :
  (leftLines judged).Sublist ((byLine judged).map keptOf)
  := (collapseAfter_sublist _ _ _).trans (List.filter_sublist.map keptOf)

theorem mem_leftLines {judged : List (Statement × Verdict)} {l : Text} (h : l ∈ leftLines judged) :
  ∃ line ∈ byLine judged, keptOf line = l
  := List.mem_map.mp ((leftLines_sublist judged).subset h)

/-- The lines that are left hold what was kept of all lines, blanks apart. -/
theorem flatMap_solidsOf_leftLines (judged : List (Statement × Verdict)) :
  (leftLines judged).flatMap solidsOf = (byLine judged).flatMap fun line => solidsOf (keptOf line)
  := by
  have hblank : ∀ ls : List Text, (ls.filter fun l => !blank l).flatMap solidsOf
      = ls.flatMap solidsOf := by
    intro ls
    apply flatMap_filter_of_eq_nil
    intro l _ hl
    apply solidsOf_of_blank (by simpa using hl)
  rw [leftLines, ← hblank, collapseBlanks, filter_collapseAfter, hblank, List.flatMap_map]
  apply flatMap_filter_of_eq_nil
  intro line _ hgoes
  apply solidsOf_of_blank
  simp only [goes, Bool.not_eq_false', Bool.and_eq_true] at hgoes
  exact hgoes.2

/-- Together the lines have the statements in their order. -/
theorem flatten_byLine (judged : List (Statement × Verdict)) :
  (byLine judged).flatten = judged
  := List.flatten_splitBy _ judged

theorem flatMap_keptRow_byLine (judged : List (Statement × Verdict)) :
  (byLine judged).flatMap keptRow = keptRow judged
  := by
  have hflatten : keptRow (byLine judged).flatten = (byLine judged).flatMap keptRow := by
    rw [keptRow, List.filter_flatten, List.map_flatten, List.map_map]
    rfl
  rw [← hflatten, flatten_byLine]

/-- What is kept of a line is terminated but for its last statement. -/
theorem pairwise_keptRow {judged : List (Statement × Verdict)}
    (hpairwise : (judged.map Prod.fst).Pairwise fun a b => a.line = b.line → Terminated a.clean)
    {line : List (Statement × Verdict)} (hline : line ∈ byLine judged) :
  (keptRow line).Pairwise fun a _ => Terminated a.clean
  := by
  have hsublist : line.Sublist judged := by
    rw [← flatten_byLine judged]
    apply List.sublist_flatten_of_mem hline
  have hlines : line.Pairwise fun a b => a.1.line = b.1.line := by
    have htrans : IsTrans (Statement × Verdict) fun a b => a.1.line = b.1.line :=
      ⟨fun _ _ _ => Eq.trans⟩
    apply List.IsChain.pairwise
    apply (List.isChain_of_mem_splitBy hline).imp
    intro a b h
    exact eq_of_beq h
  rw [List.pairwise_map] at hpairwise
  have hterminated := (hpairwise.sublist hsublist).and hlines
  rw [keptRow, List.pairwise_map]
  apply (hterminated.imp _).sublist List.filter_sublist
  rintro a b ⟨h, heq⟩
  exact h heq

/-- A statement that stands apart, as a stylesheet has it. -/
structure Sound (st : Statement) : Prop where
  apart : Apart st
  single : Single st.clean
  lineFeed_written : '\n' ∉ st.raw
  lineFeed_cleaned : '\n' ∉ st.clean

theorem sound_of_mem_split {t : Text} {statements : List Statement}
    (hsplit : Statement.split t = .ok statements) {st : Statement} (hst : st ∈ statements)
    (h : Apart st) :
  Sound st
  := by
  constructor
  · exact h
  · apply Statement.single_of_mem_split hsplit hst
  · apply Statement.lineFeed_notMem_raw hsplit hst
  · apply Statement.lineFeed_notMem_clean hsplit hst

/-- A row of sound statements makes a line that stands apart and falls into them. -/
theorem apartLine_of_sound {row : List Statement}
    (hrow : row.Pairwise fun a _ => Terminated a.clean) (h : ∀ st ∈ row, Sound st) :
  ApartLine (row.flatMap Statement.raw)
    ∧ solidsOf (row.flatMap Statement.raw) = solids (row.map Statement.clean)
  := by
  have happart : ∀ st ∈ row, Apart st := fun st hst => (h st hst).apart
  have hsingle : ∀ st ∈ row, Single st.clean := fun st hst => (h st hst).single
  constructor
  · apply apartLine_row hrow happart hsingle
    · intro st hst
      exact (h st hst).lineFeed_written
    · intro st hst
      exact (h st hst).lineFeed_cleaned
  · rw [solidsOf, strip_row hrow happart, solids_cut_row hrow hsingle]

/-! ### The new text -/

/-- Whether a text is made of lines that stand apart and fall into the given statements. -/
def MadeOf (t : Text) (statements : List Text) : Prop :=
  ∃ ls, t = ofLines ls ∧ (∀ l ∈ ls, ApartLine l) ∧ ls.flatMap solidsOf = solids statements

/-- A stylesheet is made of its statements. -/
theorem madeOf_of_split {t : Text} {statements : List Statement}
    (hsplit : Statement.split t = .ok statements) (h : ∀ st ∈ statements, Apart st) :
  MadeOf t (statements.map Statement.clean)
  := by
  have hsound : ∀ st ∈ statements, Sound st := by
    intro st hst
    apply sound_of_mem_split hsplit hst (h st hst)
  obtain ⟨rows, hrows, rfl⟩ := Statement.exists_rows_of_split hsplit
  have hrow : ∀ row ∈ rows, ApartLine (row.flatMap Statement.raw)
      ∧ solidsOf (row.flatMap Statement.raw) = solids (row.map Statement.clean) := by
    intro row hrow
    apply apartLine_of_sound (hrows.pairwise_row hrow)
    intro st hst
    apply hsound st (List.mem_flatten.mpr ⟨row, hrow, hst⟩)
  use lines t, (ofLines_lines t).symm
  constructor
  · rw [← hrows.map_raw]
    intro l hl
    obtain ⟨row, hmem, rfl⟩ := List.mem_map.mp hl
    exact (hrow row hmem).1
  · rw [← hrows.map_raw, List.flatMap_map, List.flatMap_congr fun row hmem => (hrow row hmem).2,
      flatMap_solids, List.map_flatten]
    rfl

/-- The text that is left is made of the statements that were kept. -/
theorem madeOf_rebuild {judged : List (Statement × Verdict)}
    (hpairwise : (judged.map Prod.fst).Pairwise fun a b => a.line = b.line → Terminated a.clean)
    (h : ∀ st ∈ keptRow judged, Sound st) :
  MadeOf (rebuild judged) ((keptRow judged).map Statement.clean)
  := by
  have hline : ∀ line ∈ byLine judged, ApartLine (keptOf line)
      ∧ solidsOf (keptOf line) = solids ((keptRow line).map Statement.clean) := by
    intro line hline
    rw [keptOf_eq]
    apply apartLine_of_sound (pairwise_keptRow hpairwise hline)
    intro st hst
    apply h st
    rw [← flatMap_keptRow_byLine]
    exact List.mem_flatMap.mpr ⟨line, hline, hst⟩
  use leftLines judged, rfl
  constructor
  · intro l hl
    obtain ⟨line, hmem, rfl⟩ := mem_leftLines hl
    exact (hline line hmem).1
  · rw [flatMap_solidsOf_leftLines, List.flatMap_congr fun line hmem => (hline line hmem).2,
      flatMap_solids, ← flatMap_keptRow_byLine, List.map_flatMap]

theorem keptRow_judge (names : List Text) (s : State) (statements : List Statement) :
  keptRow (judge names s statements).1
    = ((visits names s statements).filter (Visit.Kept names)).map Visit.statement
  := by
  rw [keptRow, judge_eq_visits, List.filter_map, List.map_map]
  congr 1

/-- If the kept statements stand apart the new text is made of them. -/
theorem madeOf_remove {names : List Text} {t : Text} {statements : List Statement}
    (hsplit : Statement.split t = .ok statements)
    (h : ∀ v ∈ keptVisits names t, Apart v.statement) :
  MadeOf (remove t names).text (keptCleans names (course names t))
  := by
  have hcourse : course names t = visits names {} statements := by
    rw [course, hsplit]
  by_cases hall : ∀ v ∈ course names t, v.Kept names
  · -- nothing is removed, and the text is left as it is
    have hcleans : keptCleans names (course names t) = statements.map Statement.clean := by
      rw [keptCleans, List.filter_eq_self.mpr (by simpa using hall), hcourse,
        ← map_statement_visits names {} statements, List.map_map, map_statement_visits]
      rfl
    rw [((remove_eq_self_iff names t).mpr hall).1, hcleans]
    apply madeOf_of_split hsplit
    intro st hst
    rw [← map_statement_visits names {} statements] at hst
    obtain ⟨v, hv, rfl⟩ := List.mem_map.mp hst
    rw [← hcourse] at hv
    apply h v
    exact List.mem_filter.mpr ⟨hv, by simpa using hall v hv⟩
  · have htext : (remove t names).text = rebuild (judge names {} statements).1 := by
      rw [hcourse] at hall
      exact (remove_of_not_forall hsplit hall).1
    have hcleans : keptCleans names (course names t)
        = (keptRow (judge names {} statements).1).map Statement.clean := by
      rw [keptRow_judge, List.map_map, hcourse]
      rfl
    rw [htext, hcleans]
    apply madeOf_rebuild
    · rw [map_fst_judge]
      obtain ⟨rows, hrows, rfl⟩ := Statement.exists_rows_of_split hsplit
      apply hrows.pairwise_flatten
    · intro st hst
      rw [keptRow_judge, ← hcourse] at hst
      obtain ⟨v, hv, rfl⟩ := List.mem_map.mp hst
      apply sound_of_mem_split hsplit _ (h v hv)
      have hmem := List.mem_of_mem_filter hv
      rw [hcourse] at hmem
      exact statement_mem_of_mem_visits hmem

end StylePrune.Prune
