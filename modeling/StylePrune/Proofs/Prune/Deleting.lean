import Mathlib.Data.List.Flatten
import Mathlib.Data.List.Forall2
import Mathlib.Data.List.SplitBy
import Mathlib.Order.WellFounded
import StylePrune.Proofs.Prune.Glue
import StylePrune.Proofs.Prune.InStep
import StylePrune.Proofs.Stylesheet.Lines

/-!
# A removal only deletes

The new text of a removal is made of lines, each of which is what was kept of a line of the old one
(`rebuild_sublist`), so characters are left out and nothing else happens to the text.  Where a
block is removed some character goes with it: the selector line where the removal starts is more
than blanks when it is cleaned, and so it was not written with no character.  Cleaning a stylesheet
over and over comes to rest therefore.
-/

namespace StylePrune.Text

/-- Lines may be left out and shortened. -/
theorem ofLines_sublist {ls ms : List Text} (h : List.SublistForall₂ List.Sublist ls ms) :
  (ofLines ls).Sublist (ofLines ms)
  := by
  induction h with
  | nil => apply List.nil_sublist
  | @cons l m ls ms hl hls ih =>
      cases hls with
      | nil =>
          cases ms with
          | nil => exact hl
          | cons m' ms => exact hl.trans (List.sublist_append_left m _)
      | cons hl' hls' => exact hl.append (ih.cons_cons '\n')
      | cons_right hls' =>
          cases ls with
          | nil => exact hl.trans (List.sublist_append_left m _)
          | cons l' ls => exact hl.append (ih.cons_cons '\n')
  | @cons_right m ls ms hls ih =>
      cases ms with
      | nil =>
          cases hls
          apply List.nil_sublist
      | cons m' ms => exact (ih.cons '\n').trans (List.sublist_append_right m _)

/-- The characters of a text that are no line feeds are those of its lines. -/
theorem filter_ofLines {ls : List Text} (h : ∀ l ∈ ls, '\n' ∉ l) :
  (ofLines ls).filter (· != '\n') = ls.flatten
  := by
  have hline : ∀ l : Text, '\n' ∉ l → l.filter (· != '\n') = l := by
    intro l hl
    apply List.filter_eq_self.mpr
    rintro c hc
    apply bne_iff_ne.mpr
    rintro rfl
    exact hl hc
  induction ls with
  | nil => rfl
  | cons l ls ih =>
      obtain ⟨hl, hls⟩ := List.forall_mem_cons.mp h
      cases ls with
      | nil => rw [List.flatten_singleton, ofLines, joinWith, hline l hl]
      | cons m ls =>
          rw [List.flatten_cons, ← ih hls, ofLines, joinWith, List.filter_append, hline l hl]
          rfl

end StylePrune.Text

namespace StylePrune.Prune

open Text Stylesheet

/-! ### Lines of judged statements -/

/-- The statements of a line as they were written. -/
def wholeOf (line : List (Statement × Verdict)) : Text := line.flatMap fun (s, _) => s.raw

theorem keptOf_sublist (line : List (Statement × Verdict)) :
  (keptOf line).Sublist (wholeOf line)
  := List.filter_sublist.flatMap _

/-- The text that is left is a part of the lines. -/
theorem rebuild_sublist (judged : List (Statement × Verdict)) :
  (rebuild judged).Sublist (ofLines ((byLine judged).map wholeOf))
  := by
  apply ofLines_sublist
  obtain ⟨lines, hlines, hmap⟩ := List.sublist_map_iff.mp (leftLines_sublist judged)
  change List.SublistForall₂ List.Sublist (leftLines judged) _
  rw [hmap, List.sublistForall₂_iff]
  use lines.map wholeOf
  constructor
  · rw [List.forall₂_map_left_iff, List.forall₂_map_right_iff, List.forall₂_same]
    intro line _
    exact keptOf_sublist line
  · exact hlines.map wholeOf

/-- The statements of a line stand together, before those of the lines behind it. -/
theorem byLine_append {row behind : List (Statement × Verdict)} {line : Nat} (hne : row ≠ [])
    (hrow : ∀ p ∈ row, p.1.line = line) (hbehind : ∀ p ∈ behind, line < p.1.line) :
  byLine (row ++ behind) = row :: byLine behind
  := by
  have hflatten : row ++ behind = (row :: byLine behind).flatten := by
    rw [List.flatten_cons, flatten_byLine]
  rw [hflatten, byLine]
  apply List.splitBy_flatten
  · rw [List.mem_cons, not_or]
    exact ⟨hne.symm, List.nil_notMem_splitBy _ behind⟩
  · rw [List.forall_mem_cons]
    constructor
    · apply List.Pairwise.isChain
      apply List.pairwise_of_forall_mem_list
      intro a ha b hb
      rw [hrow a ha, hrow b hb]
      exact beq_self_eq_true line
    · intro group hgroup
      exact List.isChain_of_mem_splitBy hgroup
  · have hchain := List.isChain_getLast_head_splitBy
      (fun a b : Statement × Verdict => a.1.line == b.1.line) behind
    refine List.isChain_cons.mpr ⟨?_, hchain⟩
    intro group hgroup
    have hmem := List.mem_of_mem_head? hgroup
    have hgroup_ne := List.ne_nil_of_mem_splitBy hmem
    use hne, hgroup_ne
    have hlt : line < (group.head hgroup_ne).1.line := by
      apply hbehind
      rw [← flatten_byLine behind]
      exact List.mem_flatten.mpr ⟨group, hmem, List.head_mem hgroup_ne⟩
    rw [hrow _ (List.getLast_mem hne)]
    exact beq_eq_false_iff_ne.mpr (Nat.ne_of_lt hlt)

theorem flatten_leftLines_sublist (judged : List (Statement × Verdict)) :
  (leftLines judged).flatten.Sublist ((keptRow judged).flatMap Statement.raw)
  := by
  have hkept : ((byLine judged).map keptOf).flatten = (keptRow judged).flatMap Statement.raw := by
    rw [← flatMap_keptRow_byLine, List.flatMap_assoc, ← List.flatMap_def]
    exact List.flatMap_congr fun line _ => keptOf_eq line
  rw [← hkept]
  exact (leftLines_sublist judged).flatten

theorem map_wholeOf_byLine_of_rows {line : Nat} {raws cleans : List Text}
    {rows : List (List Statement)} (h : Statement.Rows line raws cleans rows)
    {judged : List (Statement × Verdict)} (hjudged : judged.map Prod.fst = rows.flatten) :
  (byLine judged).map wholeOf = raws
  := by
  induction h generalizing judged with
  | nil =>
      obtain rfl := List.map_eq_nil_iff.mp hjudged
      rfl
  | @cons line raw _ _ _ row rows hne hraw _ hline hrows ih =>
      rw [List.flatten_cons] at hjudged
      obtain ⟨first, behind, rfl, rfl, hbehind⟩ := List.map_eq_append_iff.mp hjudged
      have hfirst : ∀ p ∈ first, p.1.line = line := by
        intro p hp
        exact hline p.1 (List.mem_map_of_mem hp)
      have hlater : ∀ p ∈ behind, line < p.1.line := by
        intro p hp
        apply hrows.le_line p.1
        rw [← hbehind]
        exact List.mem_map_of_mem hp
      rw [byLine_append (mt (congrArg (List.map Prod.fst)) hne) hfirst hlater, List.map_cons,
        ih hbehind, ← hraw, List.flatMap_map]
      rfl

/-! ### What is cut -/

/-- Where something is cut a removal starts. -/
theorem exists_starts {names : List Text} {s : State} {statements : List Statement}
    (hs : s.phase = .copying) (h : ¬ ∀ v ∈ visits names s statements, v.Kept names) :
  ∃ v ∈ visits names s statements, v.Starts names
  := by
  induction statements generalizing s with
  | nil => exact absurd (List.forall_mem_nil _) h
  | cons st rest ih =>
      rw [visits_cons] at h ⊢
      rw [List.exists_mem_cons_iff]
      rcases (⟨s, st, rest⟩ : Visit).kept_or_starts_or_skipped names with hk | hstart | hskip
      · right
        apply ih (Visit.phase_next_of_kept hk)
        intro hbehind
        exact h (List.forall_mem_cons.mpr ⟨hk, hbehind⟩)
      · exact .inl hstart
      · exact absurd hs hskip

/-- There is something that goes where a removal starts. -/
theorem Visit.targets_ne_nil {names : List Text} {v : Visit} (hs : v.Starts names) :
  targets names v.reading ≠ []
  := by
  obtain ⟨found, phase, hb, -⟩ := Visit.next_of_starts hs
  obtain ⟨rfl, hne, -⟩ := begins?_eq_some_iff.mp hb
  exact hne

/-- The selector line where a removal starts is written with some character. -/
theorem raw_ne_nil_of_starts {names : List Text} {t : Text} {statements : List Statement}
    (hsplit : Statement.split t = .ok statements) {v : Visit}
    (hv : v ∈ visits names {} statements) (hs : v.Starts names) :
  v.statement.raw ≠ []
  := by
  intro hraw
  apply Visit.solid_of_starts hs
  rw [Visit.text,
    Statement.clean_eq_nil_of_raw_eq_nil hsplit (statement_mem_of_mem_visits hv) hraw]
  rfl

/-- Leaving out an entry that gives something leaves less. -/
theorem length_flatMap_filter_lt {α β : Type} {f : α → List β} {p : α → Bool} {l : List α} {a : α}
    (ha : a ∈ l) (hp : p a = false) (hf : f a ≠ []) :
  ((l.filter p).flatMap f).length < (l.flatMap f).length
  := by
  obtain ⟨before, after, rfl⟩ := List.append_of_mem ha
  have hbefore := ((List.filter_sublist (p := p) (l := before)).flatMap f).length_le
  have hafter := ((List.filter_sublist (p := p) (l := after)).flatMap f).length_le
  have hpos := List.length_pos_of_ne_nil hf
  rw [List.filter_append, List.filter_cons_of_neg (by simp [hp])]
  simp only [List.flatMap_append, List.flatMap_cons, List.length_append]
  omega

/-! ### A whole removal -/

section Cut

variable {names : List Text} {t : Text} {statements : List Statement}
  (hsplit : Statement.split t = .ok statements)

include hsplit

/-- The statements of a line, judged as they are, make up the line as it was written. -/
theorem map_wholeOf_byLine (names : List Text) :
  (byLine (judge names {} statements).1).map wholeOf = lines t
  := by
  obtain ⟨rows, hrows, hflatten⟩ := Statement.exists_rows_of_split hsplit
  apply map_wholeOf_byLine_of_rows hrows
  exact (map_fst_judge names {} statements).trans hflatten.symm

theorem rebuild_judge_sublist (names : List Text) :
  (rebuild (judge names {} statements).1).Sublist t
  := by
  have hsublist := rebuild_sublist (judge names {} statements).1
  rwa [map_wholeOf_byLine hsplit, ofLines_lines] at hsublist

/-- The statements of a stylesheet hold its characters but for the line feeds. -/
theorem filter_eq_flatMap_raw :
  t.filter (· != '\n') = statements.flatMap Statement.raw
  := by
  obtain ⟨rows, hrows, rfl⟩ := Statement.exists_rows_of_split hsplit
  have hlines : ∀ l ∈ lines t, '\n' ∉ l := fun l hl => notMem_of_mem_splitOn hl
  rw [← ofLines_lines t, filter_ofLines hlines, ← hrows.map_raw, List.flatMap_def,
    List.map_flatten, List.flatten_flatten, List.map_map]
  rfl

/-- Where a removal starts the text does not stay as it is. -/
theorem rebuild_judge_ne {v : Visit} (hv : v ∈ visits names {} statements) (hs : v.Starts names) :
  rebuild (judge names {} statements).1 ≠ t
  := by
  have hleft : ∀ l ∈ leftLines (judge names {} statements).1, '\n' ∉ l := by
    intro l hl hfeed
    obtain ⟨line, hline, rfl⟩ := mem_leftLines hl
    have hwhole : wholeOf line ∈ lines t := by
      rw [← map_wholeOf_byLine hsplit names]
      exact List.mem_map_of_mem hline
    exact notMem_of_mem_splitOn hwhole ((keptOf_sublist line).subset hfeed)
  have hlt : ((keptRow (judge names {} statements).1).flatMap Statement.raw).length
      < (statements.flatMap Statement.raw).length := by
    have hall : statements.flatMap Statement.raw
        = (visits names {} statements).flatMap fun v => v.statement.raw := by
      conv_lhs => rw [← map_statement_visits names {} statements, List.flatMap_map]
    rw [keptRow_judge, List.flatMap_map, hall]
    exact length_flatMap_filter_lt hv (by simpa using Visit.not_kept_of_starts hs)
      (raw_ne_nil_of_starts hsplit hv hs)
  intro heq
  have hflatten : (leftLines (judge names {} statements).1).flatten
      = statements.flatMap Statement.raw := by
    rw [← filter_ofLines hleft, ← filter_eq_flatMap_raw hsplit]
    exact congrArg _ heq
  have hle := (flatten_leftLines_sublist (judge names {} statements).1).length_le
  rw [hflatten] at hle
  omega

end Cut

/-- What a removal does to a text if it only deletes. -/
structure Deletes (t : Text) (names : List Text) (r : Removal) : Prop where
  part : r.text.Sublist t
  nodup : r.removed.Nodup
  asked : ∀ name ∈ r.removed, name ∈ names
  removed_iff : r.blocks = 0 ↔ r.removed = []
  text_iff : r.blocks = 0 ↔ r.text = t
  shorter : r.blocks ≠ 0 → r.text.length < t.length

theorem deletes_of_kept {names : List Text} {t : Text} (h : ∀ v ∈ course names t, v.Kept names) :
  Deletes t names (remove t names)
  := by
  obtain ⟨htext, hremoved, hblocks⟩ := (remove_eq_self_iff names t).mpr h
  constructor
  · rw [htext]
  · rw [hremoved]
    exact List.nodup_nil
  · rw [hremoved]
    exact List.forall_mem_nil _
  · exact iff_of_true hblocks hremoved
  · exact iff_of_true hblocks htext
  · intro hne
    exact absurd hblocks hne

theorem deletes_of_not_kept {names : List Text} {t : Text} {statements : List Statement}
    (hsplit : Statement.split t = .ok statements)
    (h : ¬ ∀ v ∈ visits names {} statements, v.Kept names) :
  Deletes t names (remove t names)
  := by
  obtain ⟨hnodup, hasked⟩ := removed_remove names t
  obtain ⟨htext, hremoved, hblocks⟩ := remove_of_not_forall hsplit h
  obtain ⟨v, hv, hs⟩ := exists_starts rfl h
  have hpart := rebuild_judge_sublist hsplit names
  have hne := rebuild_judge_ne hsplit hv hs
  rw [← htext] at hpart hne
  constructor
  · exact hpart
  · exact hnodup
  · intro name hname
    obtain ⟨v, -, -, htarget⟩ := hasked name hname
    exact (mem_of_mem_targets htarget).1
  · refine iff_of_false hblocks ?_
    obtain ⟨name, hname⟩ := List.exists_mem_of_ne_nil _ (Visit.targets_ne_nil hs)
    rw [hremoved]
    exact List.ne_nil_of_mem (mem_removed_judge_iff.mpr (.inr ⟨v, hv, hs, hname⟩))
  · exact iff_of_false hblocks hne
  · intro _
    apply Nat.lt_of_le_of_ne hpart.length_le
    intro hlength
    exact hne (hpart.eq_of_length hlength)

/-- A removal only deletes. -/
theorem deletes (names : List Text) (t : Text) :
  Deletes t names (remove t names)
  := by
  by_cases h : ∀ v ∈ course names t, v.Kept names
  · exact deletes_of_kept h
  · cases hsplit : Statement.split t with
    | error anomaly =>
        rw [course, hsplit] at h
        exact absurd (List.forall_mem_nil _) h
    | ok statements =>
        rw [course, hsplit] at h
        exact deletes_of_not_kept hsplit h

/-! ### Cleaning over and over -/

/-- The texts that a stylesheet becomes when it is cleaned over and over, each time of names of its
own. -/
def cleaned (sets : Nat → List Text) (t : Text) : Nat → Text
  | 0 => t
  | n + 1 => (remove (cleaned sets t n) (sets n)).text

/-- A removal only deletes: the new text has characters of the old one in their order, the names
that are removed are listed once and were asked for, a removal that counts no block has removed no
name and left the text as it is, and no other has, and one that counts a block makes the text
shorter.  So cleaning a stylesheet over and over comes to rest. -/
theorem deletes_remove (names : List Text) (t : Text) :
  Deletes t names (remove t names)
    ∧ ∀ sets : Nat → List Text, ∃ n, ∀ m ≥ n, cleaned sets t m = cleaned sets t n
      ∧ (remove (cleaned sets t m) (sets m)).blocks = 0
  := by
  use deletes names t
  intro sets
  -- a text of the least length, since every removal of a block leaves a shorter one
  let n := Function.argmin fun n => (cleaned sets t n).length
  have hleast : ∀ m, (cleaned sets t n).length ≤ (cleaned sets t m).length := by
    intro m
    exact Function.argmin_le (fun n => (cleaned sets t n).length) m
  have hrest : ∀ m, cleaned sets t m = cleaned sets t n →
      (remove (cleaned sets t m) (sets m)).blocks = 0 := by
    intro m hm
    by_contra hne
    have hlt : (cleaned sets t (m + 1)).length < (cleaned sets t m).length :=
      (deletes (sets m) (cleaned sets t m)).shorter hne
    rw [hm] at hlt
    exact absurd (hleast (m + 1)) (Nat.not_le.mpr hlt)
  use n
  intro m hm
  have heq : cleaned sets t m = cleaned sets t n := by
    induction m, hm using Nat.le_induction with
    | base => rfl
    | succ m _ ih =>
        rw [← ih]
        exact (deletes (sets m) (cleaned sets t m)).text_iff.mp (hrest m ih)
  exact ⟨heq, hrest m heq⟩

/-- A rule with another one inside and a rule with its brace below it go, a line that is left blank
goes with them, and so does a blank line too many. -/
theorem deletes_remove_nested :
  let t := (".a \x7b\n  &__b \x7b \x7d\n\x7d\n\n\n\n.c \x7b \x7d .d\n\x7b \x7d\n"
    ++ ".a:hover \x7b \x7d").toList;
  let names := ["a".toList, "d".toList, "e".toList];
  (remove t names).text = "\n\n.c \x7b \x7d".toList
    ∧ (remove t names).removed = ["a".toList, "d".toList]
    ∧ (remove t names).blocks ≠ 0 ∧ (remove t names).text.length < t.length
  := by
  intro t names
  have hdecided : (remove t names).text = "\n\n.c \x7b \x7d".toList
      ∧ (remove t names).removed = ["a".toList, "d".toList] ∧ (remove t names).blocks ≠ 0 := by
    decide +kernel
  obtain ⟨htext, hremoved, hblocks⟩ := hdecided
  use htext, hremoved, hblocks
  exact (deletes_remove names t).1.shorter hblocks

end StylePrune.Prune
