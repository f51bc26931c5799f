import Mathlib.Data.List.SplitBy
import StylePrune.Proofs.Prune.Apart
import StylePrune.Proofs.Prune.Glue
import StylePrune.Proofs.Stylesheet.Plain

/-!
# Lines of one statement

Where every line is one statement and nothing is noise, the statements of a stylesheet are its
lines.  `Reads` says what a removal makes of such lines, line by line, and the new text is made of
the lines that it keeps.
-/

namespace StylePrune.Prune

open Text Stylesheet

/-- A line without noise that is one statement, or empty. -/
structure Lone (l : Text) : Prop where
  plain : Plain l
  line : '\n' ∉ l
  single : Single l
  terminated : l = [] ∨ Terminated l

/-- Statements on lines of their own, from a line number on. -/
def numbered (line : Nat) : List Text → List Statement
  | [] => []
  | l :: ls => ⟨l, l, line⟩ :: numbered (line + 1) ls

/-! ### The statements of lone lines -/

namespace Lone

variable {l : Text}

theorem nil :
  Lone []
  := by
  constructor
  · rintro c ⟨⟩
  · apply List.not_mem_nil
  · rintro c ⟨⟩
  · exact .inl rfl

/-- A line whose only end of a statement is its last character. -/
theorem concat {t : Text} {d : Char} (hplain : Plain (t ++ [d])) (hline : '\n' ∉ t)
    (h : ∀ c ∈ t, endsStatement c = false) (hd : endsStatement d = true) :
  Lone (t ++ [d])
  := by
  constructor
  · exact hplain
  · intro hmem
    rcases List.mem_append.mp hmem with hmem | hmem
    · exact hline hmem
    · obtain rfl := List.mem_singleton.mp hmem
      cases hd
  · rw [Single, List.dropLast_concat]
    exact h
  · right
    use d, List.getLast?_concat

/-- A lone line is blank only if it is empty. -/
theorem blank_eq_false (h : Lone l) (hne : l ≠ []) :
  blank l = false
  := by
  apply Bool.eq_false_iff.mpr
  intro hblank
  obtain ⟨c, hlast, hc⟩ := h.terminated.resolve_left hne
  have hc' := List.all_eq_true.mp hblank c (List.mem_of_getLast? hlast)
  simp only [endsStatement, Bool.or_eq_true, beq_iff_eq] at hc
  rcases hc with (rfl | rfl) | rfl
  all_goals cases hc'

theorem pairLine_eq (h : Lone l) (line : Nat) :
  Statement.pairLine line l l l = .ok [⟨l, l, line⟩]
  := by
  rcases h.terminated with rfl | hterminated
  · rfl
  · have hcut := h.single.cut_append hterminated []
    rw [List.append_nil] at hcut
    have hcutAlong : cutAlong l l = l :: cut [] := hcut
    rw [Statement.pairLine, hcutAlong, hcut]
    rfl

end Lone

section Lines

variable {ls : List Text} (h : ∀ l ∈ ls, Lone l)

include h

theorem pairLines_lone (line : Nat) :
  Statement.pairLines line ls ls ls = .ok (numbered line ls)
  := by
  induction ls generalizing line with
  | nil => rfl
  | cons l ls ih =>
      obtain ⟨hl, hls⟩ := List.forall_mem_cons.mp h
      rw [Statement.pairLines, hl.pairLine_eq, ih hls]
      rfl

theorem plain_ofLines :
  Plain (ofLines ls)
  := by
  induction ls with
  | nil =>
      rintro c ⟨⟩
  | cons l ls ih =>
      obtain ⟨hl, hls⟩ := List.forall_mem_cons.mp h
      cases ls with
      | nil => exact hl.plain
      | cons m ls => exact hl.plain.append (Plain.cons (by decide) (ih hls))

/-- The statements of lone lines are the lines. -/
theorem split_ofLines (hne : ls ≠ []) :
  Statement.split (ofLines ls) = .ok (numbered 0 ls)
  := by
  have hlines : lines (ofLines ls) = ls := lines_ofLines hne fun l hl => (h l hl).line
  have hplain := plain_ofLines h
  rw [Statement.split, hplain.strip_eq, hplain.mask_eq, hlines, if_pos rfl, pairLines_lone h]

end Lines

/-! ### Reading lone lines -/

/-- A removal goes from one state to another over lines, of which it keeps some, whatever
follows. -/
inductive Reads (names : List Text) : State → Nat → List Text → List Text → State → Prop
  | nil (s : State) (line : Nat) : Reads names s line [] [] s
  | keep {s s' s'' : State} {line : Nat} {l : Text} {ls kept : List Text}
      (step : ∀ following, s.step names ⟨l, l, line⟩ following = (.kept, s'))
      (behind : Reads names s' (line + 1) ls kept s'') :
      Reads names s line (l :: ls) (l :: kept) s''
  | cut {s s' s'' : State} {line : Nat} {l : Text} {ls kept : List Text}
      (step : ∀ following, s.step names ⟨l, l, line⟩ following = (.cut, s'))
      (behind : Reads names s' (line + 1) ls kept s'') : Reads names s line (l :: ls) kept s''

namespace Reads

variable {names : List Text} {s s' s'' : State} {line : Nat} {ls ms kept kept' : List Text}

theorem append (h : Reads names s line ls kept s')
    (h' : Reads names s' (line + ls.length) ms kept' s'') :
  Reads names s line (ls ++ ms) (kept ++ kept') s''
  := by
  induction h with
  | nil => exact h'
  | keep hstep _ ih =>
      apply Reads.keep hstep (ih _)
      rwa [List.length_cons, ← Nat.add_assoc, Nat.add_right_comm] at h'
  | cut hstep _ ih =>
      apply Reads.cut hstep (ih _)
      rwa [List.length_cons, ← Nat.add_assoc, Nat.add_right_comm] at h'

/-- A removal gives its verdicts line by line. -/
theorem judge_eq (h : Reads names s line ls kept s') :
  (judge names s (numbered line ls)).2 = s'
    ∧ (keptRow (judge names s (numbered line ls)).1).map Statement.raw = kept
  := by
  induction h with
  | nil => exact ⟨rfl, rfl⟩
  | keep hstep _ ih =>
      rw [numbered, judge, hstep]
      use ih.1
      rw [keptRow, List.filter_cons_of_pos rfl, List.map_cons, List.map_cons]
      exact congrArg _ ih.2
  | cut hstep _ ih =>
      rw [numbered, judge, hstep]
      use ih.1
      rw [keptRow, List.filter_cons_of_neg (by simp)]
      exact ih.2

end Reads

/-! ### The new text -/

theorem pairwise_line_numbered (line : Nat) (ls : List Text) :
  (numbered line ls).Pairwise (fun a b => a.line < b.line) ∧ ∀ st ∈ numbered line ls, line ≤ st.line
  := by
  induction ls generalizing line with
  | nil =>
      constructor
      · apply List.Pairwise.nil
      · rintro st ⟨⟩
  | cons l ls ih =>
      obtain ⟨hpairwise, hle⟩ := ih (line + 1)
      constructor
      · apply hpairwise.cons hle
      · intro st hst
        rcases List.mem_cons.mp hst with rfl | hst
        · apply Nat.le_refl
        · apply Nat.le_of_succ_le (hle st hst)

/-- Statements on lines of their own are gathered one by one. -/
theorem byLine_eq_map {judged : List (Statement × Verdict)}
    (h : (judged.map Prod.fst).Pairwise fun a b => a.line < b.line) :
  byLine judged = judged.map fun j => [j]
  := by
  have hflatten : (judged.map fun j => [j]).flatten = judged := by
    induction judged with
    | nil => rfl
    | cons j judged ih =>
        rw [List.map_cons, List.flatten_cons, ih (List.Pairwise.of_cons h)]
        rfl
  have hsplit := List.splitBy_flatten (r := fun a b => a.1.line == b.1.line)
    (l := judged.map fun j => [j])
  rw [hflatten] at hsplit
  apply hsplit
  · simp
  · intro m hm
    obtain ⟨j, -, rfl⟩ := List.mem_map.mp hm
    apply List.isChain_singleton
  · rw [List.isChain_map]
    rw [List.pairwise_map] at h
    apply h.isChain.imp
    intro a b hlt
    use List.cons_ne_nil _ _, List.cons_ne_nil _ _
    simpa using Nat.ne_of_lt hlt

/-- Lines that are not blank stay as they are. -/
theorem collapseAfter_of_forall_not {limit : Nat} (hlimit : 0 < limit) {ls : List Text}
    (h : ∀ l ∈ ls, blank l = false) {last : List Text} (hlast : last = [] ∨ last = [[]]) :
  collapseBlanks limit (ls ++ last) = ls ++ last
  := by
  rw [collapseBlanks]
  induction ls with
  | nil =>
      rcases hlast with rfl | rfl
      · rfl
      · rw [List.nil_append, collapseAfter, blank_nil, if_pos rfl, if_pos hlimit]
        rfl
  | cons l ls ih =>
      obtain ⟨hl, hls⟩ := List.forall_mem_cons.mp h
      rw [List.cons_append, collapseAfter, hl, if_neg (by decide), ih hls]

/-- Where every line is one statement the new text is made of the lines that are kept. -/
theorem rebuild_eq {judged : List (Statement × Verdict)}
    (h : (judged.map Prod.fst).Pairwise fun a b => a.line < b.line) :
  rebuild judged = ofLines (collapseBlanks maxBlankRun ((keptRow judged).map Statement.raw))
  := by
  have hrows : ∀ js : List (Statement × Verdict),
      ((js.map fun j => [j]).filter fun line => !goes line).map keptOf
        = (keptRow js).map Statement.raw := by
    intro js
    induction js with
    | nil => rfl
    | cons j js ih =>
        obtain ⟨st, verdict⟩ := j
        cases verdict with
        | kept =>
            have hraw : keptOf [(st, .kept)] = st.raw := List.append_nil st.raw
            rw [List.map_cons, List.filter_cons_of_pos rfl, List.map_cons, ih, hraw, keptRow,
              keptRow, List.filter_cons_of_pos rfl]
            rfl
        | cut =>
            have hgoes : goes [(st, .cut)] = true := rfl
            rw [List.map_cons, List.filter_cons_of_neg (by simp [hgoes]), ih, keptRow, keptRow,
              List.filter_cons_of_neg (by simp)]
  rw [rebuild, byLine_eq_map h, hrows]

/-- Where every line is one statement, a removal that has come to the end of each block leaves the
lines that it keeps, if there are no runs of blank lines among them. -/
theorem Reads.remove_eq {names : List Text} {ls kept : List Text} {s : State}
    (h : Reads names {} 0 ls kept s) (hlone : ∀ l ∈ ls, Lone l) (hne : ls ≠ [])
    (hnames : names ≠ []) (hphase : s.phase = .copying)
    (hkept : collapseBlanks maxBlankRun kept = kept)
    (hself : s.blocks = 0 → kept = ls ∧ s.removed = []) :
  remove (ofLines ls) names
    = { text := ofLines kept, removed := s.removed, blocks := s.blocks, anomalies := [] }
  := by
  obtain ⟨hjudge, hraw⟩ := h.judge_eq
  have hunclosed : s.unclosed = [] := by
    rw [State.unclosed, hphase]
  rw [remove, if_neg hnames, split_ofLines hlone hne]
  dsimp only
  rw [hjudge, hunclosed]
  split
  · next hzero =>
    obtain ⟨rfl, hremoved⟩ := hself hzero
    rw [hzero, hremoved]
  · rw [rebuild_eq, hraw, hkept]
    rw [map_fst_judge]
    apply (pairwise_line_numbered 0 ls).1

end StylePrune.Prune
