import Mathlib.Data.List.SplitBy
import StylePrune.Prune.BlankRun

/-!
# Collapsing blank lines

Lines fall into stretches, as long as can be, of lines that are all blank or all not.  Collapsing
takes the first lines of a blank stretch, as many as the limit allows, and leaves other stretches as
they are.  So no run of blank lines is left that is longer than the limit, and lines without such a
run are left alone (`collapseBlanks_eq_self`): collapsing twice is collapsing once.
-/

namespace StylePrune.Prune

open Text

/-- The stretches of lines that are all blank or all not, each as long as can be. -/
def stretches (ls : List Text) : List (List Text) := ls.splitBy fun l m => blank l == blank m

/-- The first lines of a blank stretch, as many as the limit allows, or all of another stretch. -/
def shortened (limit : Nat) (stretch : List Text) : List Text :=
  if stretch.all blank then stretch.take limit else stretch

variable {limit : Nat} {ls : List Text}

/-! ### Stretches -/

/-- The lines of a stretch are all blank or all not. -/
theorem blank_eq_of_isChain {l : Text} (h : (l :: ls).IsChain fun l m => blank l == blank m) :
  ∀ m ∈ ls, blank m = blank l
  := by
  induction ls generalizing l with
  | nil => exact List.forall_mem_nil _
  | cons m ls ih =>
      obtain ⟨hm, hls⟩ := List.isChain_cons_cons.mp h
      have hblank : blank m = blank l := (eq_of_beq hm).symm
      intro k hk
      rcases List.mem_cons.mp hk with rfl | hk
      · exact hblank
      · rw [ih hls k hk, hblank]

/-- Of blank lines as many are left as the run may still grow by. -/
theorem collapseAfter_append_of_blank {stretch : List Text} (h : ∀ l ∈ stretch, blank l = true)
    (run : Nat) (rest : List Text) :
  collapseAfter limit run (stretch ++ rest)
    = stretch.take (limit - run) ++ collapseAfter limit (run + stretch.length) rest
  := by
  induction stretch generalizing run with
  | nil => rw [List.take_nil, List.nil_append, List.nil_append, List.length_nil, Nat.add_zero]
  | cons l stretch ih =>
      obtain ⟨hl, hstretch⟩ := List.forall_mem_cons.mp h
      have hlength : run + 1 + stretch.length = run + (l :: stretch).length := by
        rw [List.length_cons]
        omega
      rw [List.cons_append, collapseAfter, if_pos hl, ih hstretch, hlength]
      split
      · next hrun =>
        have hleft : limit - run = limit - (run + 1) + 1 := by omega
        rw [hleft, List.take_succ_cons, List.cons_append]
      · next hrun =>
        have hleft : limit - run = 0 ∧ limit - (run + 1) = 0 := by omega
        rw [hleft.1, hleft.2, List.take_zero, List.take_zero]

theorem collapseAfter_append_of_forall_not {stretch : List Text}
    (h : ∀ l ∈ stretch, blank l = false) (rest : List Text) :
  collapseAfter limit 0 (stretch ++ rest) = stretch ++ collapseAfter limit 0 rest
  := by
  induction stretch with
  | nil => rfl
  | cons l stretch ih =>
      obtain ⟨hl, hstretch⟩ := List.forall_mem_cons.mp h
      rw [List.cons_append, collapseAfter, hl, if_neg (by decide), ih hstretch, List.cons_append]

/-- Where no blank line follows it does not matter how many blank lines there were. -/
theorem collapseAfter_of_head? (h : ∀ l ∈ ls.head?, blank l = false) (run : Nat) :
  collapseAfter limit run ls = collapseAfter limit 0 ls
  := by
  cases ls with
  | nil => rfl
  | cons l ls =>
      have hl : blank l = false := h l rfl
      rw [collapseAfter, collapseAfter, hl, if_neg (by decide)]
      rfl

/-- Stretch after stretch is shortened, if none is empty and no two that follow each other are both
blank or both not. -/
theorem collapseBlanks_flatten {parts : List (List Text)} (hne : [] ∉ parts)
    (hparts : ∀ part ∈ parts, part.IsChain fun l m => blank l == blank m)
    (hbetween : parts.IsChain fun part next =>
      ∃ hpart hnext, (blank (part.getLast hpart) == blank (next.head hnext)) = false) :
  collapseBlanks limit parts.flatten = parts.flatMap (shortened limit)
  := by
  induction parts with
  | nil => rfl
  | cons part parts ih =>
      obtain ⟨hpart, hne⟩ := not_or.mp (mt List.mem_cons.mpr hne)
      obtain ⟨hchain, hparts⟩ := List.forall_mem_cons.mp hparts
      obtain ⟨hnext, hbetween⟩ := List.isChain_cons.mp hbetween
      have hrest : collapseAfter limit 0 parts.flatten = parts.flatMap (shortened limit) :=
        ih hne hparts hbetween
      obtain ⟨l, part, rfl⟩ := List.exists_cons_of_ne_nil (Ne.symm hpart)
      have halike : ∀ m ∈ l :: part, blank m = blank l :=
        List.forall_mem_cons.mpr ⟨rfl, blank_eq_of_isChain hchain⟩
      rw [List.flatten_cons, List.flatMap_cons, collapseBlanks, shortened]
      cases hl : blank l with
      | false =>
          have hnot : ¬ (l :: part).all blank = true := by
            rw [List.all_cons, hl]
            exact Bool.false_ne_true
          rw [hl] at halike
          rw [collapseAfter_append_of_forall_not halike, if_neg hnot, hrest]
      | true =>
          rw [hl] at halike
          -- the next stretch starts with a line that is not blank, so that the count starts anew
          have hhead : ∀ m ∈ parts.flatten.head?, blank m = false := by
            cases parts with
            | nil => rintro m ⟨⟩
            | cons next parts =>
                obtain ⟨hlast, hnonempty, hdiffer⟩ := hnext next rfl
                obtain ⟨k, next, rfl⟩ := List.exists_cons_of_ne_nil hnonempty
                rw [halike _ (List.getLast_mem hlast)] at hdiffer
                rintro m ⟨⟩
                simpa using hdiffer
          rw [collapseAfter_append_of_blank halike, collapseAfter_of_head? hhead, hrest,
            if_pos (List.all_eq_true.mpr halike), Nat.sub_zero]

/-! ### Runs of blank lines -/

/-- Whether no run of blank lines is longer than a limit. -/
def Collapsed (limit : Nat) (ls : List Text) : Prop :=
  ∀ run, run <:+: ls → (∀ l ∈ run, blank l = true) → run.length ≤ limit

theorem length_le_of_isPrefix_collapseAfter {run : Nat} {blanks : List Text}
    (h : blanks <+: collapseAfter limit run ls) (hblank : ∀ l ∈ blanks, blank l = true) :
  blanks.length ≤ limit - run
  := by
  induction ls generalizing run blanks with
  | nil =>
      rw [List.prefix_nil.mp h]
      apply Nat.zero_le
  | cons l ls ih =>
      rw [collapseAfter] at h
      split at h
      · split at h
        · next hrun =>
          cases blanks with
          | nil => apply Nat.zero_le
          | cons m blanks =>
              obtain ⟨-, h⟩ := List.cons_prefix_cons.mp h
              have hle := ih h (List.forall_mem_cons.mp hblank).2
              rw [List.length_cons]
              omega
        · have hle := ih h hblank
          omega
      · next hl =>
        cases blanks with
        | nil => apply Nat.zero_le
        | cons m blanks =>
            obtain ⟨rfl, -⟩ := List.cons_prefix_cons.mp h
            exact absurd (List.forall_mem_cons.mp hblank).1 hl

/-- What collapsing leaves ends in what it leaves of fewer lines. -/
theorem exists_of_isSuffix_collapseAfter {run : Nat} {u : List Text}
    (h : u <:+ collapseAfter limit run ls) :
  ∃ next rest, u = collapseAfter limit next rest
  := by
  induction ls generalizing run with
  | nil => exact ⟨0, [], List.suffix_nil.mp h⟩
  | cons l ls ih =>
      by_cases heq : u = collapseAfter limit run (l :: ls)
      · exact ⟨run, l :: ls, heq⟩
      · rw [collapseAfter] at h heq
        split at h
        · next hl =>
          rw [if_pos hl] at heq
          split at h
          · next hrun =>
            rw [if_pos hrun] at heq
            exact ih ((List.suffix_cons_iff.mp h).resolve_left heq)
          · exact ih h
        · next hl =>
          rw [if_neg hl] at heq
          exact ih ((List.suffix_cons_iff.mp h).resolve_left heq)

/-- Collapsing leaves no run of blank lines that is longer than the limit. -/
theorem collapsed_collapseBlanks (limit : Nat) (ls : List Text) :
  Collapsed limit (collapseBlanks limit ls)
  := by
  intro run hinfix hblank
  obtain ⟨u, hrun, hu⟩ := List.infix_iff_prefix_suffix.mp hinfix
  obtain ⟨next, rest, rfl⟩ := exists_of_isSuffix_collapseAfter hu
  calc run.length
    _ ≤ limit - next := length_le_of_isPrefix_collapseAfter hrun hblank
    _ ≤ limit := Nat.sub_le limit next

/-! ### The lines that are left -/

theorem collapseBlanks_eq_flatMap (limit : Nat) (ls : List Text) :
  collapseBlanks limit ls = (stretches ls).flatMap (shortened limit)
  := by
  obtain ⟨hflatten, hne, hparts, hbetween⟩ :=
    List.splitBy_eq_iff.mp (rfl : stretches ls = stretches ls)
  conv_lhs => rw [hflatten]
  exact collapseBlanks_flatten hne hparts hbetween

/-- Lines without a run of blank lines that is longer than the limit stay as they are. -/
theorem collapseBlanks_eq_self (h : Collapsed limit ls) :
  collapseBlanks limit ls = ls
  := by
  have hwhole : ∀ stretch ∈ stretches ls, shortened limit stretch = stretch := by
    intro stretch hmem
    have hinfix : stretch <:+: ls := by
      have hflatten := List.infix_of_mem_flatten hmem
      rwa [stretches, List.flatten_splitBy] at hflatten
    rw [shortened]
    split
    · next hblank => exact List.take_of_length_le (h stretch hinfix (List.all_eq_true.mp hblank))
    · rfl
  rw [collapseBlanks_eq_flatMap]
  calc (stretches ls).flatMap (shortened limit)
    _ = (stretches ls).flatMap id := List.flatMap_congr hwhole
    _ = ls := by rw [List.flatMap_id, stretches, List.flatten_splitBy]

/-- Collapsing takes the first lines of each blank stretch, as many as the limit allows, and leaves
the other stretches as they are; no run of blank lines that is left is longer than the limit, and
collapsing again changes nothing. -/
theorem collapseBlanks_shortens (limit : Nat) (ls : List Text) :
  collapseBlanks limit ls = (stretches ls).flatMap (shortened limit)
    ∧ Collapsed limit (collapseBlanks limit ls)
    ∧ collapseBlanks limit (collapseBlanks limit ls) = collapseBlanks limit ls
  := by
  have hcollapsed := collapsed_collapseBlanks limit ls
  use collapseBlanks_eq_flatMap limit ls, hcollapsed
  exact collapseBlanks_eq_self hcollapsed

end StylePrune.Prune
