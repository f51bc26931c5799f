import Mathlib.Data.List.Forall2
import StylePrune.Proofs.Stylesheet.Spelling
import StylePrune.Proofs.Stylesheet.Statements

/-!
# The lines of a cleaned stylesheet

Cleaning may lose line feeds, never makes one, and as long as it loses none it leaves empty lines
empty (`covers_strip`).  So where the lines of a stylesheet and of its cleaned form correspond, a
statement of which cleaning leaves something was written with some character
(`Statement.clean_eq_nil_of_raw_eq_nil`).
-/

namespace StylePrune.Text

/-! ### Lines of texts that are written one after the other -/

/-- The lines of two texts together: the last line of the first text goes on with the first line of
the second one. -/
def joinLines : List Text → List Text → List Text
  | [], ms => ms
  | [l], [] => [l]
  | [l], m :: ms => (l ++ m) :: ms
  | l :: l' :: ls, ms => l :: joinLines (l' :: ls) ms

theorem lines_append (t u : Text) :
  lines (t ++ u) = joinLines (lines t) (lines u)
  := by
  obtain ⟨m, ms, hu⟩ := List.exists_cons_of_ne_nil (splitOn_ne_nil '\n' u)
  have hjoin : ∀ l, joinLines [l] (lines u) = (l ++ m) :: ms := by
    intro l
    rw [lines, hu]
    rfl
  induction t with
  | nil =>
      change lines u = joinLines [[]] (lines u)
      rw [hjoin, lines, hu]
      rfl
  | cons c t ih =>
      obtain ⟨l, ls, ht⟩ := List.exists_cons_of_ne_nil (splitOn_ne_nil '\n' t)
      by_cases hc : c = '\n'
      · have hcons : ∀ v, lines (c :: v) = [] :: lines v := fun v => if_pos hc
        rw [List.cons_append, hcons, hcons, ih, lines, ht]
        rfl
      · obtain ⟨p, ps, hp, hcp⟩ := splitOn_cons_of_ne hc t
        obtain ⟨q, qs, hq, hcq⟩ := splitOn_cons_of_ne hc (t ++ u)
        have hjoined : q :: qs = joinLines (p :: ps) (lines u) := by
          rw [← hq, ← hp]
          exact ih
        rw [List.cons_append, lines, lines, hcp, hcq]
        cases ps with
        | nil =>
            rw [hjoin] at hjoined ⊢
            obtain ⟨rfl, rfl⟩ := List.cons.inj hjoined
            rfl
        | cons p' ps =>
            obtain ⟨rfl, rfl⟩ := List.cons.inj hjoined
            rfl

theorem forall₂_joinLines {R : Text → Text → Prop}
    (happend : ∀ l m l' m', R l m → R l' m' → R (l ++ l') (m ++ m')) {ls ms ls' ms' : List Text}
    (h : List.Forall₂ R ls ms) (h' : List.Forall₂ R ls' ms') :
  List.Forall₂ R (joinLines ls ls') (joinLines ms ms')
  := by
  induction h with
  | nil => exact h'
  | cons hlast hrest ih =>
      cases hrest with
      | nil =>
          cases h' with
          | nil => exact .cons hlast .nil
          | cons hfirst hbehind => exact .cons (happend _ _ _ _ hlast hfirst) hbehind
      | cons hnext hrest => exact .cons hlast ih

/-! ### Texts that are written anew -/

/-- Whether a text has no more line feeds than another one, and if it has as many, is empty on every
line where the other one is. -/
structure Covers (t u : Text) : Prop where
  count_le : u.count '\n' ≤ t.count '\n'
  empty : u.count '\n' = t.count '\n' →
    List.Forall₂ (fun l m => l = [] → m = []) (lines t) (lines u)

namespace Covers

variable {t u v : Text}

theorem refl (t : Text) :
  Covers t t
  := ⟨Nat.le_refl _, fun _ => List.forall₂_same.mpr fun _ _ => id⟩

theorem trans (h : Covers t u) (h' : Covers u v) :
  Covers t v
  := by
  refine ⟨Nat.le_trans h'.count_le h.count_le, fun hcount => ?_⟩
  have hle := h.count_le
  have hle' := h'.count_le
  have htu := h.empty (by omega)
  have huv := h'.empty (by omega)
  rw [List.forall₂_iff_get] at htu huv ⊢
  refine ⟨htu.1.trans huv.1, fun i ht hv hempty => ?_⟩
  have hu : i < (lines u).length := huv.1 ▸ hv
  exact huv.2 i hu hv (htu.2 i ht hu hempty)

theorem append {t' u' : Text} (h : Covers t u) (h' : Covers t' u') :
  Covers (t ++ t') (u ++ u')
  := by
  have hle := h.count_le
  have hle' := h'.count_le
  constructor
  · simp only [List.count_append]
    omega
  · intro hcount
    simp only [List.count_append] at hcount
    rw [lines_append, lines_append]
    apply forall₂_joinLines _ (h.empty (by omega)) (h'.empty (by omega))
    intro l m l' m' hl hl' hempty
    obtain ⟨rfl, rfl⟩ := List.append_eq_nil_iff.mp hempty
    rw [hl rfl, hl' rfl]
    rfl

/-- What is on one line may be written for any text that is not empty. -/
theorem of_notMem (ht : t ≠ []) (hu : '\n' ∉ u) :
  Covers t u
  := by
  have hzero : u.count '\n' = 0 := List.count_eq_zero.mpr hu
  refine ⟨by omega, fun hcount => ?_⟩
  have ht' : '\n' ∉ t := List.count_eq_zero.mp (hcount.symm.trans hzero)
  rw [lines, lines, splitOn_of_notMem ht', splitOn_of_notMem hu]
  exact .cons (fun hempty => absurd hempty ht) .nil

/-- Writing something else for the constructs of a shape covers a text if it covers each of them. -/
theorem replace {f : Text → Text} (hf : ∀ u, u ≠ [] → Covers u (f u)) (s : Shape) (t : Text) :
  Covers t (s.replace f t)
  := Shape.replace_related refl append hf s t

end Covers

end StylePrune.Text

namespace StylePrune.Stylesheet

open Text

/-! ### Cleaning -/

/-- The line feeds of a text cover it. -/
theorem covers_lineFeeds (t : Text) :
  Covers t (lineFeeds t)
  := by
  induction t with
  | nil => exact .refl []
  | cons c t ih =>
      rw [← List.singleton_append, lineFeeds, List.filter_append]
      refine Covers.append ?_ ih
      by_cases hc : c = '\n'
      · subst hc
        exact .refl ['\n']
      · apply Covers.of_notMem (List.cons_ne_nil c [])
        simp [hc]

theorem covers_emptied {t : Text} (ht : t ≠ []) :
  Covers t (emptied t)
  := by
  unfold emptied
  split
  · exact .of_notMem ht (by decide)
  · exact .of_notMem ht (by decide)
  · exact covers_lineFeeds _

theorem covers_dropGroups (t : Text) :
  Covers t (dropGroups t)
  := by
  have hrounds : ∀ n, Covers t (dropInnermost^[n] t) := by
    intro n
    induction n with
    | zero => exact .refl t
    | succ n ih =>
        rw [Function.iterate_succ_apply']
        exact ih.trans (.replace (fun u _ => covers_lineFeeds u) _ _)
  rw [dropGroups, dropGroupsWithin_eq_iterate]
  exact hrounds t.length

/-- Cleaning makes no line feeds, and if it loses none it leaves empty lines empty. -/
theorem covers_strip (t : Text) :
  Covers t (strip t)
  := by
  have hnone : ∀ (s : Shape) (u : Text), Covers u (s.replace (fun _ => []) u) :=
    fun s => .replace (fun _ hne => .of_notMem hne List.not_mem_nil) s
  simp only [strip]
  refine Covers.trans ?_ (covers_dropGroups _)
  refine Covers.trans ?_ (hnone interpolation _)
  refine Covers.trans ?_ (hnone namespaceOrLink _)
  refine Covers.trans ?_ (hnone dataAddress _)
  refine Covers.trans ?_ (.replace (fun u hne => covers_emptied hne) commentOrString _)
  exact .replace (fun u hne => .of_notMem hne (by decide)) urlCall t

/-- The pieces of a line are not empty, but for the last one. -/
theorem pairwise_cutAlong (guide t : Text) :
  (cutAlong guide t).Pairwise fun p _ => p ≠ []
  := by
  induction t generalizing guide with
  | nil => cases guide <;> exact List.pairwise_singleton _ _
  | cons c t ih =>
      cases guide with
      | nil => exact List.pairwise_singleton _ _
      | cons g guide =>
          rw [cutAlong]
          split
          · exact .cons (fun _ _ => List.cons_ne_nil c []) (ih guide)
          · split
            · exact List.pairwise_singleton _ _
            · next p ps hp =>
              have hpieces := ih guide
              rw [hp] at hpieces
              exact .cons (fun _ _ => List.cons_ne_nil c p) (List.pairwise_cons.mp hpieces).2

end StylePrune.Stylesheet

namespace StylePrune.Statement

open Text Stylesheet

/-- A pair that is written with no character is cleaned to nothing, if that holds of a pair that is
the only one. -/
theorem clean_eq_nil_of_mem_pairUp {line : Nat} {raws cleans : List Text}
    (hraws : raws.Pairwise fun p _ => p ≠ []) (hlength : raws.length = cleans.length)
    (hsingle : ∀ clean, raws = [[]] → cleans = [clean] → clean = []) {st : Statement}
    (hst : st ∈ pairUp line raws cleans) (hraw : st.raw = []) :
  st.clean = []
  := by
  fun_induction pairUp line raws cleans with
  | case1 raw clean =>
      obtain rfl := List.mem_singleton.mp hst
      obtain rfl : raw = [] := hraw
      exact hsingle clean rfl rfl
  | case2 raw clean last =>
      obtain rfl := List.mem_singleton.mp hst
      exact absurd hraw ((List.pairwise_cons.mp hraws).1 [] List.mem_cons_self)
  | case3 raw raws clean cleans hone htwo ih =>
      obtain ⟨hfirst, hbehind⟩ := List.pairwise_cons.mp hraws
      rcases List.mem_cons.mp hst with rfl | hst
      · obtain ⟨next, hnext⟩ : ∃ next, next ∈ raws := by
          apply List.exists_mem_of_ne_nil
          rintro rfl
          obtain rfl := List.length_eq_zero_iff.mp (Nat.succ.inj hlength).symm
          exact hone rfl rfl
        exact absurd hraw (hfirst next hnext)
      · refine ih hbehind (Nat.succ.inj hlength) ?_ hst
        rintro last rfl rfl
        exact absurd rfl (htwo last rfl)
  | case4 => cases hst

theorem clean_eq_nil_of_pairLine {line : Nat} {raw clean masked : Text} {row : List Statement}
    (h : pairLine line raw clean masked = .ok row) (hempty : raw = [] → clean = [])
    {st : Statement} (hst : st ∈ row) (hraw : st.raw = []) :
  st.clean = []
  := by
  simp only [pairLine] at h
  split at h
  · next hlength =>
    obtain rfl := Except.ok.inj h
    refine clean_eq_nil_of_mem_pairUp (pairwise_cutAlong masked raw) hlength ?_ hst hraw
    intro last hraws hcleans
    have hraw : raw = [] := by
      rw [← flatten_cutAlong masked raw, hraws]
      rfl
    have hclean : clean = last := by
      rw [← flatten_cutAlong clean clean]
      change (cut clean).flatten = last
      rw [hcleans, List.flatten_singleton]
    rw [← hclean, hempty hraw]
  · cases h

theorem clean_eq_nil_of_pairLines {line : Nat} {raws cleans maskeds : List Text}
    {statements : List Statement} (hempty : List.Forall₂ (fun l m => l = [] → m = []) raws cleans)
    (h : pairLines line raws cleans maskeds = .ok statements) {st : Statement}
    (hst : st ∈ statements) (hraw : st.raw = []) :
  st.clean = []
  := by
  induction hempty generalizing line maskeds statements with
  | nil =>
      obtain rfl := Except.ok.inj h
      cases hst
  | @cons raw clean raws cleans hfirst _ ih =>
      cases maskeds with
      | nil =>
          obtain rfl := Except.ok.inj h
          cases hst
      | cons masked maskeds =>
          obtain ⟨row, others, hrow, hothers, rfl⟩ := pairLines_cons_eq_ok h
          rcases List.mem_append.mp hst with hst | hst
          · exact clean_eq_nil_of_pairLine hrow hfirst hst hraw
          · exact ih hothers hst

/-- Of a statement that is written with no character cleaning leaves nothing. -/
theorem clean_eq_nil_of_raw_eq_nil {t : Text} {statements : List Statement}
    (h : split t = .ok statements) {st : Statement} (hst : st ∈ statements) (hraw : st.raw = []) :
  st.clean = []
  := by
  simp only [split] at h
  split at h
  · next hlength =>
    have hcount : (strip t).count '\n' = t.count '\n' := by
      rw [lines, lines, length_splitOn, length_splitOn] at hlength
      omega
    exact clean_eq_nil_of_pairLines ((covers_strip t).empty hcount) h hst hraw
  · cases h

end StylePrune.Statement
