import StylePrune.Proofs.Stylesheet.Lines

/-!
# Thinned texts

A text is thinned when characters are taken out of it, and those that are no keys may be exchanged
for others.  A thinned text that has as many line feeds is thinned line by line
(`Thins.forall₂_lines`), and one that has as many keys has the same ones in the same order.
-/

namespace StylePrune.Text

/-- If a list is a part of another one and has as many marks before and behind one of them, each of
its sides is a part of the other's. -/
theorem sublist_of_append_cons {α : Type} [BEq α] [LawfulBEq α] {a : α} {x y x' y' : List α}
    (h : (x ++ a :: y).Sublist (x' ++ a :: y')) (hx : x.count a = x'.count a)
    (hy : y.count a = y'.count a) :
  x.Sublist x' ∧ y.Sublist y'
  := by
  obtain ⟨l, r, hlr, hl, hr⟩ := List.sublist_append_iff.mp h
  have hle := hl.count_le a
  have hre := hr.count_le a
  rw [List.count_cons_self] at hre
  rcases List.append_eq_append_iff.mp hlr with ⟨z, rfl, hz⟩ | ⟨z, rfl, hz⟩
  · cases z with
    | nil =>
        obtain rfl : r = a :: y := hz.symm
        rw [List.append_nil] at hl
        exact ⟨hl, List.cons_sublist_cons.mp hr⟩
    | cons b z =>
        obtain ⟨rfl, rfl⟩ := List.cons.inj hz
        rw [List.count_append, List.count_cons_self] at hle
        omega
  · subst hz
    rw [List.count_append, List.count_cons_self] at hre
    rw [List.count_append] at hx
    have hnone : z.count a = 0 := by omega
    cases z with
    | nil =>
        rw [List.append_nil]
        exact ⟨hl, List.cons_sublist_cons.mp hr⟩
    | cons b z =>
        rw [List.cons_append] at hr
        cases hr with
        | cons _ hr =>
            have hcount := hr.count_le a
            rw [← List.cons_append, List.count_append, List.count_cons_self] at hcount
            omega
        | cons_cons _ hr =>
            rw [List.count_cons_self] at hnone
            cases hnone

/-- Whether a text is left of another one when characters are taken out, and others that are no keys
exchanged. -/
def Thins (key : Char → Bool) (t u : Text) : Prop :=
  (u.map (Option.guard key)).Sublist (t.map (Option.guard key))

namespace Thins

variable {key : Char → Bool} {t u v t' u' : Text}

theorem of_sublist (h : u.Sublist t) :
  Thins key t u
  := h.map _

theorem refl (t : Text) :
  Thins key t t
  := of_sublist (List.Sublist.refl t)

theorem trans (h : Thins key t u) (h' : Thins key u v) :
  Thins key t v
  := List.Sublist.trans h' h

theorem append (h : Thins key t u) (h' : Thins key t' u') :
  Thins key (t ++ t') (u ++ u')
  := by
  rw [Thins, List.map_append, List.map_append]
  exact List.Sublist.append h h'

/-- A text without keys is left of every text without keys that is as long. -/
theorem of_forall_not (ht : ∀ c ∈ t, key c = false) (hu : ∀ c ∈ u, key c = false)
    (hlength : u.length ≤ t.length) :
  Thins key t u
  := by
  have hnone : ∀ w : Text, (∀ c ∈ w, key c = false) →
      w.map (Option.guard key) = List.replicate w.length none := by
    intro w hw
    apply List.eq_replicate_iff.mpr
    refine ⟨List.length_map _, ?_⟩
    intro o ho
    obtain ⟨c, hc, rfl⟩ := List.mem_map.mp ho
    rw [Option.guard, hw c hc]
    rfl
  rw [Thins, hnone t ht, hnone u hu]
  exact List.replicate_sublist_replicate none |>.mpr hlength

/-- With fewer keys more texts are left. -/
theorem weaken {key' : Char → Bool} (h : Thins key t u) (hkey : ∀ c, key' c = true → key c = true) :
  Thins key' t u
  := by
  have hguard : Option.guard key' = (fun o : Option Char => o.bind (Option.guard key'))
      ∘ Option.guard key := by
    funext c
    rw [Function.comp_apply, Option.guard, Option.guard]
    cases hc : key c with
    | true => rfl
    | false =>
        have hnot : key' c = false := Bool.eq_false_iff.mpr fun htrue => by
          rw [hkey c htrue] at hc
          cases hc
        rw [hnot]
        rfl
  rw [Thins, hguard, ← List.map_map, ← List.map_map]
  exact List.Sublist.map _ h

/-- The keys of a thinned text are among those of the text. -/
theorem filter (h : Thins key t u) :
  (u.filter key).Sublist (t.filter key)
  := by
  have hkeys : ∀ w : Text, w.filter key = (w.map (Option.guard key)).filterMap id := by
    intro w
    rw [List.filterMap_map, Function.id_comp, List.filterMap_eq_filter]
  rw [hkeys, hkeys]
  exact List.Sublist.filterMap id h

/-- The last character of a text, if it is a key, is the last one of each text left of it that has
as many keys. -/
theorem getLast? {c : Char} (h : Thins key t u)
    (hcount : (u.filter key).length = (t.filter key).length)
    (hlast : t.getLast? = some c) (hc : key c = true) :
  u.getLast? = some c
  := by
  obtain ⟨init, rfl⟩ := List.getLast?_eq_some_iff.mp hlast
  rw [Thins, List.map_append, List.sublist_append_iff] at h
  obtain ⟨l, r, hlr, hl, hr⟩ := h
  obtain ⟨x, y, rfl, rfl, rfl⟩ := List.map_eq_append_iff.mp hlr
  have hx : (x.filter key).length ≤ (init.filter key).length := (filter hl).length_le
  cases y with
  | nil =>
      rw [List.append_nil, List.filter_append, List.filter_singleton, hc, List.length_append]
        at hcount
      simp only [cond_true, List.length_singleton] at hcount
      omega
  | cons d y =>
      obtain ⟨hguard, hy⟩ := List.cons_sublist_cons'.mp hr |>.resolve_left (by simp)
      obtain rfl : y = [] := List.map_eq_nil_iff.mp (List.sublist_nil.mp hy)
      have hd : Option.guard key d = some c := by
        rw [hguard, Option.guard, hc]
        rfl
      obtain ⟨rfl, -⟩ := Option.guard_eq_some_iff.mp hd
      exact List.getLast?_concat

/-- A text with as many line feeds is thinned line by line. -/
theorem forall₂_lines (h : Thins key t u) (hkey : key '\n' = true)
    (hcount : u.count '\n' = t.count '\n') :
  List.Forall₂ (Thins key) (lines t) (lines u)
  := by
  have hmap : ∀ w : Text, (w.map (Option.guard key)).count (some '\n') = w.count '\n' := by
    intro w
    rw [List.count, List.countP_map, List.count]
    congr 1
    funext c
    rw [Function.comp_apply, Option.guard, Bool.eq_iff_iff, beq_iff_eq, beq_iff_eq]
    constructor
    · intro hc
      exact (Option.guard_eq_some_iff.mp hc).1
    · rintro rfl
      rw [hkey]
      rfl
  have hguard : Option.guard key '\n' = some '\n' := by
    rw [Option.guard, hkey]
    rfl
  induction hn : t.length using Nat.strong_induction_on generalizing t u with
  | _ n ih =>
      -- as many line feeds are left, so that the first lines of both texts go together
      by_cases hfeed : '\n' ∈ t
      · obtain ⟨p, t', rfl, hp⟩ := List.eq_append_cons_of_mem hfeed
        have hfeed' : '\n' ∈ u := by
          rw [← List.count_pos_iff, hcount, List.count_pos_iff]
          exact hfeed
        obtain ⟨q, u', rfl, hq⟩ := List.eq_append_cons_of_mem hfeed'
        rw [List.count_append, List.count_append, List.count_cons_self, List.count_cons_self,
          List.count_eq_zero.mpr hp, List.count_eq_zero.mpr hq] at hcount
        rw [Thins, List.map_append, List.map_append, List.map_cons, List.map_cons, hguard] at h
        obtain ⟨hfirst, hrest⟩ := sublist_of_append_cons h
          (by rw [hmap, hmap, List.count_eq_zero.mpr hp, List.count_eq_zero.mpr hq])
          (by rw [hmap, hmap]; omega)
        rw [lines, lines, splitOn_append_cons hp, splitOn_append_cons hq]
        have hline : Thins key p q := hfirst
        apply List.Forall₂.cons hline
        apply ih t'.length _ hrest _ rfl
        · rw [← hn, List.length_append, List.length_cons]
          omega
        · omega
      · have hfeed' : '\n' ∉ u := by
          rw [← List.count_eq_zero, hcount, List.count_eq_zero]
          exact hfeed
        rw [lines, lines, splitOn_of_notMem hfeed, splitOn_of_notMem hfeed']
        exact .cons h .nil

end Thins

/-- Whether a text is left of another one when characters are taken out and exchanged that are no
keys. -/
structure Spared (key : Char → Bool) (t u : Text) : Prop where
  thins : Thins key t u
  filter_eq : u.filter key = t.filter key

namespace Spared

variable {key : Char → Bool} {t u v t' u' : Text}

theorem refl (t : Text) :
  Spared key t t
  := ⟨Thins.refl t, rfl⟩

theorem trans (h : Spared key t u) (h' : Spared key u v) :
  Spared key t v
  := ⟨h.thins.trans h'.thins, h'.filter_eq.trans h.filter_eq⟩

theorem append (h : Spared key t u) (h' : Spared key t' u') :
  Spared key (t ++ t') (u ++ u')
  := by
  refine ⟨h.thins.append h'.thins, ?_⟩
  rw [List.filter_append, List.filter_append, h.filter_eq, h'.filter_eq]

theorem of_forall_not (ht : ∀ c ∈ t, key c = false) (hu : ∀ c ∈ u, key c = false)
    (hlength : u.length ≤ t.length) :
  Spared key t u
  := by
  refine ⟨Thins.of_forall_not ht hu hlength, ?_⟩
  have hnone : ∀ w : Text, (∀ c ∈ w, key c = false) → w.filter key = [] := by
    intro w hw
    apply List.filter_eq_nil_iff.mpr
    intro c hc
    rw [hw c hc]
    exact Bool.false_ne_true
  rw [hnone t ht, hnone u hu]

theorem cons_of_not {c : Char} (h : Spared key t u) (hc : key c = false) :
  Spared key (c :: t) u
  := by
  have hdropped : Spared key [c] [] :=
    of_forall_not (List.forall_mem_singleton.mpr hc) (List.forall_mem_nil _) (Nat.zero_le 1)
  exact hdropped.append h

/-- What is left of a text with a first character: that of the rest, or a character that stands for
the first one, and behind it what is left of the rest. -/
theorem of_cons {d : Char} (h : Spared key (d :: t) u) :
  (key d = false ∧ Spared key t u)
    ∨ ∃ c v, u = c :: v ∧ (c = d ∨ key c = false ∧ key d = false) ∧ Spared key t v
  := by
  obtain ⟨hthins, hfilter⟩ := h
  rcases List.sublist_cons_iff.mp hthins with hrest | ⟨r, hr, hrest⟩
  · left
    have hthins' : Thins key t u := hrest
    cases hd : key d with
    | false =>
        rw [List.filter_cons_of_neg (by rw [hd]; exact Bool.false_ne_true)] at hfilter
        exact ⟨rfl, hthins', hfilter⟩
    | true =>
        have hle := hthins'.filter.length_le
        rw [hfilter, List.filter_cons_of_pos hd, List.length_cons] at hle
        omega
  · right
    obtain ⟨c, v, rfl, hc, rfl⟩ := List.map_eq_cons_iff.mp hr
    refine ⟨c, v, rfl, ?_⟩
    cases hd : key d with
    | false =>
        have hkey : key c = false := by
          cases hkey : key c with
          | false => rfl
          | true => simp [Option.guard, hd, hkey] at hc
        rw [List.filter_cons_of_neg (by rw [hkey]; exact Bool.false_ne_true),
          List.filter_cons_of_neg (by rw [hd]; exact Bool.false_ne_true)] at hfilter
        exact ⟨.inr ⟨hkey, rfl⟩, hrest, hfilter⟩
    | true =>
        have hguard : Option.guard key c = some d := by
          rw [hc, Option.guard, hd]
          rfl
        obtain ⟨rfl, -⟩ := Option.guard_eq_some_iff.mp hguard
        rw [List.filter_cons_of_pos hd, List.filter_cons_of_pos hd] at hfilter
        exact ⟨.inl rfl, hrest, (List.cons.inj hfilter).2⟩

theorem eq_nil (h : Spared key [] u) :
  u = []
  := List.map_eq_nil_iff.mp (List.sublist_nil.mp h.thins)

/-- A key that is left was there, behind characters that are no keys. -/
theorem of_cons_right {c : Char} (h : Spared key t (c :: u)) (hc : key c = true) :
  ∃ skipped rest, t = skipped ++ c :: rest ∧ (∀ d ∈ skipped, key d = false) ∧ Spared key rest u
  := by
  induction t with
  | nil => cases h.eq_nil
  | cons d t ih =>
      rcases h.of_cons with ⟨hd, hrest⟩ | ⟨e, v, heq, hed, hrest⟩
      · obtain ⟨skipped, rest, rfl, hskipped, hleft⟩ := ih hrest
        exact ⟨d :: skipped, rest, rfl, List.forall_mem_cons.mpr ⟨hd, hskipped⟩, hleft⟩
      · obtain ⟨rfl, rfl⟩ := List.cons.inj heq
        rcases hed with rfl | ⟨hnot, -⟩
        · exact ⟨[], t, rfl, List.forall_mem_nil _, hrest⟩
        · rw [hc] at hnot
          cases hnot

/-- Behind the characters up to a key the same is left. -/
theorem dropWhile {p : Char → Bool} (h : Spared key t u) (hp : ∀ c, key c = false → p c = true) :
  Spared key (t.dropWhile p) (u.dropWhile p)
  := by
  induction t generalizing u with
  | nil =>
      rw [h.eq_nil]
      exact refl []
  | cons d t ih =>
      rcases h.of_cons with ⟨hd, hrest⟩ | ⟨c, v, rfl, hc, hrest⟩
      · rw [List.dropWhile_cons_of_pos (hp d hd)]
        exact ih hrest
      · rcases hc with rfl | ⟨hc, hd⟩
        · cases hpc : p c with
          | true =>
              rw [List.dropWhile_cons_of_pos hpc, List.dropWhile_cons_of_pos hpc]
              exact ih hrest
          | false =>
              have hnot : ¬ p c = true := by
                rw [hpc]
                exact Bool.false_ne_true
              rw [List.dropWhile_cons_of_neg hnot, List.dropWhile_cons_of_neg hnot]
              exact h
        · rw [List.dropWhile_cons_of_pos (hp c hc), List.dropWhile_cons_of_pos (hp d hd)]
          exact ih hrest

end Spared

end StylePrune.Text
