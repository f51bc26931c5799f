import Mathlib.Data.List.DropRight
import Mathlib.Data.List.TakeWhile
import StylePrune.Text.Lines

/-!
# Trimming

`trim` takes the blanks off both ends of a text and nothing else: what is left consists of
characters of the text, and a last character that is not blank stays the last one.
-/

namespace StylePrune.Text

/-- Trimming takes nothing but characters away. -/
theorem trim_sublist (t : Text) :
  (trim t).Sublist t
  := by
  have hstart : (trimStart t).Sublist t := List.dropWhile_sublist isBlank
  have hend : ((trimStart t).reverse.dropWhile isBlank).Sublist (trimStart t).reverse :=
    List.dropWhile_sublist isBlank
  apply List.Sublist.trans _ hstart
  rw [trim, trimEnd, ← List.reverse_sublist, List.reverse_reverse]
  apply hend

theorem mem_of_mem_trim {c : Char} {t : Text} (h : c ∈ trim t) :
  c ∈ t
  := (trim_sublist t).subset h

/-- Trimming at the end stops at a character that is not blank. -/
theorem trimEnd_concat (t : Text) {c : Char} (hc : isBlank c = false) :
  trimEnd (t ++ [c]) = t ++ [c]
  := by
  rw [trimEnd, List.reverse_append, List.reverse_singleton, List.singleton_append,
    List.dropWhile_cons_of_neg (by simp [hc]), List.reverse_cons, List.reverse_reverse]

/-- Trimming at the start leaves a last character that is not blank. -/
theorem trimStart_concat (t : Text) {c : Char} (hc : isBlank c = false) :
  trimStart (t ++ [c]) = trimStart t ++ [c]
  := by
  rw [trimStart, trimStart, List.dropWhile_append]
  split
  · next h => rw [List.isEmpty_iff.mp h, List.dropWhile_cons_of_neg (by simp [hc]), List.nil_append]
  · rfl

/-- Trimming leaves a last character that is not blank. -/
theorem trim_concat (t : Text) {c : Char} (hc : isBlank c = false) :
  trim (t ++ [c]) = trimStart t ++ [c]
  := by
  rw [trim, trimStart_concat t hc, trimEnd_concat _ hc]

/-- What is trimmed does not start with a blank. -/
theorem isBlank_of_mem_head?_trim {t : Text} {c : Char} (h : c ∈ (trim t).head?) :
  isBlank c = false
  := by
  obtain ⟨rest, hrest⟩ : trim t <+: trimStart t := by
    rw [trim, trimEnd, ← List.reverse_suffix, List.reverse_reverse]
    apply List.dropWhile_suffix
  have hnot := List.head?_dropWhile_not isBlank t
  rw [← trimStart, ← hrest, List.head?_append, Option.mem_def.mp h] at hnot
  exact hnot

/-- Trimming once is enough. -/
@[simp]
theorem trim_trim (t : Text) :
  trim (trim t) = trim t
  := by
  have hstart : trimStart (trim t) = trim t := by
    cases ht : trim t with
    | nil => rfl
    | cons c rest =>
        have hc : isBlank c = false := isBlank_of_mem_head?_trim (t := t) (by rw [ht]; rfl)
        rw [trimStart, List.dropWhile_cons_of_neg (by simp [hc])]
  rw [trim, hstart, trim, trimEnd, trimEnd, List.reverse_reverse, List.dropWhile_idempotent]

/-- Blanks at the start do not matter when a text is trimmed. -/
theorem trim_append_of_blank {blanks : Text} (h : ∀ c ∈ blanks, isBlank c = true) (t : Text) :
  trim (blanks ++ t) = trim t
  := by
  induction blanks with
  | nil => rfl
  | cons c blanks ih =>
      obtain ⟨hc, hblanks⟩ := List.forall_mem_cons.mp h
      rw [← ih hblanks, trim, trim, List.cons_append, trimStart, List.dropWhile_cons_of_pos hc,
        trimStart]

/-- Blanks at the end of a text are trimmed. -/
theorem trim_append_of_blank_right {blanks : Text} (h : ∀ c ∈ blanks, isBlank c = true) (t : Text) :
  trim (t ++ blanks) = trim t
  := by
  rw [trim, trim, trimStart, List.dropWhile_append]
  split
  · next hempty =>
    rw [List.dropWhile_eq_nil_iff.mpr h, trimStart, List.isEmpty_iff.mp hempty]
  · rw [trimEnd, List.reverse_append, List.dropWhile_append_of_pos, trimStart, trimEnd]
    intro c hc
    apply h c (List.mem_reverse.mp hc)

/-- Nothing is trimmed off a text without blanks. -/
theorem trim_of_forall_not {t : Text} (h : ∀ c ∈ t, isBlank c = false) :
  trim t = t
  := by
  rcases List.eq_nil_or_concat t with rfl | ⟨init, c, rfl⟩
  · rfl
  · rw [List.concat_eq_append] at h ⊢
    rw [trim_concat _ (h c (by simp)), trimStart]
    congr 1
    cases init with
    | nil => rfl
    | cons d init =>
        rw [List.dropWhile_cons_of_neg]
        simp [h d]

/-- Trimming takes blanks away at both ends. -/
theorem exists_blanks_trim (t : Text) :
  ∃ before after, t = before ++ trim t ++ after ∧ (∀ c ∈ before, isBlank c = true)
    ∧ ∀ c ∈ after, isBlank c = true
  := by
  use t.takeWhile isBlank, ((trimStart t).reverse.takeWhile isBlank).reverse
  and_intros
  · have hend : trim t ++ ((trimStart t).reverse.takeWhile isBlank).reverse = trimStart t := by
      rw [trim, trimEnd, ← List.reverse_append, List.takeWhile_append_dropWhile,
        List.reverse_reverse]
    rw [List.append_assoc, hend, trimStart, List.takeWhile_append_dropWhile]
  · intro c hc
    apply List.mem_takeWhile_imp hc
  · intro c hc
    apply List.mem_takeWhile_imp (List.mem_reverse.mp hc)

theorem trim_isInfix (t : Text) :
  trim t <:+: t
  := by
  obtain ⟨before, after, ht, -, -⟩ := exists_blanks_trim t
  exact ⟨before, after, ht.symm⟩

/-- Trimming takes no character that is not blank. -/
theorem count_trim {c : Char} (hc : isBlank c = false) (t : Text) :
  (trim t).count c = t.count c
  := by
  have hblanks : ∀ u : Text, (∀ d ∈ u, isBlank d = true) → u.count c = 0 := by
    intro u hu
    apply List.count_eq_zero.mpr
    intro hmem
    rw [hu c hmem] at hc
    cases hc
  obtain ⟨before, after, ht, hbefore, hafter⟩ := exists_blanks_trim t
  have hcount := congrArg (List.count c) ht
  rw [List.count_append, List.count_append, hblanks before hbefore, hblanks after hafter] at hcount
  omega

/-- Trimming at the end goes from character to character. -/
theorem trimEnd_cons (c : Char) (t : Text) :
  trimEnd (c :: t) = if trimEnd t = [] ∧ isBlank c = true then [] else c :: trimEnd t
  := by
  rw [trimEnd, List.reverse_cons, List.dropWhile_append, trimEnd]
  by_cases ht : t.reverse.dropWhile isBlank = []
  · rw [if_pos (List.isEmpty_iff.mpr ht), ht]
    cases hc : isBlank c with
    | true => simp [hc]
    | false => simp [hc]
  · rw [if_neg (by rwa [List.isEmpty_iff]), if_neg]
    · rw [List.reverse_append]
      rfl
    · rintro ⟨hnil, -⟩
      exact ht (List.reverse_eq_nil_iff.mp hnil)

/-- The order in which the ends are trimmed does not matter. -/
theorem trim_eq_trimStart_trimEnd (t : Text) :
  trim t = trimStart (trimEnd t)
  := by
  induction t with
  | nil => rfl
  | cons c t ih =>
      cases hc : isBlank c with
      | true =>
          have htrim : trim (c :: t) = trim t := by
            rw [trim, trim, trimStart, List.dropWhile_cons_of_pos hc, trimStart]
          rw [htrim, ih, trimEnd_cons]
          by_cases ht : trimEnd t = []
          · rw [if_pos ⟨ht, hc⟩, ht]
          · rw [if_neg (fun h => ht h.1), trimStart, trimStart, List.dropWhile_cons_of_pos hc]
      | false =>
          have hneg : ¬ (trimEnd t = [] ∧ isBlank c = true) := by
            rintro ⟨-, h⟩
            rw [hc] at h
            cases h
          rw [trim, trimStart, List.dropWhile_cons_of_neg (by simp [hc]), trimEnd_cons, if_neg hneg,
            trimStart, List.dropWhile_cons_of_neg (by simp [hc])]

/-! ### Pieces between separators -/

/-- A character other than the separator goes to the first piece. -/
theorem splitOn_cons_of_ne {sep c : Char} (h : c ≠ sep) (t : Text) :
  ∃ p ps, splitOn sep t = p :: ps ∧ splitOn sep (c :: t) = (c :: p) :: ps
  := by
  obtain ⟨p, ps, hp⟩ := List.exists_cons_of_ne_nil (splitOn_ne_nil sep t)
  use p, ps, hp
  rw [splitOn, if_neg h, hp]

theorem splitOn_of_notMem {sep : Char} {t : Text} (h : sep ∉ t) :
  splitOn sep t = [t]
  := by
  induction t with
  | nil => rfl
  | cons c t ih =>
      obtain ⟨hc, ht⟩ := not_or.mp (mt List.mem_cons.mpr h)
      rw [splitOn, if_neg (Ne.symm hc), ih ht]

theorem splitOn_append_cons {sep : Char} {p : Text} (h : sep ∉ p) (t : Text) :
  splitOn sep (p ++ sep :: t) = p :: splitOn sep t
  := by
  induction p with
  | nil => rw [List.nil_append, splitOn, if_pos rfl]
  | cons c p ih =>
      obtain ⟨hc, hp⟩ := not_or.mp (mt List.mem_cons.mpr h)
      rw [List.cons_append, splitOn, if_neg (Ne.symm hc), ih hp]

/-- The pieces of a text do not hold the separator. -/
theorem notMem_of_mem_splitOn {sep : Char} {t p : Text} (h : p ∈ splitOn sep t) :
  sep ∉ p
  := by
  induction t generalizing p with
  | nil =>
      obtain rfl := List.mem_singleton.mp h
      rintro ⟨⟩
  | cons c t ih =>
      by_cases hc : c = sep
      · rw [splitOn, if_pos hc] at h
        rcases List.mem_cons.mp h with rfl | h
        · rintro ⟨⟩
        · apply ih h
      · obtain ⟨q, qs, hq, hcq⟩ := splitOn_cons_of_ne hc t
        rw [hcq] at h
        rcases List.mem_cons.mp h with rfl | h
        · intro hmem
          rcases List.mem_cons.mp hmem with rfl | hmem
          · exact hc rfl
          · apply ih _ hmem
            rw [hq]
            apply List.mem_cons_self
        · apply ih
          rw [hq]
          apply List.mem_cons_of_mem q h

theorem infix_joinWith (sep : Char) {p : Text} {ps : List Text} (h : p ∈ ps) :
  p <:+: joinWith sep ps
  := by
  induction ps with
  | nil => cases h
  | cons q ps ih =>
      cases ps with
      | nil =>
          obtain rfl := List.mem_singleton.mp h
          exact List.infix_rfl
      | cons r ps =>
          rcases List.mem_cons.mp h with rfl | h
          · exact (List.prefix_append p _).isInfix
          · apply (ih h).trans
            apply List.IsSuffix.isInfix
            exact (List.suffix_cons sep _).trans (List.suffix_append q _)

/-- The pieces of a text stand in it. -/
theorem infix_of_mem_splitOn {sep : Char} {t p : Text} (h : p ∈ splitOn sep t) :
  p <:+: t
  := by
  have hinfix := infix_joinWith sep h
  rwa [joinWith_splitOn] at hinfix

/-- A text is cut at every separator. -/
theorem length_splitOn (sep : Char) (t : Text) :
  (splitOn sep t).length = t.count sep + 1
  := by
  induction t with
  | nil => rfl
  | cons c t ih =>
      by_cases hc : c = sep
      · rw [splitOn, if_pos hc, List.length_cons, ih, hc, List.count_cons_self]
      · obtain ⟨p, ps, hp, hcp⟩ := splitOn_cons_of_ne hc t
        rw [hp] at ih
        rw [hcp, List.count_cons_of_ne hc, ← ih]
        rfl

/-- A text that is made of pieces without the separator is cut into them. -/
theorem splitOn_joinWith {sep : Char} {ps : List Text} (hne : ps ≠ []) (h : ∀ p ∈ ps, sep ∉ p) :
  splitOn sep (joinWith sep ps) = ps
  := by
  induction ps with
  | nil => exact absurd rfl hne
  | cons p ps ih =>
      obtain ⟨hp, hps⟩ := List.forall_mem_cons.mp h
      cases ps with
      | nil => rw [joinWith, splitOn_of_notMem hp]
      | cons q qs => rw [joinWith, splitOn_append_cons hp, ih (List.cons_ne_nil q qs) hps]

/-- Trimming a text at the start trims its first piece. -/
theorem map_trim_splitOn_trimStart {sep : Char} (hsep : isBlank sep = false) (t : Text) :
  (splitOn sep (trimStart t)).map trim = (splitOn sep t).map trim
  := by
  induction t with
  | nil => rfl
  | cons c t ih =>
      cases hc : isBlank c with
      | false => rw [trimStart, List.dropWhile_cons_of_neg (by simp [hc])]
      | true =>
          have hne : c ≠ sep := by
            rintro rfl
            rw [hc] at hsep
            cases hsep
          obtain ⟨p, ps, hp, hcp⟩ := splitOn_cons_of_ne hne t
          have htrim : trim (c :: p) = trim p := by
            have hblank : ∀ d ∈ [c], isBlank d = true := by simpa using hc
            exact trim_append_of_blank hblank p
          rw [trimStart, List.dropWhile_cons_of_pos hc, ← trimStart, ih, hcp, hp, List.map_cons,
            List.map_cons, htrim]

/-- Trimming a text at the end trims its last piece. -/
theorem map_trimEnd_splitOn_trimEnd {sep : Char} (hsep : isBlank sep = false) (t : Text) :
  (splitOn sep (trimEnd t)).map trimEnd = (splitOn sep t).map trimEnd
  := by
  induction t with
  | nil => rfl
  | cons c t ih =>
      rw [trimEnd_cons]
      by_cases hc : c = sep
      · have hneg : ¬ (trimEnd t = [] ∧ isBlank c = true) := by
          rintro ⟨-, h⟩
          rw [hc, hsep] at h
          cases h
        rw [if_neg hneg, splitOn, if_pos hc, splitOn, if_pos hc, List.map_cons, List.map_cons, ih]
      · obtain ⟨p, ps, hp, hcp⟩ := splitOn_cons_of_ne hc t
        obtain ⟨q, qs, hq, hcq⟩ := splitOn_cons_of_ne hc (trimEnd t)
        rw [hp, hq, List.map_cons, List.map_cons] at ih
        obtain ⟨hpq, hpsqs⟩ := List.cons.inj ih
        rw [hcp, List.map_cons, trimEnd_cons]
        by_cases ht : trimEnd t = [] ∧ isBlank c = true
        · rw [ht.1] at hq
          obtain ⟨rfl, rfl⟩ := List.cons.inj hq
          rw [if_pos ht, if_pos ⟨hpq.symm, ht.2⟩, ← hpsqs]
          rfl
        · rw [if_neg ht, hcq, List.map_cons, hpsqs, trimEnd_cons, hpq]

/-- To trim a text is to trim its first and its last piece. -/
theorem map_trim_splitOn_trim {sep : Char} (hsep : isBlank sep = false) (t : Text) :
  (splitOn sep (trim t)).map trim = (splitOn sep t).map trim
  := by
  have htrim : ∀ ps qs : List Text, ps.map trimEnd = qs.map trimEnd →
      ps.map trim = qs.map trim := by
    intro ps qs h
    have hcongr := congrArg (List.map trimStart) h
    rw [List.map_map, List.map_map] at hcongr
    rw [show trim = trimStart ∘ trimEnd from funext trim_eq_trimStart_trimEnd]
    exact hcongr
  rw [trim, htrim _ _ (map_trimEnd_splitOn_trimEnd hsep (trimStart t)),
    map_trim_splitOn_trimStart hsep]

end StylePrune.Text
