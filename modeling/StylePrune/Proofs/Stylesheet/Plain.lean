import Mathlib.Data.List.Basic
import StylePrune.Proofs.Stylesheet.Calm

/-!
# Plain text

Every construct of noise has one of a few marks.  A text without any of them holds no noise, so
cleaning and masking leave it as it is.
-/

namespace StylePrune.Stylesheet

open Text

/-- The marks without which there is no noise. -/
def plainMarks : Text := ['"', '\'', '/', '(', ',', '=', '#']

/-- A text without the marks of noise. -/
def Plain (t : Text) : Prop := ∀ c ∈ t, c ∉ plainMarks

instance : DecidablePred Plain := fun t =>
  decidable_of_iff (t.all fun c => !plainMarks.contains c) (by simp [Plain])

/-- What follows the parameters of embedded data is an end of the text. -/
theorem suffix_afterParameters (skip : Nat) (t : Text) :
  afterParameters skip t <:+ t
  := by
  induction t generalizing skip with
  | nil =>
      cases skip with
      | zero => exact List.suffix_rfl
      | succ skip => exact List.suffix_rfl
  | cons c t ih =>
      cases skip with
      | succ skip =>
          rw [afterParameters]
          apply (ih skip).trans (List.suffix_cons c t)
      | zero =>
          rw [afterParameters]
          split
          · split
            · exact List.suffix_rfl
            · next n _ => apply (ih (n + 1)).trans (List.suffix_cons c t)
          · exact List.suffix_rfl

theorem suffix_of_afterSome? {p : Char → Bool} {t rest : Text} (h : afterSome? p t = some rest) :
  rest <:+ t
  := by
  cases t with
  | nil => cases h
  | cons c t =>
      rw [afterSome?] at h
      split at h
      · obtain rfl := Option.some.inj h
        apply (List.dropWhile_suffix p).trans (List.suffix_cons c t)
      · cases h

namespace Plain

variable {t : Text}

theorem notMem (h : Plain t) {c : Char} (hc : c ∈ plainMarks) :
  c ∉ t
  := by
  intro hmem
  apply h c hmem hc

theorem of_suffix (h : Plain t) {u : Text} (hu : u <:+ t) :
  Plain u
  := by
  intro c hc
  apply h c (hu.subset hc)

theorem append {u : Text} (h : Plain t) (hu : Plain u) :
  Plain (t ++ u)
  := by
  intro c hc
  rcases List.mem_append.mp hc with hc | hc
  · exact h c hc
  · exact hu c hc

theorem cons {c : Char} (hc : c ∉ plainMarks) (h : Plain t) :
  Plain (c :: t)
  := List.forall_mem_cons.mpr ⟨hc, h⟩

/-- Blanks are no marks. -/
theorem of_blank (h : ∀ c ∈ t, isBlank c = true) :
  Plain t
  := by
  intro c hc hmark
  have hmarks : plainMarks.all (fun d => !isBlank d) = true := rfl
  have hblank := List.all_eq_true.mp hmarks c hmark
  rw [h c hc] at hblank
  cases hblank

/-- No embedded data lacks the comma. -/
theorem dataAddress_eq_none (h : Plain t) (before : Option Char) :
  dataAddress before t = none
  := by
  rw [Option.eq_none_iff_forall_ne_some]
  intro r hr
  simp only [dataAddress, Option.bind_eq_bind, Option.bind_eq_some_iff] at hr
  obtain ⟨u, hu, v, hv, w, hw, -⟩ := hr
  have hcomma : ',' ∈ afterParameters 0 v := mem_of_after? hw List.mem_cons_self
  have hsuffix : afterParameters 0 v <:+ t :=
    ((suffix_afterParameters 0 v).trans (suffix_of_afterSome? hv)).trans
      (suffix_of_afterAnyCase? hu)
  exact h.notMem (by decide) (hsuffix.subset hcomma)

/-- No declaration of a namespace lacks the equals sign, and no link the slash. -/
theorem namespaceOrLink_eq_none (h : Plain t) (before : Option Char) :
  namespaceOrLink before t = none
  := by
  have hstopped : Stopped [] := by
    rintro d ⟨⟩
  have hlink := link_eq_none hstopped (h.notMem (c := '/') (by decide))
  rw [List.append_nil] at hlink
  rw [namespaceOrLink, hlink, Option.orElse_eq_orElse, Option.orElse_eq_or, Option.or_none,
    Option.eq_none_iff_forall_ne_some]
  intro r hr
  simp only [Option.bind_eq_bind, Option.bind_eq_some_iff] at hr
  obtain ⟨u, hu, v, hv, -⟩ := hr
  have hu := suffix_of_afterAnyCase? hu
  have hequals := mem_of_after? hv List.mem_cons_self
  apply h.notMem (c := '=') (by decide)
  cases hnamed : (after? [':'] u).bind (afterSome? fun c => isWord c || c == '-') with
  | none =>
      rw [hnamed] at hequals
      exact hu.subset hequals
  | some w =>
      rw [hnamed] at hequals
      obtain ⟨x, hx, hw⟩ := Option.bind_eq_some_iff.mp hnamed
      have happend : after? [':'] (u ++ []) = some x := by
        rwa [List.append_nil]
      obtain ⟨-, v, hv, rfl⟩ := after?_append (by rintro d ⟨⟩) happend
      rw [List.append_nil] at hw
      exact hu.subset (hv.subset ((suffix_of_afterSome? hw).subset hequals))

theorem interpolation_eq_none (h : Plain t) (before : Option Char) :
  interpolation before t = none
  := by
  rw [Option.eq_none_iff_forall_ne_some]
  intro r hr
  simp only [interpolation, Option.bind_eq_bind, Option.bind_eq_some_iff] at hr
  obtain ⟨u, hu, -⟩ := hr
  exact h.notMem (by decide) (mem_of_after? hu List.mem_cons_self)

section Rewriting

variable (h : Plain t) (f : Text → Text)

include h

theorem replace_urlCall :
  urlCall.replace f t = t
  := by
  apply Shape.replace_of_idle
  intro u hu before
  apply urlCall_eq_none (by rintro d ⟨⟩)
  apply (h.of_suffix hu).notMem (by decide)

theorem replace_commentOrString :
  commentOrString.replace f t = t
  := by
  apply Shape.replace_of_idle
  intro u hu before
  apply commentOrString_eq_none (by rintro d ⟨⟩)
  intro c hc hmark
  have hmarks : noiseMarks ⊆ plainMarks := List.subset_append_left _ [',', '=', '#']
  exact h c (hu.subset (List.mem_of_mem_head? hc)) (hmarks hmark)

theorem replace_dataAddress :
  dataAddress.replace f t = t
  := by
  apply Shape.replace_of_idle
  intro u hu before
  rw [List.append_nil]
  apply (h.of_suffix hu).dataAddress_eq_none

theorem replace_namespaceOrLink :
  namespaceOrLink.replace f t = t
  := by
  apply Shape.replace_of_idle
  intro u hu before
  rw [List.append_nil]
  apply (h.of_suffix hu).namespaceOrLink_eq_none

theorem replace_interpolation :
  interpolation.replace f t = t
  := by
  apply Shape.replace_of_idle
  intro u hu before
  rw [List.append_nil]
  apply (h.of_suffix hu).interpolation_eq_none

end Rewriting

/-- Cleaning leaves a plain text as it is. -/
theorem strip_eq (h : Plain t) :
  strip t = t
  := by
  have hgroups : dropGroups t = t := (passes_dropGroups (d := '\n') (.inl rfl)
    (h.notMem (by decide))).1
  simp only [strip, h.replace_urlCall, h.replace_commentOrString, h.replace_dataAddress,
    h.replace_namespaceOrLink, h.replace_interpolation, hgroups]

/-- Masking leaves a plain text as it is. -/
theorem mask_eq (h : Plain t) :
  mask t = t
  := by
  simp only [mask, h.replace_urlCall, h.replace_commentOrString, h.replace_dataAddress,
    h.replace_namespaceOrLink, h.replace_interpolation]

end Plain

end StylePrune.Stylesheet
