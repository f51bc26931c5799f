import StylePrune.Stylesheet.Clean

/-!
# The columns of a masked stylesheet

Masking writes one character for each character of a stylesheet: the same one or a space, and for a
line feed always a line feed (`columns_mask`).  So what is found in a masked stylesheet, but for
spaces, stands in the same place of the stylesheet itself, and that is where its statements are cut.
-/

namespace StylePrune.Stylesheet

open Text

/-- Whether the second text is the first one with spaces for some of its characters, but for none of
its line feeds. -/
structure Masks (t u : Text) : Prop where
  lineFeeds : u.map (· == '\n') = t.map (· == '\n')
  column : ∀ i : Nat, u[i]? = t[i]? ∨ u[i]? = some ' '

namespace Masks

variable {t t' u u' v : Text}

theorem refl (t : Text) :
  Masks t t
  := ⟨rfl, fun _ => .inl rfl⟩

theorem length (h : Masks t u) :
  u.length = t.length
  := by
  have hlength := congrArg List.length h.lineFeeds
  rwa [List.length_map, List.length_map] at hlength

theorem append (h : Masks t u) (h' : Masks t' u') :
  Masks (t ++ t') (u ++ u')
  := by
  constructor
  · rw [List.map_append, List.map_append, h.lineFeeds, h'.lineFeeds]
  · intro i
    rw [List.getElem?_append, List.getElem?_append, h.length]
    split
    · exact h.column i
    · exact h'.column (i - t.length)

theorem trans (h : Masks t u) (h' : Masks u v) :
  Masks t v
  := by
  constructor
  · rw [h'.lineFeeds, h.lineFeeds]
  · intro i
    rcases h'.column i with heq | hspace
    · rw [heq]
      exact h.column i
    · exact .inr hspace

theorem lineFeed_iff (h : Masks t u) (i : Nat) :
  u[i]? = some '\n' ↔ t[i]? = some '\n'
  := by
  have hview : ∀ w : Text, w[i]? = some '\n' ↔ (w.map (· == '\n'))[i]? = some true := by
    intro w
    simp
  rw [hview, hview, h.lineFeeds]

/-- What is found in the masked text, and is no space, is found in the other one. -/
theorem eq_some (h : Masks t u) {i : Nat} {c : Char} (hc : c ≠ ' ') (hu : u[i]? = some c) :
  t[i]? = some c
  := by
  rcases h.column i with heq | hspace
  · rw [← heq, hu]
  · rw [hspace] at hu
    exact absurd (Option.some.inj hu).symm hc

theorem spaced (t : Text) :
  Masks t (spaced t)
  := by
  rw [Stylesheet.spaced]
  constructor
  · rw [List.map_map]
    apply List.map_congr_left
    intro c _
    rw [Function.comp_apply]
    split
    · next hc => rw [hc]
    · next hc => simp [hc]
  · intro i
    rw [List.getElem?_map]
    cases t[i]? with
    | none => exact .inl rfl
    | some c =>
        rw [Option.map_some]
        split
        · next hc => exact .inl (congrArg some hc.symm)
        · exact .inr rfl

/-- A masked text stays one when spaces are written for the constructs of a further shape. -/
theorem replace (h : Masks t u) (s : Shape) :
  Masks t (s.replace Stylesheet.spaced u)
  := by
  apply h.trans
  exact Shape.replace_related refl append (fun x _ => spaced x) s u

end Masks

theorem masks_mask (t : Text) :
  Masks t (mask t)
  := by
  have haddress := (Masks.refl t).replace urlCall
  have hquoted := haddress.replace commentOrString
  have hdata := hquoted.replace dataAddress
  have hword := hdata.replace namespaceOrLink
  exact hword.replace interpolation

theorem length_mask (t : Text) :
  (mask t).length = t.length
  := (masks_mask t).length

/-- A masked stylesheet is as long as the stylesheet and has in each place the same character or a
space; it has line feeds in the same places, and all else that it shows stands in the same place of
the stylesheet. -/
theorem columns_mask (t : Text) :
  (mask t).length = t.length
    ∧ (∀ i : Nat, (mask t)[i]? = t[i]? ∨ (mask t)[i]? = some ' ')
    ∧ (∀ i : Nat, (mask t)[i]? = some '\n' ↔ t[i]? = some '\n')
    ∧ ∀ (i : Nat) c, (mask t)[i]? = some c → c ≠ ' ' → t[i]? = some c
  := by
  have hmasks := masks_mask t
  refine ⟨length_mask t, hmasks.column, hmasks.lineFeed_iff, ?_⟩
  intro i c hmask hc
  exact hmasks.eq_some hc hmask

end StylePrune.Stylesheet
