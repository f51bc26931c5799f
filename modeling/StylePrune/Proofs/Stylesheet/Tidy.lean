import Mathlib.Data.List.Infix
import StylePrune.Proofs.Stylesheet.Calm

/-!
# Text whose comments and strings end in it

A tidy text may hold comments and strings, if they end in it.  Cleaning and masking a stylesheet
that starts with such a text, where a statement or a line ends behind it, is cleaning and masking
the text by itself and going on behind it: nothing of the text reaches further, and nothing behind
it reaches back.
-/

namespace StylePrune.Stylesheet

open Text

/-! ### Comments and strings -/

/-- Whether a piece of a text, cut into comments, strings and other characters, cannot come out
otherwise in a text that goes on with the given character. -/
def Settled (d : Char) : Piece → Prop
  | .plain c => c ≠ '"' ∧ c ≠ '\'' ∧ c ≠ '/'
  | .found u => d = '\n' ∨ u.take 2 ≠ ['/', '/']

instance (d : Char) : DecidablePred (Settled d)
  | .plain c => inferInstanceAs (Decidable (c ≠ '"' ∧ c ≠ '\'' ∧ c ≠ '/'))
  | .found u => inferInstanceAs (Decidable (d = '\n' ∨ u.take 2 ≠ ['/', '/']))

theorem afterString_cons {c : Char} (hc : c ≠ '\\') (mark : Char) (t : Text) :
  afterString mark (c :: t)
    = if c = mark then some t else if c = '\n' then none else afterString mark t
  := by
  rw [afterString]
  · rintro rfl
    exact absurd rfl hc
  · rintro _ _ rfl
    exact absurd rfl hc

/-- A character that takes neither the end of a text nor a character with it is no backslash. -/
theorem ne_of_no_escape {c : Char} {t : Text} (hlast : c = '\\' → t = [] → False)
    (hpair : ∀ d u, c = '\\' → t = d :: u → False) :
  c ≠ '\\'
  := by
  intro hc
  cases t with
  | nil => exact hlast hc rfl
  | cons d u => exact hpair d u hc rfl

/-- A string that ends in a text ends there whatever follows. -/
theorem afterString_append {mark : Char} {t v : Text} (h : afterString mark t = some v)
    (rest : Text) :
  afterString mark (t ++ rest) = some (v ++ rest)
  := by
  fun_induction afterString mark t with
  | case1 => cases h
  | case2 => cases h
  | case3 c t ih => exact ih h
  | case4 t hlast hpair =>
      obtain rfl := Option.some.inj h
      rw [List.cons_append, afterString_cons (ne_of_no_escape hlast hpair), if_pos rfl]
  | case5 => cases h
  | case6 c t hlast hpair hc hline ih =>
      rw [List.cons_append, afterString_cons (ne_of_no_escape hlast hpair), if_neg hc, if_neg hline]
      exact ih h

/-- A comment that ends in a text ends there whatever follows. -/
theorem afterFirst?_append {t v : Text} (h : afterFirst? ['*', '/'] t = some v) (rest : Text) :
  afterFirst? ['*', '/'] (t ++ rest) = some (v ++ rest)
  := by
  have hnone : ∀ {c d : Char}, ¬ ('*' = c ∧ '/' = d) → ∀ u,
      after? ['*', '/'] (c :: d :: u) = none := by
    intro c d hcd u
    by_cases hc : '*' = c
    · have hd : '/' ≠ d := fun hd => hcd ⟨hc, hd⟩
      rw [after?, if_pos hc, after?, if_neg hd]
    · rw [after?, if_neg hc]
  induction t with
  | nil => cases h
  | cons c t ih =>
      cases t with
      | nil =>
          -- one character is too short to end a comment
          have hshort : after? ['*', '/'] [c] = none := by
            rw [after?]
            split
            · rfl
            · rfl
          rw [afterFirst?, hshort] at h
          cases h
      | cons d t =>
          by_cases hcd : '*' = c ∧ '/' = d
          · obtain ⟨rfl, rfl⟩ := hcd
            obtain rfl := Option.some.inj h
            rfl
          · rw [afterFirst?, hnone hcd] at h
            rw [List.cons_append, List.cons_append, afterFirst?, hnone hcd]
            exact ih h

/-- What is found in a text is found there whatever follows; a line comment only where the line ends
behind the text. -/
theorem commentOrString_append {d : Char} {rest : Text} (hrest : ∀ c ∈ rest.head?, c = d)
    {before : Option Char} {u v : Text} (h : commentOrString before u = some v)
    (hsettled : Settled d (.found (u.take (u.length - v.length)))) :
  commentOrString before (u ++ rest) = some (v ++ rest)
  := by
  unfold commentOrString at h
  split at h
  · exact afterString_append h rest
  · exact afterString_append h rest
  · exact afterFirst?_append h rest
  · next w =>
    split at h
    · cases h
    · next hbefore =>
      obtain rfl := Option.some.inj h
      have hline : d = '\n' := by
        apply hsettled.resolve_right
        intro hne
        apply hne
        have hle : (w.dropWhile (· != '\n')).length ≤ w.length :=
          (List.dropWhile_sublist _).length_le
        have hlength : ∃ n,
            ('/' :: '/' :: w).length - (w.dropWhile (· != '\n')).length = n + 2 := by
          use w.length - (w.dropWhile (· != '\n')).length
          simp only [List.length_cons]
          omega
        obtain ⟨n, hn⟩ := hlength
        rw [hn]
        rfl
      rw [List.cons_append, List.cons_append, commentOrString, if_neg hbefore,
        List.dropWhile_append]
      split
      · next hempty =>
        rw [List.isEmpty_iff.mp hempty, List.nil_append]
        cases rest with
        | nil => rfl
        | cons e rest =>
            obtain rfl : e = '\n' := (hrest e rfl).trans hline
            rfl
      · rfl
  · cases h

/-- A character that is not a blank is left by masking only if any rewriting leaves it. -/
theorem mem_replace_of_mem_replace_spaced {s : Shape} {t : Text} {c : Char}
    (h : c ∈ s.replace spaced t) (hblank : c ≠ ' ' ∧ c ≠ '\n') (f : Text → Text) :
  c ∈ s.replace f t
  := by
  obtain ⟨p, hp, hc⟩ := List.mem_flatMap.mp h
  apply List.mem_flatMap.mpr
  use p, hp
  cases p with
  | plain e => exact hc
  | found u =>
      obtain ⟨e, -, rfl⟩ := List.mem_map.mp hc
      split at hblank
      · exact absurd rfl hblank.2
      · exact absurd rfl hblank.1

/-- Rewriting comments and strings passes over a text in which they all end. -/
theorem passes_commentOrString_of_settled {t : Text} {d : Char}
    (hd : d = '\n' ∨ endsStatement d = true) (h : ∀ p ∈ commentOrString.pieces t, Settled d p)
    (f : Text → Text) :
  Passes (commentOrString.replace f) t (commentOrString.replace f t) d
  := by
  apply Shape.passes_of_pieces (Settled d)
  · intro c hc before u
    exact commentOrString_cons_eq_none hc.1 hc.2.1 hc.2.2 before u
  · intro rest hrest before u v hv hsettled
    apply commentOrString_append hrest hv hsettled
  · exact h
  · have hstop : Stopped [d] := by
      rintro c ⟨⟩
      exact hd
    exact hstop.forall (p := fun c => c ≠ '"' ∧ c ≠ '\'' ∧ c ≠ '/') (by decide) d rfl
  · apply commentOrString_before hd

/-! ### Tidy texts -/

/-- A text without groups whose comments and strings end in it, where a certain character follows,
and whose other characters are quiet when they are taken out or written over. -/
structure Tidy (t : Text) (d : Char) : Prop where
  group : '(' ∉ t
  settled : ∀ p ∈ commentOrString.pieces t, Settled d p
  emptied : Quiet (commentOrString.replace emptied t)
  spaced : Quiet (commentOrString.replace spaced t)
  brace : d = '\x7b' → (commentOrString.replace Stylesheet.emptied t).getLast? ≠ some '#'
    ∧ (commentOrString.replace Stylesheet.spaced t).getLast? ≠ some '#'

instance : DecidablePred Quiet := fun t =>
  decidable_of_iff
    (t.contains '/' = false ∧ t.contains '(' = false
      ∧ t.tails.all (fun u => noiseWords.all fun word => (afterAnyCase? word u).isNone) = true
      ∧ t.tails.all (fun u => (after? ['#', '\x7b'] u).isNone) = true)
    (by
      constructor
      · rintro ⟨hslash, hgroup, hwords, hinterpolations⟩
        constructor
        · simpa using hslash
        · simpa using hgroup
        · simpa [List.mem_tails] using hwords
        · simpa [List.mem_tails] using hinterpolations
      · rintro ⟨hslash, hgroup, hwords, hinterpolations⟩
        and_intros
        · simpa using hslash
        · simpa using hgroup
        · simpa [List.mem_tails] using hwords
        · simpa [List.mem_tails] using hinterpolations)

instance (t : Text) (d : Char) : Decidable (Tidy t d) :=
  decidable_of_iff
    (t.contains '(' = false ∧ (∀ p ∈ commentOrString.pieces t, Settled d p)
      ∧ Quiet (commentOrString.replace emptied t) ∧ Quiet (commentOrString.replace spaced t)
      ∧ (d = '\x7b' → (commentOrString.replace emptied t).getLast? ≠ some '#'
        ∧ (commentOrString.replace spaced t).getLast? ≠ some '#'))
    (by
      constructor
      · rintro ⟨hgroup, hsettled, hemptied, hspaced, hbrace⟩
        exact ⟨by simpa using hgroup, hsettled, hemptied, hspaced, hbrace⟩
      · rintro ⟨hgroup, hsettled, hemptied, hspaced, hbrace⟩
        exact ⟨by simpa using hgroup, hsettled, hemptied, hspaced, hbrace⟩)

namespace Tidy

variable {t : Text} {d : Char} (h : Tidy t d) (hd : d = '\n' ∨ endsStatement d = true)

include h hd

/-- Cleaning a tidy text is taking its comments and strings out. -/
theorem passes_strip :
  Passes strip t (commentOrString.replace Stylesheet.emptied t) d
  := by
  have hword := passes_words hd h.emptied (fun hb => (h.brace hb).1) fun _ => []
  have hgroup := passes_dropGroups hd h.emptied.group
  have hcomment := passes_commentOrString_of_settled hd h.settled Stylesheet.emptied
  rw [strip_eq_comp]
  apply hgroup.comp
  apply hword.comp
  apply hcomment.comp
  apply passes_urlCall hd h.group

/-- Masking a tidy text is writing blanks for its comments and strings. -/
theorem passes_mask :
  Passes mask t (commentOrString.replace Stylesheet.spaced t) d
  := by
  have hword := passes_words hd h.spaced (fun hb => (h.brace hb).2) Stylesheet.spaced
  have hcomment := passes_commentOrString_of_settled hd h.settled Stylesheet.spaced
  rw [mask_eq_comp]
  apply hword.comp
  apply hcomment.comp
  apply passes_urlCall hd h.group

end Tidy

end StylePrune.Stylesheet
