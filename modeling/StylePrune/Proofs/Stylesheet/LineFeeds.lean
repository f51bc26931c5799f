import StylePrune.Proofs.Stylesheet.Spelling
import StylePrune.Proofs.Text.Takes

/-!
# The line feeds that cleaning loses

Cleaning keeps the line feeds of comments and of groups.  It keeps none of an address, of a string
and of an interpolation, and other noise has none.  So the lines of a cleaned stylesheet are as many
as those of the stylesheet exactly if no address, string or interpolation that is found on the way
goes on over the end of a line (`keepsLines_strip_iff`).
-/

namespace StylePrune.Stylesheet

open Text

/-! ### The stages of cleaning -/

/-- The stylesheet without the addresses in its `url(...)`. -/
def withoutAddresses (t : Text) : Text := urlCall.replace (fun _ => ['u', 'r', 'l', '(', ')']) t

/-- The stylesheet without comments and without what its strings say. -/
def withoutStrings (t : Text) : Text := commentOrString.replace emptied (withoutAddresses t)

/-- The stylesheet without embedded data, namespaces and links. -/
def withoutWords (t : Text) : Text :=
  namespaceOrLink.replace (fun _ => []) (dataAddress.replace (fun _ => []) (withoutStrings t))

theorem strip_eq_stages (t : Text) :
  strip t = dropGroups (interpolation.replace (fun _ => []) (withoutWords t))
  := rfl

/-- What a piece has of a string. -/
def stringOf : Piece → Text
  | .plain _ => []
  | .found t => if t.head? = some '"' ∨ t.head? = some '\'' then t else []

/-- The strings of a text, one behind the other. -/
def stringsIn (t : Text) : Text := (commentOrString.pieces t).flatMap stringOf

/-- The noise of which cleaning leaves no line feeds: addresses, strings and interpolations. -/
def lost (t : Text) : Text :=
  urlCall.constructs t ++ stringsIn (withoutAddresses t)
    ++ interpolation.constructs (withoutWords t)

/-! ### Noise on one line -/

theorem ne_lineFeed {f : Char → Bool} (h : f '\n' = false) (c : Char) (hc : f c = true) :
  c ≠ '\n'
  := by
  rintro rfl
  rw [h] at hc
  cases hc

theorem takes_afterParameters :
  Takes (· ≠ '\n') fun t => some (afterParameters 0 t)
  := by
  have hparameter : Takes (· ≠ '\n') afterParameter :=
    (Takes.after? (by simp)).bind (Takes.afterSome? (ne_lineFeed rfl))
  intro t u hu
  obtain rfl := Option.some.inj hu
  induction hn : t.length using Nat.strong_induction_on generalizing t with
  | _ n ih =>
      subst hn
      rw [afterParameters_zero]
      cases hp : afterParameter t with
      | none => exact ⟨[], rfl, List.forall_mem_nil _⟩
      | some v =>
          obtain ⟨x, hx, hxfeed⟩ := hparameter t v hp
          obtain ⟨y, hy, hyfeed⟩ := ih v.length (steady_afterParameter.length_lt rfl hp) v rfl rfl
          refine ⟨x ++ y, ?_, List.forall_mem_append.mpr ⟨hxfeed, hyfeed⟩⟩
          rw [List.append_assoc, Option.elim, ← hy, hx]

/-- Embedded data stand on one line. -/
theorem takes_dataAddress (before : Option Char) :
  Takes (· ≠ '\n') (dataAddress before)
  := by
  apply (Takes.afterAnyCase? _).bind
  · apply (Takes.afterSome? (ne_lineFeed rfl)).bind
    apply (takes_afterParameters.bind (Takes.after? (by simp))).bind
    exact Takes.dropWhile (ne_lineFeed rfl)
  · rintro c hc rfl
    revert hc
    decide

/-- So do namespaces and links. -/
theorem takes_namespaceOrLink (before : Option Char) :
  Takes (· ≠ '\n') (namespaceOrLink before)
  := by
  have hword : ∀ word : Text, foldCase '\n' ∉ word → Takes (· ≠ '\n') (afterAnyCase? word) := by
    intro word hword
    apply Takes.afterAnyCase?
    rintro c hc rfl
    exact hword hc
  apply Takes.orElse
  · apply (hword _ (by decide)).bind
    apply ((Takes.getD _).bind (Takes.after? (by simp))).bind
      (Takes.dropWhile (ne_lineFeed rfl))
    exact (Takes.after? (by simp)).bind (Takes.afterSome? (ne_lineFeed rfl))
  · apply (hword _ (by decide)).bind
    apply ((Takes.getD (hword _ (by decide))).bind (Takes.after? (by simp))).bind
    exact Takes.dropWhile (ne_lineFeed rfl)

/-! ### Counting line feeds -/

theorem count_lineFeeds (t : Text) :
  (lineFeeds t).count '\n' = t.count '\n'
  := by
  rw [lineFeeds, List.count_filter]
  rfl

/-- Of a comment all line feeds are left, and of a string none. -/
theorem count_emptied (t : Text) :
  (emptied t).count '\n' + (stringOf (.found t)).count '\n' = t.count '\n'
  := by
  unfold emptied
  split
  · simp [stringOf]
  · simp [stringOf]
  · next hdouble hsingle =>
    have hhead : ¬ (t.head? = some '"' ∨ t.head? = some '\'') := by
      rintro (h | h)
      · obtain ⟨u, rfl⟩ := List.head?_eq_some_iff.mp h
        exact hdouble u rfl
      · obtain ⟨u, rfl⟩ := List.head?_eq_some_iff.mp h
        exact hsingle u rfl
    rw [stringOf, if_neg hhead, count_lineFeeds]
    rfl

theorem count_replace_emptied (t : Text) :
  (commentOrString.replace emptied t).count '\n' + (stringsIn t).count '\n' = t.count '\n'
  := by
  have hpiece : ∀ p : Piece, (p.render emptied).count '\n' + (stringOf p).count '\n'
      = p.source.count '\n' := by
    intro p
    cases p with
    | plain c => rfl
    | found u => exact count_emptied u
  have hpieces : ∀ ps : List Piece, (ps.flatMap (·.render emptied)).count '\n'
      + (ps.flatMap stringOf).count '\n' = (ps.flatMap Piece.source).count '\n' := by
    intro ps
    induction ps with
    | nil => rfl
    | cons p ps ih =>
        simp only [List.flatMap_cons, List.count_append, ← ih, ← hpiece]
        omega
  have hcount := hpieces (commentOrString.pieces t)
  rwa [Shape.source_pieces] at hcount

/-- Taking noise out that stands on one line loses no line feeds. -/
theorem count_replace_of_takes {s : Shape} (h : ∀ before, Takes (· ≠ '\n') (s before)) (t : Text) :
  (s.replace (fun _ => []) t).count '\n' = t.count '\n'
  := by
  have hnone : (s.constructs t).count '\n' = 0 := by
    apply List.count_eq_zero.mpr
    intro hmem
    obtain ⟨x, hx, hfeed⟩ := Shape.mem_constructs_iff.mp hmem
    exact Shape.forall_mem_of_found h hx '\n' hfeed rfl
  have hcount : (s.replace (fun _ => []) t).count '\n' + (s.constructs t).count '\n'
      = t.count '\n' := Shape.count_replace (fun _ => List.not_mem_nil) t
  rwa [hnone] at hcount

theorem count_dropGroups (t : Text) :
  (dropGroups t).count '\n' = t.count '\n'
  := by
  have hround : ∀ t, (dropInnermost t).count '\n' = t.count '\n' := by
    apply Shape.replace_related (R := fun t u => u.count '\n' = t.count '\n')
    · exact fun t => rfl
    · intro t t' u u' ht ht'
      rw [List.count_append, List.count_append, ht, ht']
    · exact fun u _ => count_lineFeeds u
  rw [dropGroups, dropGroupsWithin_eq_iterate]
  induction t.length generalizing t with
  | zero => rfl
  | succ n ih => rw [Function.iterate_succ_apply, ih, hround]

/-- The line feeds of a stylesheet are those of its cleaned form and those of the noise that loses
them. -/
theorem count_strip (t : Text) :
  (strip t).count '\n' + (lost t).count '\n' = t.count '\n'
  := by
  have haddress : (withoutAddresses t).count '\n' + (urlCall.constructs t).count '\n'
      = t.count '\n' := Shape.count_replace (fun _ => by decide) t
  have hstring : (withoutStrings t).count '\n' + (stringsIn (withoutAddresses t)).count '\n'
      = (withoutAddresses t).count '\n' := count_replace_emptied _
  have hword : (withoutWords t).count '\n' = (withoutStrings t).count '\n' := by
    rw [withoutWords, count_replace_of_takes takes_namespaceOrLink,
      count_replace_of_takes takes_dataAddress]
  have hinterpolation : (strip t).count '\n'
      + (interpolation.constructs (withoutWords t)).count '\n' = (withoutWords t).count '\n' := by
    rw [strip_eq_stages, count_dropGroups]
    exact Shape.count_replace (fun _ => List.not_mem_nil) _
  rw [lost, List.count_append, List.count_append]
  omega

theorem length_lines (t : Text) :
  (lines t).length = t.count '\n' + 1
  := length_splitOn '\n' t

/-- Cleaning that keeps the number of lines loses no line feeds. -/
theorem lineFeed_notMem_lost {t : Text} (h : (lines t).length = (lines (strip t)).length) :
  '\n' ∉ lost t
  := by
  have hcount := count_strip t
  rw [length_lines, length_lines] at h
  rw [← List.count_eq_zero]
  omega

/-- A cleaned stylesheet has the line feeds of the stylesheet, and so its number of lines, exactly
if each address, each string and each interpolation stands on one line. -/
theorem keepsLines_strip_iff (t : Text) :
  ((strip t).count '\n' = t.count '\n' ∧ (lines (strip t)).length = (lines t).length)
    ↔ '\n' ∉ lost t
  := by
  have hcount := count_strip t
  rw [length_lines, length_lines, ← List.count_eq_zero]
  constructor
  · rintro ⟨hkept, -⟩
    omega
  · intro hnone
    constructor
    · omega
    · omega

/-- An address, a string and an interpolation that go on over the end of a line, each on its own. -/
theorem count_strip_ne :
  (let t := "url(\n)".toList;
    (strip t).count '\n' ≠ t.count '\n' ∧ (lines (strip t)).length ≠ (lines t).length)
    ∧ (let t := "\"\\\n\"".toList;
      (strip t).count '\n' ≠ t.count '\n' ∧ (lines (strip t)).length ≠ (lines t).length)
    ∧ (let t := "#\x7b\n\x7d".toList;
      (strip t).count '\n' ≠ t.count '\n' ∧ (lines (strip t)).length ≠ (lines t).length)
  := by
  decide +kernel

end StylePrune.Stylesheet
