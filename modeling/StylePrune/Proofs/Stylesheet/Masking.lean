import StylePrune.Proofs.Stylesheet.Veiling

/-!
# Masking and cleaning

Masking writes spaces where cleaning leaves nothing.  So words may be found in the cleaned text that
are not found in the masked one, and an interpolation that is masked is one that is taken out, but
not the other way round.  Where no word holds an end, the ends of lines and statements that cleaning
leaves are among those that masking leaves (`thins_mask`).
-/

namespace StylePrune.Stylesheet

open Text

/-! ### Embedded data, namespaces and links -/

/-- Embedded data, and the namespaces and links that are found when the data are written anew. -/
def words (f : Text → Text) (t : Text) : Text :=
  dataAddress.constructs t ++ namespaceOrLink.constructs (dataAddress.replace f t)

/-- Whether neither cleaning nor masking takes a joint for a part of embedded data, of a namespace
or of a link. -/
def Bare (t : Text) : Prop :=
  (∀ c ∈ words (fun _ => []) (withoutStrings t), isJoint c = false)
    ∧ ∀ c ∈ words spaced (commentOrString.replace spaced (urlCall.replace spaced t)),
      isJoint c = false

instance : DecidablePred Bare := fun _ =>
  @instDecidableAnd _ _ (List.decidableBAll _ _) (List.decidableBAll _ _)

theorem spared_replace {s : Shape} {t : Text} (h : ∀ c ∈ s.constructs t, isJoint c = false) :
  Spared isJoint t (s.replace (fun _ => []) t)
  := by
  apply Shape.replace_related_of_found (R := Spared isJoint) Spared.refl Spared.append
  intro x hx
  apply Spared.of_forall_not _ (List.forall_mem_nil _) (Nat.zero_le _)
  intro c hc
  exact h c (Shape.mem_constructs_iff.mpr ⟨x, hx, hc⟩)

theorem spared_replace_spaced {s : Shape} {t : Text} (h : ∀ c ∈ s.constructs t, isJoint c = false) :
  Spared isJoint (s.replace spaced t) t
  := by
  apply Shape.replace_related_of_found (R := fun t u => Spared isJoint u t) Spared.refl
    Spared.append
  intro x hx
  have hplain : ∀ c ∈ x, isJoint c = false :=
    fun c hc => h c (Shape.mem_constructs_iff.mpr ⟨x, hx, hc⟩)
  have hfeed : '\n' ∉ x := fun hmem => absurd (hplain '\n' hmem) (by decide)
  apply Spared.of_forall_not (isJoint_spaced hfeed) hplain
  rw [spaced, List.length_map]

/-! ### Interpolations -/

/-- Whether a character ends a line or a statement. -/
def isEnd (c : Char) : Bool := c == '\n' || endsStatement c

theorem interpolation_cons_eq_none {c : Char} {t : Text} (h : c ≠ '#' ∨ t.head? ≠ some '\x7b')
    (before : Option Char) :
  interpolation before (c :: t) = none
  := by
  have hafter : after? ['#', '\x7b'] (c :: t) = none := by
    rw [after?]
    split
    · next hc =>
      cases t with
      | nil => rfl
      | cons d t =>
          rw [after?, if_neg]
          rintro rfl
          rcases h with h | h
          · exact h hc.symm
          · exact h rfl
    · rfl
  rw [interpolation, hafter]
  rfl

theorem replace_interpolation_append {t rest : Text}
    (h : (∀ c ∈ t, c ≠ '#') ∨ (∀ c ∈ t, c ≠ '\x7b') ∧ rest.head? ≠ some '\x7b') (f : Text → Text) :
  interpolation.replace f (t ++ rest) = t ++ interpolation.replace f rest
  := by
  induction t with
  | nil => rfl
  | cons c t ih =>
      have hnone : interpolation none (c :: (t ++ rest)) = none := by
        apply interpolation_cons_eq_none
        rcases h with h | ⟨h, hrest⟩
        · exact .inl (h c List.mem_cons_self)
        · right
          cases t with
          | nil => exact hrest
          | cons d t =>
              intro hhead
              exact h d (List.mem_cons_of_mem c List.mem_cons_self) (Option.some.inj hhead)
      rw [List.cons_append, Shape.replace_cons_of_none (fun _ _ => rfl) hnone, ih]
      · rfl
      · rcases h with h | ⟨h, hrest⟩
        · exact .inl (List.forall_mem_cons.mp h).2
        · exact .inr ⟨(List.forall_mem_cons.mp h).2, hrest⟩

/-- What stands between the braces of an interpolation. -/
def isInner (c : Char) : Bool := c != '\x7b' && c != '\x7d'

theorem interpolation_eq_some_iff {t rest : Text} {before : Option Char} :
  interpolation before ('#' :: t) = some rest
    ↔ ∃ inner, t = '\x7b' :: (inner ++ '\x7d' :: rest) ∧ ∀ c ∈ inner, isInner c = true
  := by
  have hread : interpolation before ('#' :: t)
      = after? ['\x7b'] t >>= fun t => after? ['\x7d'] (t.dropWhile isInner) := rfl
  rw [hread, Option.bind_eq_bind, Option.bind_eq_some_iff]
  constructor
  · rintro ⟨v, ht, hv⟩
    refine ⟨v.takeWhile isInner, ?_, fun c hc => List.mem_takeWhile_imp hc⟩
    have hclosing : v.dropWhile isInner = '\x7d' :: rest := after?_eq_some_iff.mp hv
    rw [after?_eq_some_iff.mp ht, ← hclosing, List.takeWhile_append_dropWhile]
    rfl
  · rintro ⟨inner, rfl, hinner⟩
    refine ⟨inner ++ '\x7d' :: rest, rfl, ?_⟩
    rw [List.dropWhile_append_of_pos hinner]
    rfl

/-- An interpolation is written anew, and so is what follows it. -/
theorem replace_interpolation_found {inner rest : Text} (hinner : ∀ c ∈ inner, isInner c = true)
    (f : Text → Text) :
  interpolation.replace f ('#' :: '\x7b' :: (inner ++ '\x7d' :: rest))
    = f ('#' :: '\x7b' :: (inner ++ ['\x7d'])) ++ interpolation.replace f rest
  := by
  have hsplit : '#' :: '\x7b' :: (inner ++ '\x7d' :: rest)
      = '#' :: '\x7b' :: (inner ++ ['\x7d']) ++ rest := by
    simp
  have hsome : interpolation none ('#' :: '\x7b' :: (inner ++ '\x7d' :: rest)) = some rest :=
    interpolation_eq_some_iff.mpr ⟨inner, rfl, hinner⟩
  rw [hsplit] at hsome ⊢
  exact Shape.replace_append_of_construct (fun _ _ => rfl) (List.cons_ne_nil _ _) hsome f

/-- Where other characters stand between a hash and a brace, there is no interpolation up to the
next closing brace. -/
theorem replace_interpolation_apart {apart inner rest : Text} (hne : apart ≠ [])
    (hapart : ∀ c ∈ apart, isJoint c = false) (hinner : ∀ c ∈ inner, c ≠ '\x7b') (f : Text → Text) :
  interpolation.replace f ('#' :: (apart ++ '\x7b' :: (inner ++ '\x7d' :: rest)))
    = '#' :: (apart ++ '\x7b' :: (inner ++ '\x7d' :: interpolation.replace f rest))
  := by
  have hbefore : ∀ before t, interpolation before t = interpolation none t := fun _ _ => rfl
  have hhash : ∀ c ∈ apart, c ≠ '#' := by
    rintro c hc rfl
    exact absurd (hapart '#' hc) (by decide)
  have hhead : (apart ++ '\x7b' :: (inner ++ '\x7d' :: rest)).head? ≠ some '\x7b' := by
    obtain ⟨c, apart, rfl⟩ := List.exists_cons_of_ne_nil hne
    intro heq
    obtain rfl := Option.some.inj heq
    exact absurd (hapart _ List.mem_cons_self) (by decide)
  have hclosing : ('\x7d' :: rest).head? ≠ some '\x7b' :=
    fun heq => absurd (Option.some.inj heq) (by decide)
  rw [Shape.replace_cons_of_none hbefore (interpolation_cons_eq_none (.inr hhead) none),
    replace_interpolation_append (.inl hhash),
    Shape.replace_cons_of_none hbefore (interpolation_cons_eq_none (.inl (by decide)) none),
    replace_interpolation_append (.inr ⟨hinner, hclosing⟩),
    Shape.replace_cons_of_none hbefore (interpolation_cons_eq_none (.inl (by decide)) none)]

theorem isInner_of_not_isJoint (c : Char) (h : isJoint c = false) :
  isInner c = true
  := by
  rw [isInner, Bool.and_eq_true, bne_iff_ne, bne_iff_ne]
  constructor
  · rintro rfl
    exact absurd h (by decide)
  · rintro rfl
    exact absurd h (by decide)

theorem dropWhile_isInner {inner rest : Text} (hinner : ∀ c ∈ inner, isInner c = true) :
  (inner ++ '\x7d' :: rest).dropWhile isInner = '\x7d' :: rest
  := by
  rw [List.dropWhile_append_of_pos hinner]
  rfl

/-- An interpolation ends where it did when characters other than joints are taken out. -/
theorem exists_inner_of_spared {inner rest u : Text} (hinner : ∀ c ∈ inner, isInner c = true)
    (h : Spared isJoint (inner ++ '\x7d' :: rest) u) :
  ∃ inner' rest', u = inner' ++ '\x7d' :: rest' ∧ (∀ c ∈ inner', isInner c = true)
    ∧ Spared isJoint rest rest'
  := by
  have hbehind := h.dropWhile isInner_of_not_isJoint
  rw [dropWhile_isInner hinner] at hbehind
  rcases hbehind.of_cons with ⟨hbrace, -⟩ | ⟨c, rest', hrest', hc, hleft⟩
  · exact absurd hbrace (by decide)
  · obtain rfl : c = '\x7d' := hc.resolve_right fun hnot => absurd hnot.2 (by decide)
    refine ⟨u.takeWhile isInner, rest', ?_, fun c hc => List.mem_takeWhile_imp hc, hleft⟩
    rw [← hrest', List.takeWhile_append_dropWhile]

/-- Nor did it end elsewhere before they were taken out. -/
theorem exists_inner_of_spared_right {inner rest t : Text} (hinner : ∀ c ∈ inner, isInner c = true)
    (h : Spared isJoint t (inner ++ '\x7d' :: rest)) :
  ∃ inner' rest', t = inner' ++ '\x7d' :: rest' ∧ (∀ c ∈ inner', isInner c = true)
    ∧ Spared isJoint rest' rest
  := by
  have hbehind := h.dropWhile isInner_of_not_isJoint
  rw [dropWhile_isInner hinner] at hbehind
  obtain ⟨skipped, rest', hrest', hskipped, hleft⟩ := hbehind.of_cons_right rfl
  refine ⟨t.takeWhile isInner ++ skipped, rest', ?_, ?_, hleft⟩
  · rw [List.append_assoc, ← hrest', List.takeWhile_append_dropWhile]
  · intro c hc
    rcases List.mem_append.mp hc with hc | hc
    · exact List.mem_takeWhile_imp hc
    · exact isInner_of_not_isJoint c (hskipped c hc)

theorem isJoint_of_isEnd {c : Char} (h : isEnd c = true) :
  isJoint c = true
  := by
  rw [isEnd, Bool.or_eq_true] at h
  rw [isJoint, Bool.or_eq_true, Bool.or_eq_true]
  rcases h with h | h
  · exact .inl (.inl h)
  · exact .inr h

section Interpolation

variable {t u : Text}

/-- An interpolation that is masked is one that cleaning takes out; and where cleaning takes one out
that is not masked, what it takes was there. -/
theorem thins_interpolation_hash (h : Spared isJoint t u)
    (ih : ∀ {v w : Text}, v.length ≤ t.length → Spared isJoint v w →
      Thins isEnd (interpolation.replace spaced v) (interpolation.replace (fun _ => []) w)) :
  Thins isEnd (interpolation.replace spaced ('#' :: t))
    (interpolation.replace (fun _ => []) ('#' :: u))
  := by
  have hbefore : ∀ before t, interpolation before t = interpolation none t := fun _ _ => rfl
  cases ht : interpolation none ('#' :: t) with
  | some v =>
      obtain ⟨inner, rfl, hinner⟩ := interpolation_eq_some_iff.mp ht
      rcases h.of_cons with ⟨hbrace, -⟩ | ⟨c, u, rfl, hc, hbehind⟩
      · exact absurd hbrace (by decide)
      obtain rfl : c = '\x7b' := hc.resolve_right fun hnot => absurd hnot.2 (by decide)
      obtain ⟨inner', w, rfl, hinner', hleft⟩ := exists_inner_of_spared hinner hbehind
      rw [replace_interpolation_found hinner, replace_interpolation_found hinner']
      apply (Thins.of_sublist (List.nil_sublist _)).append (ih _ hleft)
      simp only [List.length_cons, List.length_append]
      omega
  | none =>
      cases hu : interpolation none ('#' :: u) with
      | none =>
          rw [Shape.replace_cons_of_none hbefore ht, Shape.replace_cons_of_none hbefore hu]
          exact (Thins.refl ['#']).append (ih (Nat.le_refl _) h)
      | some w =>
          obtain ⟨inner, rfl, hinner⟩ := interpolation_eq_some_iff.mp hu
          obtain ⟨apart, t, rfl, hapart, hbehind⟩ := h.of_cons_right rfl
          obtain ⟨inner', v, rfl, hinner', hleft⟩ := exists_inner_of_spared_right hinner hbehind
          have hne : apart ≠ [] := by
            rintro rfl
            have hsome : interpolation none ('#' :: '\x7b' :: (inner' ++ '\x7d' :: v)) = some v :=
              interpolation_eq_some_iff.mpr ⟨inner', rfl, hinner'⟩
            rw [List.nil_append, hsome] at ht
            cases ht
          have hbrace : ∀ c ∈ inner', c ≠ '\x7b' := by
            rintro c hc rfl
            exact absurd (hinner' _ hc) (by decide)
          have hpassed : ∀ masked : Text, '#' :: (apart ++ '\x7b' :: (inner' ++ '\x7d' :: masked))
              = '#' :: (apart ++ '\x7b' :: (inner' ++ ['\x7d'])) ++ masked := by
            simp
          rw [replace_interpolation_found hinner, replace_interpolation_apart hne hapart hbrace,
            hpassed]
          apply (Thins.of_sublist (List.nil_sublist _)).append (ih _ hleft)
          simp only [List.length_cons, List.length_append]
          omega

theorem thins_interpolation (h : Spared isJoint t u) :
  Thins isEnd (interpolation.replace spaced t) (interpolation.replace (fun _ => []) u)
  := by
  have hbefore : ∀ before t, interpolation before t = interpolation none t := fun _ _ => rfl
  have hplain : ∀ {c d}, c = d ∨ isJoint c = false ∧ isJoint d = false → Thins isEnd [d] [c] := by
    rintro c d (rfl | ⟨hc, hd⟩)
    · exact Thins.refl [c]
    · have hnot : ∀ {c}, isJoint c = false → ∀ e ∈ [c], isJoint e = false :=
        fun hc => List.forall_mem_singleton.mpr hc
      exact (Thins.of_forall_not (hnot hd) (hnot hc) (Nat.le_refl _)).weaken
        fun _ => isJoint_of_isEnd
  induction hn : t.length using Nat.strong_induction_on generalizing t u with
  | _ n ih =>
      subst hn
      cases t with
      | nil =>
          rw [h.eq_nil]
          exact Thins.refl []
      | cons d t =>
          have hnot : isJoint d = false → d ≠ '#' := by
            rintro hd rfl
            exact absurd hd (by decide)
          rcases h.of_cons with ⟨hd, hrest⟩ | ⟨c, u, rfl, hcd, hrest⟩
          · rw [Shape.replace_cons_of_none hbefore
              (interpolation_cons_eq_none (.inl (hnot hd)) none)]
            exact (Thins.of_sublist (List.nil_sublist [d])).append
              (ih _ (Nat.lt_succ_self _) hrest rfl)
          · by_cases hd : d = '#'
            · obtain rfl : c = d := hcd.resolve_right fun hjoint => hnot hjoint.2 hd
              subst hd
              exact thins_interpolation_hash hrest
                fun hle hvw => ih _ (Nat.lt_succ_of_le hle) hvw rfl
            · have hc : c ≠ '#' := by
                rcases hcd with rfl | ⟨hc, -⟩
                · exact hd
                · rintro rfl
                  exact absurd hc (by decide)
              rw [Shape.replace_cons_of_none hbefore (interpolation_cons_eq_none (.inl hc) none),
                Shape.replace_cons_of_none hbefore (interpolation_cons_eq_none (.inl hd) none)]
              exact (hplain hcd).append (ih _ (Nat.lt_succ_self _) hrest rfl)

end Interpolation

/-! ### The cleaned stylesheet and the masked one -/

theorem dropGroups_sublist (t : Text) :
  (dropGroups t).Sublist t
  := by
  rw [dropGroups, dropGroupsWithin_eq_iterate]
  induction t.length generalizing t with
  | zero => exact List.Sublist.refl t
  | succ n ih =>
      rw [Function.iterate_succ_apply]
      exact (ih (dropInnermost t)).trans (dropInnermost_sublist t)

/-- A cleaned stylesheet is left of the masked one when characters are taken out, and others that
end neither lines nor statements exchanged, if its noise loses no line feeds and its words are
bare. -/
theorem thins_mask {t : Text} (hfeed : '\n' ∉ lost t) (hbare : Bare t) :
  Thins isEnd (mask t) (strip t)
  := by
  rw [lost, List.mem_append, List.mem_append, not_or, not_or] at hfeed
  obtain ⟨⟨haddress, hstring⟩, -⟩ := hfeed
  obtain ⟨hstripped, hmasked⟩ := hbare
  rw [words, List.forall_mem_append] at hstripped hmasked
  have hstrings : ∀ x, .found x ∈ commentOrString.pieces (withoutAddresses t) →
      '\n' ∉ stringOf (.found x) := by
    intro x hx hmem
    exact hstring (List.mem_flatMap.mpr ⟨.found x, hx, hmem⟩)
  have halike : EscapeAlike false none none := ⟨Iff.rfl, by rintro ⟨⟩⟩
  have hemptied : Spared isJoint (commentOrString.replace spaced (urlCall.replace spaced t))
      (withoutStrings t) :=
    (veiledPieces_commentOrString (veiled_urlCall haddress) halike).spared hstrings
  have hwords : Spared isJoint (withoutStrings t) (withoutWords t) :=
    (spared_replace hstripped.1).trans (spared_replace hstripped.2)
  have hspaces := (spared_replace_spaced hmasked.2).trans (spared_replace_spaced hmasked.1)
  exact (thins_interpolation (hspaces.trans (hemptied.trans hwords))).trans
    (Thins.of_sublist (dropGroups_sublist _))

end StylePrune.Stylesheet
