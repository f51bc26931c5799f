import StylePrune.Proofs.Text.Takes

/-!
# Padded line ends

A text is padded if carriage returns or spaces are put in front of its line feeds.  A reader
overlooks them if it reads a padded text as it reads the text: what it takes and what it leaves are
padded.  So does a shape, and then rewriting its constructs pads no other places
(`Shape.Overlooks.replace`).
-/

namespace StylePrune.Text

/-- The characters that may be put in front of a line feed: a carriage return, or the space that
masks it. -/
def isPad (c : Char) : Bool := c == '\r' || c == ' '

theorem eq_of_isPad {c : Char} (h : isPad c = true) :
  c = '\r' ∨ c = ' '
  := by
  rw [isPad, Bool.or_eq_true, beq_iff_eq, beq_iff_eq] at h
  exact h

/-- Whether a text is another one with pads in front of line feeds, one of which may be the first
character of what follows. -/
inductive Padded (rest : Text) : Text → Text → Prop
  | nil : Padded rest [] []
  | cons (c : Char) {t u : Text} : Padded rest t u → Padded rest (c :: t) (c :: u)
  | pad {b : Char} {t u : Text} :
      isPad b = true → (t ++ rest).head? = some '\n' → Padded rest t u → Padded rest t (b :: u)

namespace Padded

variable {rest t u t' u' : Text}

theorem refl (t : Text) :
  Padded rest t t
  := by
  induction t with
  | nil => exact .nil
  | cons c t ih => exact .cons c ih

theorem append (h : Padded (t' ++ rest) t u) (h' : Padded rest t' u') :
  Padded rest (t ++ t') (u ++ u')
  := by
  induction h with
  | nil => exact h'
  | cons c _ ih => exact .cons c ih
  | @pad b t u hb hhead _ ih =>
      apply Padded.pad hb _ ih
      rwa [List.append_assoc]

/-- A padded text starts as the text does, unless that starts with a line feed. -/
theorem head?_eq (h : Padded rest t u) (hhead : (t ++ rest).head? ≠ some '\n') :
  u.head? = t.head?
  := by
  cases h with
  | nil => rfl
  | cons c _ => rfl
  | pad _ hfeed _ => exact absurd hfeed hhead

/-- A padded text ends as the text does, unless a line feed follows. -/
theorem getLast?_eq (h : Padded rest t u) (hrest : rest.head? ≠ some '\n') :
  u.getLast? = t.getLast?
  := by
  induction h with
  | nil => rfl
  | cons c _ ih => rw [List.getLast?_cons, List.getLast?_cons, ih]
  | @pad b t u hb hhead h ih =>
      cases t with
      | nil => exact absurd hhead hrest
      | cons c t =>
          rw [List.getLast?_cons, ih, List.getLast?_cons]
          rfl

/-- Pads are no characters that a text is filtered for. -/
theorem filter_eq (h : Padded rest t u) {p : Char → Bool} (hp : ∀ b, isPad b = true → p b = false) :
  u.filter p = t.filter p
  := by
  induction h with
  | nil => rfl
  | cons c _ ih => rw [List.filter_cons, List.filter_cons, ih]
  | pad hb _ _ ih => rw [List.filter_cons_of_neg (by rw [hp _ hb]; exact Bool.false_ne_true), ih]

end Padded

/-! ### Readers that overlook pads -/

/-- What two readers make of a text and a padded one: both read nothing, or what they take and what
they leave is padded. -/
def PaddedAlike (t u : Text) (o o' : Option Text) : Prop :=
  (o = none ∧ o' = none)
    ∨ ∃ x t' y u', t = x ++ t' ∧ u = y ++ u' ∧ o = some t' ∧ o' = some u'
      ∧ Padded t' x y ∧ Padded [] t' u'

namespace PaddedAlike

variable {t u : Text} {o o' : Option Text}

theorem none :
  PaddedAlike t u .none .none
  := .inl ⟨rfl, rfl⟩

theorem self (h : Padded [] t u) :
  PaddedAlike t u (some t) (some u)
  := .inr ⟨[], t, [], u, rfl, rfl, rfl, rfl, .nil, h⟩

theorem cons (h : PaddedAlike t u o o') (c : Char) :
  PaddedAlike (c :: t) (c :: u) o o'
  := by
  rcases h with h | ⟨x, t', y, u', rfl, rfl, ho, ho', hxy, hleft⟩
  · exact .inl h
  · exact .inr ⟨c :: x, t', c :: y, u', rfl, rfl, ho, ho', .cons c hxy, hleft⟩

theorem pad (h : PaddedAlike t u o o') {b : Char} (hb : isPad b = true)
    (hhead : t.head? = some '\n') :
  PaddedAlike t (b :: u) o o'
  := by
  rcases h with h | ⟨x, t', y, u', rfl, rfl, ho, ho', hxy, hleft⟩
  · exact .inl h
  · exact .inr ⟨x, t', b :: y, u', rfl, rfl, ho, ho', .pad hb hhead hxy, hleft⟩

theorem bind {p q : Text → Option Text} (h : PaddedAlike t u (p t) (p u))
    (hq : ∀ {t u}, Padded [] t u → PaddedAlike t u (q t) (q u)) :
  PaddedAlike t u (p t >>= q) (p u >>= q)
  := by
  rcases h with ⟨ht, hu⟩ | ⟨x, t', y, u', rfl, rfl, ht, hu, hxy, hleft⟩
  · rw [ht, hu]
    exact none
  · simp only [ht, hu, Option.bind_eq_bind, Option.bind_some]
    rcases hq hleft with hnone | ⟨x', v, y', w, rfl, rfl, hv, hw, hxy', hleft'⟩
    · exact .inl hnone
    · refine .inr ⟨x ++ x', v, y ++ y', w, ?_, ?_, hv, hw, ?_, hleft'⟩
      · rw [List.append_assoc]
      · rw [List.append_assoc]
      · exact Padded.append hxy hxy'

end PaddedAlike

/-- Whether a reader reads a padded text as it reads the text. -/
def Overlooks (p : Text → Option Text) : Prop :=
  ∀ t u, Padded [] t u → PaddedAlike t u (p t) (p u)

namespace Overlooks

variable {p q : Text → Option Text}

theorem bind (hp : Overlooks p) (hq : Overlooks q) :
  Overlooks fun t => p t >>= q
  := fun t u h => (hp t u h).bind (hq _ _)

theorem orElse (hp : Overlooks p) (hq : Overlooks q) :
  Overlooks fun t => p t <|> q t
  := by
  intro t u h
  simp only [Option.orElse_eq_orElse, Option.orElse_eq_or]
  rcases hp t u h with ⟨ht, hu⟩ | ⟨x, t', y, u', htx, huy, ht, hu, hxy, hleft⟩
  · rw [ht, hu, Option.none_or, Option.none_or]
    exact hq t u h
  · rw [ht, hu, Option.some_or, Option.some_or]
    exact .inr ⟨x, t', y, u', htx, huy, rfl, rfl, hxy, hleft⟩

theorem getD (hp : Overlooks p) :
  Overlooks fun t => some ((p t).getD t)
  := by
  intro t u h
  rcases hp t u h with ⟨ht, hu⟩ | ⟨x, t', y, u', htx, huy, ht, hu, hxy, hleft⟩
  · simp only [ht, hu]
    exact .self h
  · simp only [ht, hu]
    exact .inr ⟨x, t', y, u', htx, huy, rfl, rfl, hxy, hleft⟩

/-- A reader that reads nothing from where a line feed or a pad stands overlooks pads, if it does so
where texts start with one character. -/
theorem of_cons (hnil : p [] = none)
    (hstop : ∀ b, b = '\n' ∨ isPad b = true → ∀ v, p (b :: v) = none)
    (hcons : ∀ c {t u : Text}, Padded [] t u →
      PaddedAlike (c :: t) (c :: u) (p (c :: t)) (p (c :: u))) :
  Overlooks p
  := by
  intro t u h
  cases h with
  | nil =>
      rw [hnil]
      exact .none
  | cons c h => exact hcons c h
  | pad hb hhead h =>
      rw [List.append_nil] at hhead
      obtain ⟨v, rfl⟩ := List.head?_eq_some_iff.mp hhead
      rw [hstop '\n' (.inl rfl), hstop _ (.inr hb)]
      exact .none

theorem after? {ps : Text} (h : ∀ c ∈ ps, c ≠ '\n' ∧ isPad c = false) :
  Overlooks (after? ps)
  := by
  induction ps with
  | nil => exact fun t u h => .self h
  | cons q qs ih =>
      obtain ⟨⟨hfeed, hpad⟩, hqs⟩ := List.forall_mem_cons.mp h
      apply of_cons rfl
      · rintro b hb v
        rw [Text.after?, if_neg]
        rintro rfl
        rcases hb with rfl | hb
        · exact hfeed rfl
        · rw [hpad] at hb
          cases hb
      · intro c t u htu
        rw [Text.after?, Text.after?]
        split
        · exact (ih hqs t u htu).cons c
        · exact .none

theorem afterAnyCase? {word : Text} (h : ∀ c ∈ word, c ≠ '\n' ∧ isPad c = false) :
  Overlooks (afterAnyCase? word)
  := by
  induction word with
  | nil => exact fun t u h => .self h
  | cons q qs ih =>
      obtain ⟨⟨hfeed, hpad⟩, hqs⟩ := List.forall_mem_cons.mp h
      apply of_cons rfl
      · rintro b hb v
        have hfold : foldCase b = b := by
          rcases hb with rfl | hb
          · decide
          · rcases eq_of_isPad hb with rfl | rfl
            · decide
            · decide
        rw [Text.afterAnyCase?, hfold, if_neg]
        rintro rfl
        rcases hb with rfl | hb
        · exact hfeed rfl
        · rw [hpad] at hb
          cases hb
      · intro c t u htu
        rw [Text.afterAnyCase?, Text.afterAnyCase?]
        split
        · exact (ih hqs t u htu).cons c
        · exact .none

/-- A run of characters overlooks pads, if it goes on over them, or ends with them and with line
feeds. -/
theorem dropWhile {f : Char → Bool} (h : (f '\r' = true ∧ f ' ' = true)
    ∨ f '\n' = false ∧ f '\r' = false ∧ f ' ' = false) :
  Overlooks fun t => some (t.dropWhile f)
  := by
  intro t u htu
  induction htu with
  | nil => exact .self .nil
  | cons c htu ih =>
      cases hc : f c with
      | true =>
          simp only [List.dropWhile_cons_of_pos hc]
          exact ih.cons c
      | false =>
          have hnot : ¬ f c = true := by
            rw [hc]
            exact Bool.false_ne_true
          simp only [List.dropWhile_cons_of_neg hnot]
          exact .self (.cons c htu)
  | @pad b t u hb hhead htu ih =>
      rw [List.append_nil] at hhead
      rcases h with ⟨hreturn, hspace⟩ | ⟨hfeed, hreturn, hspace⟩
      · have hpad : f b = true := by
          rcases eq_of_isPad hb with rfl | rfl
          · exact hreturn
          · exact hspace
        simp only [List.dropWhile_cons_of_pos hpad]
        exact ih.pad hb hhead
      · have hpad : ¬ f b = true := by
          rcases eq_of_isPad hb with rfl | rfl
          · rw [hreturn]
            exact Bool.false_ne_true
          · rw [hspace]
            exact Bool.false_ne_true
        obtain ⟨v, rfl⟩ := List.head?_eq_some_iff.mp hhead
        have hnot : ¬ f '\n' = true := by
          rw [hfeed]
          exact Bool.false_ne_true
        simp only [List.dropWhile_cons_of_neg hpad, List.dropWhile_cons_of_neg hnot]
        exact .self (.pad hb hhead htu)

theorem afterSome? {f : Char → Bool} (h : f '\n' = false ∧ f '\r' = false ∧ f ' ' = false) :
  Overlooks (afterSome? f)
  := by
  apply of_cons rfl
  · intro b hb v
    have hf : f b = false := by
      rcases hb with rfl | hb
      · exact h.1
      · rcases eq_of_isPad hb with rfl | rfl
        · exact h.2.1
        · exact h.2.2
    rw [Text.afterSome?, hf]
    rfl
  · intro c t u htu
    rw [Text.afterSome?, Text.afterSome?]
    split
    · exact (dropWhile (.inr h) t u htu).cons c
    · exact .none

theorem afterFirst? {ps : Text} (hne : ps ≠ []) (h : ∀ c ∈ ps, c ≠ '\n' ∧ isPad c = false) :
  Overlooks (afterFirst? ps)
  := by
  intro t u htu
  induction htu with
  | nil =>
      obtain ⟨p, ps, rfl⟩ := List.exists_cons_of_ne_nil hne
      exact .none
  | @cons c t u htu ih =>
      rw [Text.afterFirst?, Text.afterFirst?]
      rcases after? h (c :: t) (c :: u) (.cons c htu) with ⟨ht, hu⟩
        | ⟨x, t', y, u', hx, hy, ht, hu, hxy, hleft⟩
      · rw [ht, hu]
        exact ih.cons c
      · rw [ht, hu]
        exact .inr ⟨x, t', y, u', hx, hy, rfl, rfl, hxy, hleft⟩
  | @pad b t u hb hhead htu ih =>
      have hnone : Text.after? ps (b :: u) = none := by
        obtain ⟨p, ps, rfl⟩ := List.exists_cons_of_ne_nil hne
        rw [Text.after?, if_neg]
        rintro rfl
        rw [(h p List.mem_cons_self).2] at hb
        cases hb
      rw [List.append_nil] at hhead
      rw [show Text.afterFirst? ps (b :: u) = Text.afterFirst? ps u by rw [Text.afterFirst?, hnone]]
      exact ih.pad hb hhead

end Overlooks

/-- Reading up to a character, and the character, overlooks pads, if it goes on over them. -/
theorem overlooks_upTo {f : Char → Bool} (h : f '\r' = true ∧ f ' ' = true) {mark : Char}
    (hmark : mark ≠ '\n' ∧ isPad mark = false) :
  Overlooks fun t => after? [mark] (t.dropWhile f)
  := (Overlooks.dropWhile (.inl h)).bind (Overlooks.after? (List.forall_mem_singleton.mpr hmark))

/-! ### Shapes that overlook pads -/

/-- Whether a shape finds constructs of a kind in a padded text as in the text, and none where a
line feed or a pad stands. -/
structure Shape.Overlooks (s : Shape) (Kind : Text → Prop) : Prop where
  stops : ∀ {b}, b = '\n' ∨ isPad b = true → ∀ before v, s before (b :: v) = none
  alike : ∀ {before before' : Option Char} {t u : Text}, Padded [] t u →
    (t.head? ≠ some '\n' → before = before') →
    (∀ x t', t = x ++ t' → s before t = some t' → Kind x) →
    PaddedAlike t u (s before t) (s before' u)

namespace Shape.Overlooks

variable {s : Shape} {Kind : Text → Prop}

/-- A shape that reads a start of the text, whatever stands before it. -/
theorem of_reader {p : Text → Option Text} (hp : Text.Overlooks p)
    (hs : ∀ before t, s before t = p t)
    (hfeed : ∀ v, p ('\n' :: v) = none) (hreturn : ∀ v, p ('\r' :: v) = none)
    (hspace : ∀ v, p (' ' :: v) = none) :
  s.Overlooks Kind
  := by
  constructor
  · rintro b (rfl | hb) before v
    · rw [hs, hfeed]
    · rcases eq_of_isPad hb with rfl | rfl
      · rw [hs, hreturn]
      · rw [hs, hspace]
  · intro before before' t u htu _ _
    rw [hs, hs]
    exact hp t u htu

/-- No construct stands in the place of a line feed. -/
theorem head?_render (h : s.Overlooks Kind) (f : Text → Text) (before : Option Char)
    {t : Text} (hhead : t.head? = some '\n') :
  ((s.piecesAfter 0 before t).flatMap (·.render f)).head? = some '\n'
  := by
  obtain ⟨v, rfl⟩ := List.head?_eq_some_iff.mp hhead
  rw [piecesAfter_cons_of_none (h.stops (.inl rfl) before v)]
  rfl

/-- What stands where a construct is written anew is padded, if that is said of the two that are
written for a construct and a padded one. -/
theorem padded_pieces (h : s.Overlooks Kind) (hs : s.Steady) {f : Text → Text}
    (hf : ∀ {rest rest' x y}, Padded rest x y → y.head? = x.head? →
      (rest.head? = some '\n' → rest'.head? = some '\n') → Padded rest' (f x) (f y))
    {t u : Text} (htu : Padded [] t u) {before before' : Option Char}
    (hbefore : t.head? ≠ some '\n' → before = before')
    (hkind : ∀ x, .found x ∈ s.piecesAfter 0 before t → Kind x) :
  Padded [] ((s.piecesAfter 0 before t).flatMap (·.render f))
    ((s.piecesAfter 0 before' u).flatMap (·.render f))
  := by
  -- by the length of the padded text, since a construct is passed at once
  induction hn : u.length using Nat.strong_induction_on generalizing t u before before' with
  | _ n ih =>
      subst hn
      cases htu with
      | nil => exact .nil
      | @pad b t u hb hhead htu =>
          rw [List.append_nil] at hhead
          rw [piecesAfter_cons_of_none (h.stops (.inr hb) before' u)]
          apply Padded.pad hb
          · rw [List.append_nil]
            exact h.head?_render f before hhead
          · exact ih _ (Nat.lt_succ_self _) htu (fun hne => absurd hhead hne) hkind rfl
      | @cons c t u htu =>
          have hfound : ∀ x t', c :: t = x ++ t' → s before (c :: t) = some t' → Kind x := by
            intro x t' hx ht
            rw [hx] at ht hkind
            exact hkind x (found_mem_of_construct (hs.ne_nil ht) ht)
          rcases h.alike (.cons c htu) hbefore hfound with ⟨ht, hu⟩
            | ⟨x, t', y, u', hx, hy, ht, hu, hxy, hleft⟩
          · rw [piecesAfter_cons_of_none ht] at hkind ⊢
            rw [piecesAfter_cons_of_none hu]
            exact .cons c (ih _ (Nat.lt_succ_self _) htu (fun _ => rfl)
              (fun x hx => hkind x (List.mem_cons_of_mem _ hx)) rfl)
          · have hhead : c ≠ '\n' := by
              rintro rfl
              rw [h.stops (.inl rfl)] at ht
              cases ht
            rw [hx] at ht hkind ⊢
            rw [hy] at hu ih ⊢
            have hyne := hs.ne_nil hu
            have hshorter : u'.length < (y ++ u').length := by
              rw [List.length_append]
              exact Nat.lt_add_of_pos_left (List.length_pos_of_ne_nil hyne)
            have hheads : y.head? = x.head? := by
              apply hxy.head?_eq
              rw [← hx]
              exact fun heq => hhead (Option.some.inj heq)
            rw [piecesAfter_append_of_construct (hs.ne_nil ht) ht] at hkind ⊢
            rw [piecesAfter_append_of_construct hyne hu]
            have hrest := ih u'.length hshorter hleft (fun hne => (hxy.getLast?_eq hne).symm)
              (fun v hv => hkind v (List.mem_cons_of_mem _ hv)) rfl
            apply Padded.append _ hrest
            apply hf hxy hheads
            rw [List.append_nil]
            exact h.head?_render f _

theorem padded_replace (h : s.Overlooks Kind) (hs : s.Steady) {f : Text → Text}
    (hf : ∀ {rest rest' x y}, Padded rest x y → y.head? = x.head? →
      (rest.head? = some '\n' → rest'.head? = some '\n') → Padded rest' (f x) (f y))
    {t u : Text} (htu : Padded [] t u) (hkind : ∀ x, .found x ∈ s.pieces t → Kind x) :
  Padded [] (s.replace f t) (s.replace f u)
  := h.padded_pieces hs hf htu (fun _ => rfl) hkind

end Shape.Overlooks

end StylePrune.Text
