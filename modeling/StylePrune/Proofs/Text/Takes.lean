import Mathlib.Data.List.TakeWhile
import StylePrune.Proofs.Stylesheet.Comments

/-!
# What readers take

A reader takes the characters before those that it leaves.  What it takes is of one kind where each
of its parts takes characters of that kind only, and then the constructs of a shape are made of such
characters.
-/

namespace StylePrune.Text

/-- Whether a reader takes characters of one kind only. -/
def Takes (P : Char → Prop) (p : Text → Option Text) : Prop :=
  ∀ t u, p t = some u → ∃ x, t = x ++ u ∧ ∀ c ∈ x, P c

namespace Takes

variable {P : Char → Prop} {p q : Text → Option Text}

theorem of_eq (h : ∀ t u, p t = some u → t = u) :
  Takes P p
  := fun t u hu => ⟨[], h t u hu, List.forall_mem_nil P⟩

theorem bind (hp : Takes P p) (hq : Takes P q) :
  Takes P fun t => p t >>= q
  := by
  intro t u hu
  obtain ⟨v, hv, hvu⟩ := Option.bind_eq_some_iff.mp hu
  obtain ⟨x, rfl, hx⟩ := hp t v hv
  obtain ⟨y, rfl, hy⟩ := hq v u hvu
  refine ⟨x ++ y, (List.append_assoc x y u).symm, ?_⟩
  exact List.forall_mem_append.mpr ⟨hx, hy⟩

theorem orElse (hp : Takes P p) (hq : Takes P q) :
  Takes P fun t => p t <|> q t
  := by
  intro t u hu
  simp only [Option.orElse_eq_orElse, Option.orElse_eq_or] at hu
  rcases Option.or_eq_some_iff.mp hu with hu | ⟨-, hu⟩
  · exact hp t u hu
  · exact hq t u hu

/-- A reader that passes over what it cannot read takes what it takes otherwise. -/
theorem getD (hp : Takes P p) :
  Takes P fun t => some ((p t).getD t)
  := by
  intro t u hu
  obtain rfl := Option.some.inj hu
  cases hpt : p t with
  | none => exact ⟨[], rfl, List.forall_mem_nil P⟩
  | some v => exact hp t v hpt

theorem after? {ps : Text} (h : ∀ c ∈ ps, P c) :
  Takes P (after? ps)
  := fun _ _ hu => ⟨ps, after?_eq_some_iff.mp hu, h⟩

theorem afterAnyCase? {word : Text} (h : ∀ c, foldCase c ∈ word → P c) :
  Takes P (afterAnyCase? word)
  := by
  induction word with
  | nil =>
      apply of_eq
      exact fun t u hu => Option.some.inj hu
  | cons p ps ih =>
      intro t u hu
      cases t with
      | nil => cases hu
      | cons c t =>
          rw [Text.afterAnyCase?] at hu
          split at hu
          · next hp =>
            obtain ⟨x, rfl, hx⟩ := ih (fun d hd => h d (List.mem_cons_of_mem p hd)) t u hu
            refine ⟨c :: x, rfl, List.forall_mem_cons.mpr ⟨?_, hx⟩⟩
            apply h
            rw [← hp]
            exact List.mem_cons_self
          · cases hu

theorem dropWhile {f : Char → Bool} (h : ∀ c, f c = true → P c) :
  Takes P fun t => some (t.dropWhile f)
  := by
  intro t u hu
  obtain rfl := Option.some.inj hu
  exact ⟨t.takeWhile f, List.takeWhile_append_dropWhile.symm,
    fun c hc => h c (List.mem_takeWhile_imp hc)⟩

theorem afterSome? {f : Char → Bool} (h : ∀ c, f c = true → P c) :
  Takes P (afterSome? f)
  := by
  intro t u hu
  cases t with
  | nil => cases hu
  | cons c t =>
      rw [Text.afterSome?] at hu
      split at hu
      · next hc =>
        obtain ⟨x, rfl, hx⟩ := dropWhile h t u hu
        exact ⟨c :: x, rfl, List.forall_mem_cons.mpr ⟨h c hc, hx⟩⟩
      · cases hu

end Takes

namespace Shape

variable {s : Shape}

/-- A construct is what the shape takes at some place. -/
theorem exists_of_found {t x : Text} (h : .found x ∈ s.pieces t) :
  ∃ before v rest, s before v = some rest ∧ rest.length < v.length
    ∧ x = v.take (v.length - rest.length)
  := by
  have hpieces : ∀ skip before, .found x ∈ s.piecesAfter skip before t →
      ∃ before v rest, s before v = some rest ∧ rest.length < v.length
        ∧ x = v.take (v.length - rest.length) := by
    clear h
    induction t with
    | nil =>
        intro skip before hmem
        cases skip <;> cases hmem
    | cons d t ih =>
        intro skip before hmem
        cases skip with
        | succ skip => exact ih skip (some d) hmem
        | zero =>
            rw [piecesAfter] at hmem
            split at hmem
            · rcases List.mem_cons.mp hmem with heq | hmem
              · cases heq
              · exact ih 0 (some d) hmem
            · next n hspan =>
              rcases List.mem_cons.mp hmem with heq | hmem
              · rw [span] at hspan
                split at hspan
                · next rest hrest =>
                  refine ⟨before, d :: t, rest, hrest, by omega, ?_⟩
                  rw [hspan]
                  exact Piece.found.inj heq
                · cases hspan
              · exact ih n (some d) hmem
  exact hpieces 0 none h

/-- What holds of each construct that is found and what is written for it holds of the text and the
one that is written anew, if it may be said of texts that are written one behind the other. -/
theorem replace_related_of_found {R : Text → Text → Prop} (hself : ∀ t, R t t)
    (happend : ∀ {t t' u u' : Text}, R t u → R t' u' → R (t ++ t') (u ++ u')) {f : Text → Text}
    {t : Text} (hf : ∀ x, .found x ∈ s.pieces t → R x (f x)) :
  R t (s.replace f t)
  := by
  have hpieces : ∀ ps : List Piece, (∀ x, .found x ∈ ps → R x (f x)) →
      R (ps.flatMap Piece.source) (ps.flatMap (·.render f)) := by
    intro ps hps
    induction ps with
    | nil => exact hself []
    | cons p ps ih =>
        have hrest := ih fun x hx => hps x (List.mem_cons_of_mem p hx)
        cases p with
        | plain c => exact happend (hself [c]) hrest
        | found x => exact happend (hps x List.mem_cons_self) hrest
  have hrelated := hpieces (s.pieces t) hf
  rwa [source_pieces] at hrelated

/-- The constructs are made of the characters of each of them. -/
theorem mem_constructs_iff {t : Text} {c : Char} :
  c ∈ s.constructs t ↔ ∃ x, .found x ∈ s.pieces t ∧ c ∈ x
  := by
  rw [constructs, List.mem_flatMap]
  constructor
  · rintro ⟨p, hp, hc⟩
    cases p with
    | plain d => cases hc
    | found x => exact ⟨x, hp, hc⟩
  · rintro ⟨x, hx, hc⟩
    exact ⟨.found x, hx, hc⟩

/-- A shape finds constructs of one kind of characters if it takes no others. -/
theorem forall_mem_of_found {P : Char → Prop} (h : ∀ before, Takes P (s before)) {t x : Text}
    (hx : .found x ∈ s.pieces t) :
  ∀ c ∈ x, P c
  := by
  obtain ⟨before, v, rest, hrest, -, rfl⟩ := exists_of_found hx
  obtain ⟨y, rfl, hy⟩ := h before v rest hrest
  rw [List.length_append, Nat.add_sub_cancel, List.take_left]
  exact hy

/-! ### Constructs at the start of a text -/

/-- A construct at the start of a text is its first piece. -/
theorem piecesAfter_append_of_construct {before : Option Char} {x rest : Text} (hx : x ≠ [])
    (h : s before (x ++ rest) = some rest) :
  s.piecesAfter 0 before (x ++ rest) = .found x :: s.piecesAfter 0 x.getLast? rest
  := by
  obtain ⟨u, d, rfl⟩ := List.eq_nil_or_concat x |>.resolve_left hx
  rw [List.concat_eq_append, List.append_assoc, List.singleton_append] at h ⊢
  rw [piecesAfter_of_construct h, List.getLast?_concat]

theorem found_mem_of_construct {before : Option Char} {x rest : Text} (hx : x ≠ [])
    (h : s before (x ++ rest) = some rest) :
  .found x ∈ s.piecesAfter 0 before (x ++ rest)
  := by
  rw [piecesAfter_append_of_construct hx h]
  exact List.mem_cons_self

/-- A character with which no construct starts stays where it is. -/
theorem replace_cons_of_none (hbefore : ∀ before t, s before t = s none t) {c : Char} {t : Text}
    (h : s none (c :: t) = none) (f : Text → Text) :
  s.replace f (c :: t) = c :: s.replace f t
  := by
  rw [replace, pieces, piecesAfter_cons_of_none h, piecesAfter_eq_pieces (hbefore _)]
  rfl

/-- A construct at the start of a text is written anew, and so is what follows it. -/
theorem replace_append_of_construct (hbefore : ∀ before t, s before t = s none t) {x rest : Text}
    (hx : x ≠ []) (h : s none (x ++ rest) = some rest) (f : Text → Text) :
  s.replace f (x ++ rest) = f x ++ s.replace f rest
  := by
  rw [replace, pieces, piecesAfter_append_of_construct hx h, piecesAfter_eq_pieces (hbefore _)]
  rfl

end Shape

end StylePrune.Text
