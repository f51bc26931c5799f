import Mathlib.Logic.Function.Iterate
import StylePrune.Proofs.Text.Idle

/-!
# Reading the start of a text

A reader answers with what follows the characters that it has read.  It is steady if it reads the
start of a text as it reads the whole text, unless it reads on behind the start.  So a construct of
a steady shape is found in every part of a text that it does not reach out of, and a character that
belongs to no construct parts the text: what stands before it and what stands behind it is rewritten
as if it stood alone (`Shape.Steady.parts`).
-/

namespace StylePrune.Text

/-- Whether a reader reads the start of a text as it reads the text, or else reads on behind the
start, of which alone it then leaves nothing but texts that satisfy `Left`. -/
def SteadyAt (p : Text → Option Text) (Left : Text → Prop) (t rest : Text) : Prop :=
  p (t ++ rest) = (p t).map (· ++ rest)
    ∨ (∃ u, p (t ++ rest) = some u ∧ u.length < rest.length) ∧ ∀ u ∈ p t, Left u

/-- Whether a reader reads the start of every text so. -/
def Steady (p : Text → Option Text) (Left : Text → Prop) : Prop :=
  ∀ t rest, SteadyAt p Left t rest

variable {p q : Text → Option Text} {Left More : Text → Prop}

/-- A reader that can read nothing of the empty text reads nothing of an empty start, or reads on
behind it. -/
theorem steadyAt_nil (hnil : p [] = none) {rest : Text}
    (hlength : ∀ u, p rest = some u → u.length < rest.length) :
  SteadyAt p Left [] rest
  := by
  rw [SteadyAt, List.nil_append, hnil]
  cases hp : p rest with
  | none => exact .inl rfl
  | some u =>
      right
      constructor
      · exact ⟨u, rfl, hlength u hp⟩
      · rintro v ⟨⟩

namespace Steady

theorem weaken (h : Steady p Left) :
  Steady p fun _ => True
  := by
  intro t rest
  rcases h t rest with hsame | ⟨hon, -⟩
  · exact .inl hsame
  · exact .inr ⟨hon, fun _ _ => trivial⟩

/-- A steady reader reads something, if it can read nothing of the empty text. -/
theorem length_lt (h : Steady p Left) (hnil : p [] = none) {t u : Text} (hu : p t = some u) :
  u.length < t.length
  := by
  rcases h [] t with hsame | ⟨⟨v, hv, hlength⟩, -⟩
  · rw [hnil, List.nil_append, hu] at hsame
    cases hsame
  · rw [List.nil_append, hu] at hv
    obtain rfl := Option.some.inj hv
    exact hlength

/-- What a steady reader leaves is no longer than the text. -/
theorem length_le (h : Steady p Left) (hnil : ∀ u ∈ p [], u = []) {t u : Text} (hu : p t = some u) :
  u.length ≤ t.length
  := by
  cases hp : p [] with
  | none => exact Nat.le_of_lt (h.length_lt hp hu)
  | some v =>
      obtain rfl := hnil v hp
      rcases h [] t with hsame | ⟨⟨w, hw, hlength⟩, -⟩
      · rw [hp, List.nil_append, hu] at hsame
        obtain rfl := Option.some.inj hsame
        exact Nat.le_refl _
      · rw [List.nil_append, hu] at hw
        obtain rfl := Option.some.inj hw
        exact Nat.le_of_lt hlength

/-- One steady reader after the other is steady, if the second one can read nothing of what the
first one leaves of a start that it reads on behind. -/
theorem bind (hp : Steady p Left) (hq : Steady q More) (hleft : ∀ t, Left t → q t = none)
    (hnil : ∀ u ∈ q [], u = []) :
  Steady (fun t => p t >>= q) More
  := by
  intro t rest
  simp only [SteadyAt, Option.bind_eq_bind]
  rcases hp t rest with hsame | ⟨⟨u, hu, hlength⟩, halone⟩
  · rw [hsame]
    cases p t with
    | none => exact .inl rfl
    | some u => exact hq u rest
  · have hnone : (p t).bind q = none := by
      cases hpt : p t with
      | none => rfl
      | some v => exact hleft v (halone v hpt)
    rw [hu, hnone, Option.bind_some]
    cases hqu : q u with
    | none => exact .inl rfl
    | some v =>
        right
        constructor
        · exact ⟨v, rfl, Nat.lt_of_le_of_lt (hq.length_le hnil hqu) hlength⟩
        · rintro v ⟨⟩

/-- The first of two steady readers that can read a text is steady. -/
theorem orElse (hp : Steady p Left) (hq : Steady q More) :
  Steady (fun t => p t <|> q t) fun _ => True
  := by
  intro t rest
  simp only [SteadyAt, Option.orElse_eq_orElse, Option.orElse_eq_or]
  rcases hp t rest with hsame | ⟨⟨u, hu, hlength⟩, -⟩
  · rw [hsame]
    cases p t with
    | none =>
        rw [Option.map_none, Option.none_or, Option.none_or]
        exact hq.weaken t rest
    | some u => exact .inl rfl
  · rw [hu, Option.some_or]
    exact .inr ⟨⟨u, rfl, hlength⟩, fun _ _ => trivial⟩

/-- A steady reader that passes over what it cannot read is steady. -/
theorem getD (hp : Steady p Left) (hleft : ∀ t, Left t → More t)
    (hself : ∀ t rest u, p (t ++ rest) = some u → p t = none → More t) :
  Steady (fun t => some ((p t).getD t)) More
  := by
  intro t rest
  rw [SteadyAt]
  rcases hp t rest with hsame | ⟨⟨u, hu, hlength⟩, halone⟩
  · left
    rw [hsame]
    cases p t with
    | none => rfl
    | some u => rfl
  · right
    rw [hu]
    refine ⟨⟨u, rfl, hlength⟩, ?_⟩
    rintro v ⟨⟩
    cases hpt : p t with
    | none => exact hself t rest u hu hpt
    | some v => exact hleft v (halone v hpt)

end Steady

/-! ### Steady readers -/

theorem length_lt_of_after? {c : Char} {ps t u : Text} (h : after? (c :: ps) t = some u) :
  u.length < t.length
  := by
  rw [after?_eq_some_iff.mp h, List.cons_append, List.length_cons, List.length_append]
  omega

theorem length_lt_of_afterAnyCase? {c : Char} {word t u : Text}
    (h : afterAnyCase? (c :: word) t = some u) :
  u.length < t.length
  := by
  cases t with
  | nil => cases h
  | cons d t =>
      rw [afterAnyCase?] at h
      split at h
      · exact Nat.lt_succ_of_le (suffix_of_afterAnyCase? h).length_le
      · cases h

theorem steady_after? (ps : Text) :
  Steady (after? ps) fun _ => False
  := by
  induction ps with
  | nil => exact fun t rest => .inl rfl
  | cons p ps ih =>
      intro t rest
      cases t with
      | nil => exact steadyAt_nil rfl fun u => length_lt_of_after?
      | cons c t =>
          rw [SteadyAt, List.cons_append, after?, after?]
          split
          · exact ih t rest
          · exact .inl rfl

theorem steady_afterAnyCase? (word : Text) :
  Steady (afterAnyCase? word) fun _ => False
  := by
  induction word with
  | nil => exact fun t rest => .inl rfl
  | cons p ps ih =>
      intro t rest
      cases t with
      | nil => exact steadyAt_nil rfl fun u => length_lt_of_afterAnyCase?
      | cons c t =>
          rw [SteadyAt, List.cons_append, afterAnyCase?, afterAnyCase?]
          split
          · exact ih t rest
          · exact .inl rfl

/-- Reading a run of characters is steady: of a start that the run leads out of, nothing is left. -/
theorem steady_dropWhile (p : Char → Bool) :
  Steady (fun t => some (t.dropWhile p)) (· = [])
  := by
  intro t rest
  simp only [SteadyAt, List.dropWhile_append, List.isEmpty_iff]
  split
  · next hall =>
    rw [hall]
    cases rest with
    | nil => exact .inl rfl
    | cons d rest =>
        rw [List.dropWhile_cons]
        split
        · right
          refine ⟨⟨_, rfl, Nat.lt_succ_of_le (List.dropWhile_suffix p).length_le⟩, ?_⟩
          rintro u ⟨⟩
          rfl
        · exact .inl rfl
  · exact .inl rfl

/-- Reading a character and a run of others is steady. -/
theorem steady_consDropWhile (p q : Char → Bool) {r : Text → Option Text} (hnil : r [] = none)
    (hcons : ∀ c t, r (c :: t) = if p c then some (t.dropWhile q) else none) :
  Steady r (· = [])
  := by
  intro t rest
  cases t with
  | nil =>
      apply steadyAt_nil hnil
      intro u hu
      cases rest with
      | nil =>
          rw [hnil] at hu
          cases hu
      | cons d rest =>
          rw [hcons] at hu
          split at hu
          · obtain rfl := Option.some.inj hu
            exact Nat.lt_succ_of_le (List.dropWhile_suffix q).length_le
          · cases hu
  | cons c t =>
      rw [SteadyAt, List.cons_append, hcons, hcons]
      split
      · exact steady_dropWhile q t rest
      · exact .inl rfl

theorem steady_afterSome? (p : Char → Bool) :
  Steady (afterSome? p) (· = [])
  := steady_consDropWhile p p rfl fun _ _ => rfl

/-- Reading up to a character, and the character, is steady. -/
theorem steady_upTo (p : Char → Bool) (mark : Char) :
  Steady (fun t => after? [mark] (t.dropWhile p)) fun _ => False
  := by
  apply (steady_dropWhile p).bind (steady_after? [mark])
  · rintro t rfl
    rfl
  · rintro u ⟨⟩

/-- A steady reader is steady behind given characters. -/
theorem Steady.behind (h : Steady p Left) (hnil : ∀ u ∈ p [], u = []) (ps : Text) :
  Steady (fun t => after? ps t >>= p) Left
  := by
  apply (steady_after? ps).bind h _ hnil
  rintro t ⟨⟩

/-- A steady reader is steady behind a word. -/
theorem Steady.behindWord (h : Steady p Left) (hnil : ∀ u ∈ p [], u = []) (word : Text) :
  Steady (fun t => afterAnyCase? word t >>= p) Left
  := by
  apply (steady_afterAnyCase? word).bind h _ hnil
  rintro t ⟨⟩

/-- The start of a text that reads on behind one character does not start with another one. -/
theorem after?_eq_none_of_bind {c d : Char} (hd : d ≠ c) {t rest u : Text}
    (h : (after? [c] (t ++ rest) >>= p) = some u) :
  after? [d] t = none
  := by
  cases t with
  | nil => rfl
  | cons e t =>
      rw [List.cons_append, after?] at h
      split at h
      · next he => rw [after?, if_neg (by rwa [← he])]
      · cases h

theorem steady_afterFirst? (ps : Text) (hps : ps ≠ []) :
  Steady (afterFirst? ps) fun _ => True
  := by
  have hnil : after? ps [] = none := by
    cases ps with
    | nil => contradiction
    | cons p ps => rfl
  have hlength : ∀ t u, afterFirst? ps t = some u → u.length < t.length := by
    intro t
    induction t with
    | nil =>
        intro u hu
        rw [afterFirst?, hnil] at hu
        cases hu
    | cons c t ih =>
        intro u hu
        rw [afterFirst?] at hu
        split at hu
        · next hafter =>
          obtain rfl := Option.some.inj hu
          exact (steady_after? ps).length_lt hnil hafter
        · exact Nat.lt_succ_of_lt (ih u hu)
  intro t rest
  induction t with
  | nil => exact steadyAt_nil (p := afterFirst? ps) hnil (hlength rest)
  | cons c t ih =>
      rw [SteadyAt, List.cons_append, afterFirst?, afterFirst?, ← List.cons_append]
      rcases steady_after? ps (c :: t) rest with hsame | ⟨⟨u, hu, hon⟩, -⟩
      · rw [hsame]
        cases after? ps (c :: t) with
        | none => exact ih
        | some u => exact .inl rfl
      · rw [hu]
        exact .inr ⟨⟨u, rfl, hon⟩, fun _ _ => trivial⟩

/-! ### The parts of a rewritten text -/

/-- Whether a character of a rewritten text was there before, and what stands before it and behind
it is rewritten as if it stood alone. -/
def Parted (f : Text → Text) (c : Char) : Prop :=
  ∀ t front back, f t = front ++ c :: back → ∃ u v, t = u ++ c :: v ∧ f u = front ∧ f v = back

theorem Parted.comp {f g : Text → Text} {c : Char} (hg : Parted g c) (hf : Parted f c) :
  Parted (g ∘ f) c
  := by
  intro t front back h
  obtain ⟨u, v, huv, rfl, rfl⟩ := hg (f t) front back h
  obtain ⟨x, y, rfl, rfl, rfl⟩ := hf t u v huv
  exact ⟨x, y, rfl, rfl, rfl⟩

theorem Parted.iterate {f : Text → Text} {c : Char} (h : Parted f c) (n : Nat) :
  Parted f^[n] c
  := by
  induction n with
  | zero => exact fun t front back ht => ⟨front, back, ht, rfl, rfl⟩
  | succ n ih =>
      rw [Function.iterate_succ]
      exact ih.comp h

/-- A character of a rewritten text was there before, or it was written for a construct. -/
theorem parts_of_flatMap_render {f : Text → Text} {ps : List Piece} {front back : Text} {c : Char}
    (h : ps.flatMap (·.render f) = front ++ c :: back) :
  (∃ first last, ps = first ++ .plain c :: last
      ∧ first.flatMap (·.render f) = front ∧ last.flatMap (·.render f) = back)
    ∨ ∃ first t last before after, ps = first ++ .found t :: last ∧ f t = before ++ c :: after
      ∧ back = after ++ last.flatMap (·.render f)
  := by
  induction ps generalizing front with
  | nil => simp at h
  | cons p ps ih =>
      rw [List.flatMap_cons] at h
      have hlater : ∀ rest, front = p.render f ++ rest →
          ps.flatMap (·.render f) = rest ++ c :: back →
          (∃ first last, p :: ps = first ++ .plain c :: last
              ∧ first.flatMap (·.render f) = front ∧ last.flatMap (·.render f) = back)
            ∨ ∃ first t last before after, p :: ps = first ++ .found t :: last
              ∧ f t = before ++ c :: after ∧ back = after ++ last.flatMap (·.render f) := by
        intro rest hfront hrest
        rcases ih hrest with ⟨first, last, rfl, hfirst, hlast⟩
          | ⟨first, t, last, before, after, rfl, ht, hback⟩
        · refine .inl ⟨p :: first, last, rfl, ?_, hlast⟩
          rw [List.flatMap_cons, hfirst, hfront]
        · exact .inr ⟨p :: first, t, last, before, after, rfl, ht, hback⟩
      rcases List.append_eq_append_iff.mp h with ⟨rest, hfront, hrest⟩ | ⟨rest, hrender, hrest⟩
      · exact hlater rest hfront hrest
      · cases rest with
        | nil =>
            rw [List.append_nil] at hrender
            exact hlater [] (by rw [hrender, List.append_nil]) hrest.symm
        | cons d after =>
            obtain ⟨rfl, hback⟩ := List.cons.inj hrest
            cases p with
            | plain e =>
                obtain ⟨rfl, hsingle⟩ := List.append_eq_cons_iff.mp hrender.symm
                  |>.resolve_right (by simp)
                obtain ⟨rfl, rfl⟩ := List.cons.inj hsingle
                exact .inl ⟨[], ps, rfl, rfl, hback.symm⟩
            | found t => exact .inr ⟨[], t, ps, front, after, rfl, hrender, hback⟩

namespace Shape

variable {s : Shape}

/-- Whether a shape finds nothing in the empty text and is steady. -/
def Steady (s : Shape) : Prop :=
  ∀ before, s before [] = none ∧ Text.Steady (s before) fun _ => True

theorem Steady.eq_none_of_span (h : s.Steady) {before : Option Char} {t : Text}
    (hspan : s.span before t = 0) :
  s before t = none
  := by
  obtain ⟨hnil, hsteady⟩ := h before
  cases hs : s before t with
  | none => rfl
  | some u =>
      have hlength := hsteady.length_lt hnil hs
      rw [span, hs] at hspan
      dsimp only at hspan
      omega

/-- No construct of a steady shape is empty. -/
theorem Steady.ne_nil (h : s.Steady) {before : Option Char} {x rest : Text}
    (hfound : s before (x ++ rest) = some rest) :
  x ≠ []
  := by
  rintro rfl
  exact absurd ((h before).2.length_lt (h before).1 hfound) (Nat.lt_irrefl _)

/-- What a steady shape finds where a text starts, and does not reach out of the start of the text,
it finds in the start alone. -/
theorem Steady.span_eq (h : s.Steady) {before : Option Char} {t rest : Text}
    (hspan : s.span before (t ++ rest) ≤ t.length) :
  s.span before t = s.span before (t ++ rest)
  := by
  obtain ⟨hnil, hsteady⟩ := h before
  rcases hsteady t rest with hsame | ⟨⟨u, hu, hlength⟩, -⟩
  · rw [span, span, hsame]
    cases s before t with
    | none => rfl
    | some u =>
        simp only [Option.map_some, List.length_append]
        omega
  · rw [span, hu, List.length_append] at hspan
    dsimp only at hspan
    omega

/-- A character that belongs to no construct of a steady shape parts the pieces of a text. -/
theorem Steady.piecesAfter_parts (h : s.Steady) {t : Text} {skip : Nat} (hskip : skip ≤ t.length)
    {before : Option Char} {first last : List Piece} {c : Char}
    (hpieces : s.piecesAfter skip before t = first ++ .plain c :: last) :
  ∃ u v, t = u ++ c :: v ∧ skip ≤ u.length ∧ s.piecesAfter skip before u = first
    ∧ s.piecesAfter 0 (some c) v = last ∧ ∃ d, s d (c :: v) = none
  := by
  induction t generalizing skip before first with
  | nil => simp [piecesAfter] at hpieces
  | cons e t ih =>
      cases skip with
      | succ skip =>
          obtain ⟨u, v, rfl, hu, hfirst, hlast⟩ := ih (Nat.le_of_succ_le_succ hskip) hpieces
          exact ⟨e :: u, v, rfl, Nat.succ_le_succ hu, hfirst, hlast⟩
      | zero =>
          cases hspan : s.span before (e :: t) with
          | zero =>
              have hnone := h.eq_none_of_span hspan
              rw [piecesAfter_cons_of_none hnone] at hpieces
              cases first with
              | nil =>
                  obtain ⟨heq, hlast⟩ := List.cons.inj hpieces
                  obtain rfl := Piece.plain.inj heq
                  exact ⟨[], t, rfl, Nat.le_refl _, rfl, hlast, before, hnone⟩
              | cons p first =>
                  obtain ⟨rfl, hrest⟩ := List.cons.inj hpieces
                  obtain ⟨u, v, rfl, -, hfirst, hlast⟩ := ih (Nat.zero_le _) hrest
                  refine ⟨e :: u, v, rfl, Nat.zero_le _, ?_, hlast⟩
                  -- the shape finds at the start of the part what it finds there in the whole
                  have hle : s.span before (e :: u ++ c :: v) ≤ (e :: u).length := by
                    rw [List.cons_append, hspan]
                    exact Nat.zero_le _
                  have hu : s before (e :: u) = none :=
                    h.eq_none_of_span ((h.span_eq hle).trans hspan)
                  rw [piecesAfter_cons_of_none hu, hfirst]
          | succ n =>
              rw [piecesAfter_cons_of_span hspan] at hpieces
              cases first with
              | nil => cases (List.cons.inj hpieces).1
              | cons p first =>
                  obtain ⟨rfl, hrest⟩ := List.cons.inj hpieces
                  have hn : n ≤ t.length := by
                    have hle := s.span_le_length before (e :: t)
                    rw [hspan] at hle
                    exact Nat.le_of_succ_le_succ hle
                  obtain ⟨u, v, rfl, hu, hfirst, hlast⟩ := ih hn hrest
                  refine ⟨e :: u, v, rfl, Nat.zero_le _, ?_, hlast⟩
                  have hle : s.span before (e :: u ++ c :: v) ≤ (e :: u).length := by
                    rw [List.cons_append, hspan]
                    exact Nat.succ_le_succ hu
                  have hu' : s.span before (e :: u) = n + 1 := (h.span_eq hle).trans hspan
                  rw [piecesAfter_cons_of_span hu', hfirst, List.take_append_of_le_length hu]

/-- A character of a rewritten text was there before, and what stands before it and behind it is
rewritten as if it stood alone; or it was written for a construct. -/
theorem Steady.parts (h : s.Steady) {f : Text → Text} {t front back : Text} {c : Char}
    (hc : ∀ u, s (some c) u = s none u) (ht : s.replace f t = front ++ c :: back) :
  (∃ u v, t = u ++ c :: v ∧ s.replace f u = front ∧ s.replace f v = back
      ∧ ∃ d, s d (c :: v) = none)
    ∨ ∃ construct before after rest, f construct = before ++ c :: after ∧ back = after ++ rest
  := by
  rcases parts_of_flatMap_render ht with ⟨first, last, hpieces, rfl, rfl⟩
    | ⟨-, construct, last, before, after, -, hconstruct, hback⟩
  · obtain ⟨u, v, rfl, -, rfl, rfl, hnone⟩ := h.piecesAfter_parts (Nat.zero_le _) hpieces
    refine .inl ⟨u, v, rfl, rfl, ?_, hnone⟩
    rw [piecesAfter_eq_pieces hc, replace]
  · exact .inr ⟨construct, before, after, _, hconstruct, hback⟩

/-- A character that is written for no construct was there before. -/
theorem Steady.parts_of_notMem (h : s.Steady) {f : Text → Text} {t front back : Text} {c : Char}
    (hc : ∀ u, s (some c) u = s none u) (hf : ∀ t, c ∉ f t) (ht : s.replace f t = front ++ c :: back) :
  ∃ u v, t = u ++ c :: v ∧ s.replace f u = front ∧ s.replace f v = back ∧ ∃ d, s d (c :: v) = none
  := by
  rcases h.parts hc ht with hparts | ⟨construct, before, after, rest, hconstruct, -⟩
  · exact hparts
  · refine absurd ?_ (hf construct)
    rw [hconstruct]
    exact List.mem_append_right before List.mem_cons_self

/-- A character that is written for no construct of a steady shape, and of which a construct behind
it takes no notice, parts the texts that the shape rewrites. -/
theorem Steady.parted (h : s.Steady) {f : Text → Text} {c : Char}
    (hc : ∀ u, s (some c) u = s none u) (hf : ∀ t, c ∉ f t) :
  Parted (s.replace f) c
  := by
  intro t front back ht
  obtain ⟨u, v, huv, hfront, hback, -⟩ := h.parts_of_notMem hc hf ht
  exact ⟨u, v, huv, hfront, hback⟩

end Shape

end StylePrune.Text
