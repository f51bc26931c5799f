import Mathlib.Data.List.Forall2
import StylePrune.Proofs.Text.Padding
import StylePrune.Proofs.Text.Trim

/-!
# Line ends

Lines may end with a line feed, with a carriage return, or with both.  To make line ends one is to
take out the carriage returns in front of line feeds, and then to write a line feed for each that
stands alone (`unifyLineEnds_eq`).  The first pads the text backwards.  The second is followed by
every reader that minds neither character, and by one that ends at a line feed where it takes no
carriage return (`Shape.Follows.replace_fed`).

The other way about, a carriage return in front of every line feed stands behind every line but the
last (`lines_crlf`).
-/

namespace StylePrune.Text

/-! ### Making line ends one -/

/-- The text without the carriage returns that have a line feed behind them. -/
def lineFed : Text → Text
  | [] => []
  | '\r' :: '\n' :: t => '\n' :: lineFed t
  | c :: t => c :: lineFed t

/-- A line feed for a carriage return. -/
def feed (c : Char) : Char := if c = '\r' then '\n' else c

/-- The text with a line feed for every carriage return. -/
def fed (t : Text) : Text := t.map feed

theorem feed_of_ne {c : Char} (h : c ≠ '\r') :
  feed c = c
  := if_neg h

theorem fed_of_notMem {t : Text} (h : '\r' ∉ t) :
  fed t = t
  := by
  have hsame : t.map feed = t.map id := by
    apply List.map_congr_left
    intro c hc
    apply feed_of_ne
    rintro rfl
    exact h hc
  exact hsame.trans (List.map_id t)

theorem fed_append (t u : Text) :
  fed (t ++ u) = fed t ++ fed u
  := List.map_append

/-- Only a line feed and a carriage return are written as a line feed, and nothing as a carriage
return. -/
theorem eq_feed_iff {c p : Char} (h : p ≠ '\n' ∧ p ≠ '\r') :
  p = feed c ↔ p = c
  := by
  rw [feed]
  split
  · next hc =>
    rw [hc]
    exact iff_of_false h.1 h.2
  · rfl

theorem unifyLineEnds_eq (t : Text) :
  unifyLineEnds t = fed (lineFed t)
  := by
  fun_induction unifyLineEnds t with
  | case1 => rfl
  | case2 t ih =>
      rw [lineFed, ih]
      rfl
  | case3 c t hne ih =>
      rw [lineFed, ih]
      · rfl
      · exact hne

/-- A text pads the one without the carriage returns in front of its line feeds. -/
theorem padded_lineFed (t : Text) :
  Padded [] (lineFed t) t
  := by
  fun_induction lineFed t with
  | case1 => exact .nil
  | case2 t ih => exact .pad rfl rfl (.cons '\n' ih)
  | case3 c t _ ih => exact .cons c ih

theorem lineFed_of_notMem {t : Text} (h : '\r' ∉ t) :
  lineFed t = t
  := by
  fun_induction lineFed t with
  | case1 => rfl
  | case2 t _ => exact absurd List.mem_cons_self h
  | case3 c t _ ih => rw [ih fun hmem => h (List.mem_cons_of_mem c hmem)]

/-! ### Readers that follow -/

/-- Whether a reader reads line feeds as it reads carriage returns. -/
def Follows (p : Text → Option Text) : Prop :=
  ∀ t, p (fed t) = (p t).map fed

namespace Follows

variable {p q : Text → Option Text}

theorem bind (hp : Follows p) (hq : Follows q) :
  Follows fun t => p t >>= q
  := by
  intro t
  dsimp only
  rw [hp t]
  cases p t with
  | none => rfl
  | some u => exact hq u

theorem orElse (hp : Follows p) (hq : Follows q) :
  Follows fun t => p t <|> q t
  := by
  intro t
  dsimp only
  rw [hp t]
  cases p t with
  | none => exact hq t
  | some u => rfl

theorem getD (hp : Follows p) :
  Follows fun t => some ((p t).getD t)
  := by
  intro t
  dsimp only
  rw [hp t]
  cases p t with
  | none => rfl
  | some u => rfl

theorem after? {ps : Text} (h : ∀ c ∈ ps, c ≠ '\n' ∧ c ≠ '\r') :
  Follows (after? ps)
  := by
  induction ps with
  | nil => exact fun t => rfl
  | cons q qs ih =>
      obtain ⟨hq, hqs⟩ := List.forall_mem_cons.mp h
      intro t
      cases t with
      | nil => rfl
      | cons c t =>
          change (if q = feed c then Text.after? qs (fed t) else none) = _
          rw [Text.after?]
          simp only [eq_feed_iff hq]
          split
          · exact ih hqs t
          · rfl

theorem afterAnyCase? {word : Text} (h : ∀ c ∈ word, c ≠ '\n' ∧ c ≠ '\r') :
  Follows (afterAnyCase? word)
  := by
  induction word with
  | nil => exact fun t => rfl
  | cons q qs ih =>
      obtain ⟨hq, hqs⟩ := List.forall_mem_cons.mp h
      intro t
      cases t with
      | nil => rfl
      | cons c t =>
          have hfold : q = foldCase (feed c) ↔ q = foldCase c := by
            by_cases hc : c = '\r'
            · subst hc
              exact iff_of_false hq.1 hq.2
            · rw [feed_of_ne hc]
          change (if q = foldCase (feed c) then Text.afterAnyCase? qs (fed t) else none) = _
          rw [Text.afterAnyCase?]
          simp only [hfold]
          split
          · exact ih hqs t
          · rfl

theorem dropWhile {f : Char → Bool} (h : f '\n' = f '\r') :
  Follows fun t => some (t.dropWhile f)
  := by
  have hfeed : f ∘ feed = f := by
    funext c
    rw [Function.comp_apply, feed]
    split
    · next hc => rw [hc, h]
    · rfl
  intro t
  dsimp only
  rw [fed, List.dropWhile_map, hfeed]
  rfl

theorem afterSome? {f : Char → Bool} (h : f '\n' = f '\r') :
  Follows (afterSome? f)
  := by
  intro t
  cases t with
  | nil => rfl
  | cons c t =>
      have hfeed : f (feed c) = f c := by
        rw [feed]
        split
        · next hc => rw [hc, h]
        · rfl
      change (if f (feed c) then some ((fed t).dropWhile f) else none) = _
      rw [Text.afterSome?, hfeed]
      split
      · exact dropWhile h t
      · rfl

theorem afterFirst? {ps : Text} (h : ∀ c ∈ ps, c ≠ '\n' ∧ c ≠ '\r') :
  Follows (afterFirst? ps)
  := by
  intro t
  induction t with
  | nil => exact after? h []
  | cons c t ih =>
      have hhere := after? h (c :: t)
      change Text.afterFirst? ps (feed c :: fed t) = _
      rw [Text.afterFirst?, Text.afterFirst?]
      rw [show feed c :: fed t = fed (c :: t) from rfl, hhere]
      cases Text.after? ps (c :: t) with
      | none => exact ih
      | some u => rfl

end Follows

/-! ### Readers that end at line feeds -/

/-- Whether a reader that takes no carriage return reads line feeds as it reads carriage returns. -/
def FollowsLine (p : Text → Option Text) : Prop :=
  ∀ t, (∀ x u, t = x ++ u → p t = some u → '\r' ∉ x) → p (fed t) = (p t).map fed

/-- Whether a reader reads line feeds as it reads carriage returns, or reads nothing where it takes
a carriage return otherwise. -/
def Heeds (p : Text → Option Text) : Prop :=
  ∀ t, p (fed t) = (p t).map fed ∨ p (fed t) = none ∧ ∀ u ∈ p t, ∃ x, t = x ++ u ∧ '\r' ∈ x

/-- Whether what a reader leaves is an end of the text. -/
def Leaves (p : Text → Option Text) : Prop :=
  ∀ t u, p t = some u → u <:+ t

section

variable {p q : Text → Option Text}

theorem Follows.line (h : Follows p) :
  FollowsLine p
  := fun t _ => h t

theorem Follows.heeds (h : Follows p) :
  Heeds p
  := fun t => .inl (h t)

theorem Heeds.line (h : Heeds p) :
  FollowsLine p
  := by
  intro t hreturn
  rcases h t with hsame | ⟨hnone, htaken⟩
  · exact hsame
  · cases hp : p t with
    | none => exact hnone
    | some u =>
        obtain ⟨x, hx, hmem⟩ := htaken u hp
        exact absurd hmem (hreturn x u hx hp)

theorem FollowsLine.orElse (hp : FollowsLine p) (hq : FollowsLine q) :
  FollowsLine fun t => p t <|> q t
  := by
  intro t hreturn
  simp only [Option.orElse_eq_orElse, Option.orElse_eq_or] at hreturn ⊢
  cases hpt : p t with
  | none =>
      have hfed := hp t (by rw [hpt]; rintro _ _ _ ⟨⟩)
      rw [hfed, hpt, Option.map_none, Option.none_or, Option.none_or]
      apply hq t
      intro x u hx hu
      apply hreturn x u hx
      rw [hpt, Option.none_or, hu]
  | some v =>
      have hfed := hp t (by
        intro x u hx hu
        apply hreturn x u hx
        rw [hu, Option.some_or])
      rw [hfed, hpt, Option.map_some, Option.some_or, Option.some_or, Option.map_some]

theorem Follows.bindLine (hp : Follows p) (hleaves : Leaves p) (hq : FollowsLine q) :
  FollowsLine fun t => p t >>= q
  := by
  intro t hreturn
  dsimp only at hreturn ⊢
  rw [hp t]
  cases hpt : p t with
  | none => rfl
  | some v =>
      apply hq v
      intro x u hx hu
      obtain ⟨y, rfl⟩ := hleaves t v hpt
      have hyx := hreturn (y ++ x) u (by rw [List.append_assoc, hx]) (by rw [hpt]; exact hu)
      exact fun hmem => hyx (List.mem_append_right y hmem)

theorem Heeds.bind (hp : Heeds p) (hq : Heeds q) (hleaves : Leaves p) (hleaves' : Leaves q) :
  Heeds fun t => p t >>= q
  := by
  intro t
  dsimp only
  rcases hp t with hsame | ⟨hnone, htaken⟩
  · rw [hsame]
    cases hpt : p t with
    | none => exact .inl rfl
    | some v =>
        obtain ⟨y, rfl⟩ := hleaves t v hpt
        rcases hq v with hsame | ⟨hnone, htaken⟩
        · exact .inl hsame
        · right
          refine ⟨hnone, fun u hu => ?_⟩
          obtain ⟨x, rfl, hmem⟩ := htaken u hu
          exact ⟨y ++ x, (List.append_assoc y x u).symm, List.mem_append_right y hmem⟩
  · right
    rw [hnone]
    refine ⟨rfl, fun u hu => ?_⟩
    obtain ⟨v, hv, hvu⟩ := Option.bind_eq_some_iff.mp hu
    obtain ⟨x, rfl, hmem⟩ := htaken v hv
    obtain ⟨y, rfl⟩ := hleaves' v u hvu
    exact ⟨x ++ y, (List.append_assoc x y u).symm, List.mem_append_left y hmem⟩

theorem Leaves.bind (hp : Leaves p) (hq : Leaves q) :
  Leaves fun t => p t >>= q
  := by
  intro t u hu
  obtain ⟨v, hv, hvu⟩ := Option.bind_eq_some_iff.mp hu
  exact (hq v u hvu).trans (hp t v hv)

theorem leaves_after? (ps : Text) :
  Leaves (after? ps)
  := fun _ _ hu => ⟨ps, (after?_eq_some_iff.mp hu).symm⟩

theorem leaves_dropWhile (f : Char → Bool) :
  Leaves fun t => some (t.dropWhile f)
  := by
  rintro t u ⟨⟩
  exact List.dropWhile_suffix f

/-- Reading up to a character of the line, and the character, ends at a line feed. -/
theorem heeds_upTo {f : Char → Bool} (hfeed : f '\n' = false) (hreturn : f '\r' = true)
    {mark : Char} (hmark : mark ≠ '\n' ∧ mark ≠ '\r') :
  Heeds fun t => after? [mark] (t.dropWhile f)
  := by
  have hleaves : Leaves fun t => after? [mark] (t.dropWhile f) :=
    (leaves_dropWhile f).bind (leaves_after? [mark])
  have hone : Follows (after? [mark]) := Follows.after? (List.forall_mem_singleton.mpr hmark)
  intro t
  induction t with
  | nil => exact .inl rfl
  | cons c t ih =>
      dsimp only at ih ⊢
      have hfed : fed (c :: t) = feed c :: fed t := rfl
      by_cases hc : c = '\r'
      · subst hc
        have hfeeds : ('\n' :: fed t).dropWhile f = '\n' :: fed t :=
          List.dropWhile_cons_of_neg (by rw [hfeed]; exact Bool.false_ne_true)
        right
        constructor
        · rw [hfed, show feed '\r' = '\n' from rfl, hfeeds]
          exact if_neg hmark.1
        · intro u hu
          rw [List.dropWhile_cons_of_pos hreturn] at hu
          obtain ⟨x, rfl⟩ := hleaves t u hu
          exact ⟨'\r' :: x, rfl, List.mem_cons_self⟩
      · have hsame := hone (c :: t)
        rw [hfed, feed_of_ne hc] at hsame ⊢
        cases hf : f c with
        | true =>
            rw [List.dropWhile_cons_of_pos hf, List.dropWhile_cons_of_pos hf]
            rcases ih with hsame | ⟨hnone, htaken⟩
            · exact .inl hsame
            · right
              refine ⟨hnone, fun u hu => ?_⟩
              obtain ⟨x, rfl, hmem⟩ := htaken u hu
              exact ⟨c :: x, rfl, List.mem_cons_of_mem c hmem⟩
        | false =>
            have hnot : ¬ f c = true := by
              rw [hf]
              exact Bool.false_ne_true
            rw [List.dropWhile_cons_of_neg hnot, List.dropWhile_cons_of_neg hnot]
            exact .inl hsame

end

/-! ### Shapes that follow -/

namespace Shape

variable {s : Shape}

/-- Whether a shape whose construct has no carriage return finds it where line feeds are written for
carriage returns. -/
def Follows (s : Shape) : Prop :=
  ∀ before t, (∀ x u, t = x ++ u → s before t = some u → '\r' ∉ x) →
    s (before.map feed) (fed t) = (s before t).map fed

/-- A shape that reads a start of the text, whatever stands before it. -/
theorem follows_of_reader {p : Text → Option Text} (hp : FollowsLine p)
    (hs : ∀ before t, s before t = p t) :
  s.Follows
  := by
  intro before t hreturn
  rw [hs] at hreturn ⊢
  rw [hs]
  exact hp t hreturn

/-- Where no construct has a carriage return, line feeds may be written for carriage returns before
the constructs are written anew, or afterwards. -/
theorem Follows.replace_fed (h : s.Follows) {f : Text → Text} (hf : ∀ x, '\r' ∉ f x) {t : Text}
    (ht : '\r' ∉ s.constructs t) :
  s.replace f (fed t) = fed (s.replace f t)
  := by
  -- by the characters of the text, also within a construct that has begun
  have hpieces : ∀ skip before, (∀ x, .found x ∈ s.piecesAfter skip before t → '\r' ∉ x) →
      (s.piecesAfter skip (before.map feed) (fed t)).flatMap (·.render f)
        = fed ((s.piecesAfter skip before t).flatMap (·.render f)) := by
    clear ht
    induction t with
    | nil =>
        intro skip before _
        cases skip <;> rfl
    | cons c t ih =>
        intro skip before hreturn
        cases skip with
        | succ skip => exact ih skip (some c) hreturn
        | zero =>
            have hread := h before (c :: t) (by
              intro x u hx hu
              cases x with
              | nil => exact List.not_mem_nil
              | cons d x =>
                  apply hreturn
                  rw [hx] at hu ⊢
                  exact found_mem_of_construct (List.cons_ne_nil d x) hu)
            have hspan : s.span (before.map feed) (feed c :: fed t) = s.span before (c :: t) := by
              change s.span (before.map feed) (fed (c :: t)) = _
              rw [span, span, hread]
              cases s before (c :: t) with
              | none => rfl
              | some u => simp [fed]
            change (s.piecesAfter 0 (before.map feed) (feed c :: fed t)).flatMap _ = _
            rw [piecesAfter] at hreturn ⊢
            rw [piecesAfter, hspan]
            split
            · next hzero =>
              rw [hzero] at hreturn
              have hbehind := ih 0 (some c) fun x hx => hreturn x (List.mem_cons_of_mem _ hx)
              exact congrArg (feed c :: ·) hbehind
            · next n hn =>
              rw [hn] at hreturn
              have hbehind := ih n (some c) fun x hx => hreturn x (List.mem_cons_of_mem _ hx)
              have hfound := hreturn _ List.mem_cons_self
              have hsame : feed c :: (fed t).take n = c :: t.take n := by
                rw [fed, ← List.map_take]
                exact fed_of_notMem hfound
              rw [List.flatMap_cons, List.flatMap_cons, hsame, fed_append]
              exact congrArg₂ (· ++ ·) (fed_of_notMem (hf _)).symm hbehind
  apply hpieces 0 none
  intro x hx hmem
  exact ht (mem_constructs_iff.mpr ⟨x, hx, hmem⟩)

end Shape

/-! ### Lines of padded texts -/

/-- Whether a line is another one with pads behind it. -/
def Tailed (l m : Text) : Prop := ∃ pads, (∀ b ∈ pads, isPad b = true) ∧ m = l ++ pads

namespace Tailed

variable {l m : Text}

theorem refl (l : Text) :
  Tailed l l
  := ⟨[], List.forall_mem_nil _, (List.append_nil l).symm⟩

theorem cons (h : Tailed l m) (c : Char) :
  Tailed (c :: l) (c :: m)
  := by
  obtain ⟨pads, hpads, rfl⟩ := h
  exact ⟨pads, hpads, rfl⟩

theorem trim_eq (h : Tailed l m) :
  trim m = trim l
  := by
  obtain ⟨pads, hpads, rfl⟩ := h
  apply trim_append_of_blank_right
  intro b hb
  rcases eq_of_isPad (hpads b hb) with rfl | rfl
  · decide
  · decide

end Tailed

theorem lines_cons_lineFeed (t : Text) :
  lines ('\n' :: t) = [] :: lines t
  := by
  rw [lines, splitOn, if_pos rfl]
  rfl

theorem getLast?_cons_lines (l t : Text) :
  (l :: lines t).getLast? = (lines t).getLast?
  := List.getLast?_cons_of_ne_nil (splitOn_ne_nil '\n' t)

/-- The lines of a padded text are those of the text with pads behind them, but for the last one,
which stays as it is. -/
theorem Padded.lines {t u : Text} (h : Padded [] t u) :
  List.Forall₂ Tailed (lines t) (lines u) ∧ (Text.lines u).getLast? = (Text.lines t).getLast?
  := by
  induction h with
  | nil => exact ⟨.cons (.refl []) .nil, rfl⟩
  | @cons c t u _ ih =>
      obtain ⟨hlines, hends⟩ := ih
      by_cases hc : c = '\n'
      · subst hc
        rw [lines_cons_lineFeed, lines_cons_lineFeed, getLast?_cons_lines, getLast?_cons_lines]
        exact ⟨.cons (.refl []) hlines, hends⟩
      · obtain ⟨l, ls, hl, hcl⟩ := splitOn_cons_of_ne hc t
        obtain ⟨m, ms, hm, hcm⟩ := splitOn_cons_of_ne hc u
        rw [Text.lines, Text.lines, hl, hm] at hlines hends
        rw [Text.lines, Text.lines, hcl, hcm]
        obtain ⟨hfirst, hothers⟩ := List.forall₂_cons.mp hlines
        refine ⟨.cons (hfirst.cons c) hothers, ?_⟩
        cases hothers with
        | nil =>
            obtain rfl : m = l := Option.some.inj hends
            rfl
        | cons _ _ => exact hends
  | @pad b t u hb hhead _ ih =>
      rw [List.append_nil] at hhead
      obtain ⟨v, rfl⟩ := List.head?_eq_some_iff.mp hhead
      obtain ⟨hlines, hends⟩ := ih
      have hne : b ≠ '\n' := by
        rintro rfl
        cases hb
      obtain ⟨m, ms, hm, hbm⟩ := splitOn_cons_of_ne hne u
      rw [lines_cons_lineFeed] at hlines hends ⊢
      rw [show Text.lines u = m :: ms from hm] at hlines hends
      rw [show Text.lines (b :: u) = (b :: m) :: ms from hbm]
      obtain ⟨⟨pads, hpads, hpad⟩, hothers⟩ := List.forall₂_cons.mp hlines
      have hfirst : Tailed [] (b :: m) :=
        ⟨b :: pads, List.forall_mem_cons.mpr ⟨hb, hpads⟩, congrArg (b :: ·) hpad⟩
      refine ⟨.cons hfirst hothers, ?_⟩
      have hms : ms ≠ [] := by
        rintro rfl
        exact splitOn_ne_nil '\n' v (List.length_eq_zero_iff.mp hothers.length_eq)
      rw [List.getLast?_cons_of_ne_nil hms] at hends ⊢
      exact hends

/-! ### Carriage returns in front of line feeds -/

/-- The text with a carriage return in front of every line feed. -/
def crlf : Text → Text
  | [] => []
  | '\n' :: t => '\r' :: '\n' :: crlf t
  | c :: t => c :: crlf t

/-- The lines with a carriage return behind each but the last. -/
def returned : List Text → List Text
  | [] => []
  | [l] => [l]
  | l :: m :: ls => (l ++ ['\r']) :: returned (m :: ls)

theorem padded_crlf (t : Text) :
  Padded [] t (crlf t)
  := by
  fun_induction crlf t with
  | case1 => exact .nil
  | case2 t ih => exact .pad rfl rfl (.cons '\n' ih)
  | case3 c t _ ih => exact .cons c ih

theorem returned_cons {ls : List Text} (h : ls ≠ []) (l : Text) :
  returned (l :: ls) = (l ++ ['\r']) :: returned ls
  := by
  obtain ⟨m, ms, rfl⟩ := List.exists_cons_of_ne_nil h
  rfl

theorem returned_concat (ls : List Text) (l : Text) :
  returned (ls ++ [l]) = ls.map (· ++ ['\r']) ++ [l]
  := by
  induction ls with
  | nil => rfl
  | cons m ls ih =>
      rw [List.cons_append, returned_cons (by simp), ih]
      rfl

/-- The lines of a text with a carriage return in front of every line feed end with carriage
returns, but for the last one. -/
theorem lines_crlf (t : Text) :
  lines (crlf t) = returned (lines t)
  := by
  fun_induction crlf t with
  | case1 => rfl
  | case2 t ih =>
      have hne : '\r' ≠ '\n' := by decide
      obtain ⟨l, ls, hl, hrl⟩ := splitOn_cons_of_ne hne ('\n' :: crlf t)
      obtain ⟨rfl, rfl⟩ := List.cons.inj (hl.symm.trans (lines_cons_lineFeed (crlf t)))
      have hlines : lines t ≠ [] := splitOn_ne_nil '\n' t
      rw [lines_cons_lineFeed, returned_cons hlines, ← ih]
      exact hrl
  | case3 c t hne ih =>
      obtain ⟨l, ls, hl, hcl⟩ := splitOn_cons_of_ne hne t
      obtain ⟨m, ms, hm, hcm⟩ := splitOn_cons_of_ne hne (crlf t)
      rw [lines, lines, hl, hm] at ih
      rw [lines, lines, hcl, hcm]
      cases ls with
      | nil =>
          obtain ⟨rfl, rfl⟩ := List.cons.inj ih
          rfl
      | cons l' ls =>
          obtain ⟨rfl, rfl⟩ := List.cons.inj ih
          rfl

/-- Lines with carriage returns behind them make the text with a carriage return in front of every
line feed. -/
theorem crlf_ofLines {ls : List Text} (h : ∀ l ∈ ls, '\n' ∉ l) :
  crlf (ofLines ls) = ofLines (returned ls)
  := by
  cases ls with
  | nil => rfl
  | cons l ls =>
      have hlines : lines (ofLines (l :: ls)) = l :: ls :=
        splitOn_joinWith (List.cons_ne_nil l ls) h
      rw [← ofLines_lines (crlf _), lines_crlf, hlines]

/-- Lines make the text with a carriage return in front of every line feed if carriage returns are
behind each of them but the last. -/
theorem ofLines_eq_crlf_iff {ls ms : List Text} (hls : ls ≠ []) (hms : ms ≠ [])
    (h : ∀ l ∈ ls, '\n' ∉ l) (h' : ∀ m ∈ ms, '\n' ∉ m) :
  ofLines ms = crlf (ofLines ls) ↔ ms = returned ls
  := by
  constructor
  · intro heq
    have hlines : lines (ofLines ms) = ms := splitOn_joinWith hms h'
    have hlines' : lines (ofLines ls) = ls := splitOn_joinWith hls h
    rw [← hlines, heq, lines_crlf, hlines']
  · rintro rfl
    exact (crlf_ofLines h).symm

/-- Carriage returns are behind each line but the last if they are written there. -/
theorem map_eq_returned_iff {α : Type} (entries : List α) (f : α → Text) (p : α → Prop)
    [DecidablePred p] :
  (entries.map fun a => f a ++ if p a then ['\r'] else []) = returned (entries.map f)
    ↔ (∀ a ∈ entries.dropLast, p a) ∧ ∀ a ∈ entries.getLast?, ¬ p a
  := by
  rcases List.eq_nil_or_concat entries with rfl | ⟨init, last, rfl⟩
  · simp [returned]
  · rw [List.concat_eq_append, List.map_append, List.map_append, List.map_singleton,
      List.map_singleton, returned_concat, List.map_map, List.dropLast_concat, List.getLast?_concat]
    constructor
    · intro heq
      obtain ⟨hinit, hlast⟩ := List.append_inj' heq rfl
      constructor
      · intro a ha
        by_contra hp
        have hsame := List.map_inj_left.mp hinit a ha
        simp [hp] at hsame
      · rintro a ⟨⟩ hp
        simp [hp] at hlast
    · rintro ⟨hinit, hlast⟩
      rw [if_neg (hlast last rfl), List.append_nil]
      congr 1
      apply List.map_congr_left
      intro a ha
      rw [if_pos (hinit a ha)]
      rfl

end StylePrune.Text
