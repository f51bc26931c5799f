import Mathlib.Data.List.Basic
import StylePrune.Text.Shape

/-!
# Where a shape starts nothing

A shape is idle on a text if none of its constructs starts there.  Rewriting the constructs then
leaves the text as it is and goes on behind it.  `Passes` says this of any rewriting, and of a text
that does not stay as it is; one rewriting after the other passes over a text if each of them does.
-/

namespace StylePrune.Text

/-- Whether a rewriting makes one text of another, and if a given character follows, leaves it and
goes on behind it. -/
def Passes (f : Text → Text) (t t' : Text) (d : Char) : Prop :=
  f t = t' ∧ ∀ rest, f (t ++ d :: rest) = t' ++ d :: f rest

theorem Passes.comp {f g : Text → Text} {t t' t'' : Text} {d : Char} (hg : Passes g t' t'' d)
    (hf : Passes f t t' d) :
  Passes (g ∘ f) t t'' d
  := by
  constructor
  · rw [Function.comp_apply, hf.1, hg.1]
  · intro rest
    rw [Function.comp_apply, Function.comp_apply, hf.2, hg.2]

namespace Shape

/-- Whether no construct of a shape starts in a text, nor where it ends, if `rest` follows it. -/
def Idle (s : Shape) (t rest : Text) : Prop := ∀ u, u <:+ t → ∀ before, s before (u ++ rest) = none

variable {s : Shape} {t rest : Text}

theorem piecesAfter_cons_of_none {before : Option Char} {c : Char} {t : Text}
    (h : s before (c :: t) = none) :
  s.piecesAfter 0 before (c :: t) = .plain c :: s.piecesAfter 0 (some c) t
  := by
  rw [piecesAfter, span, h]

/-- The characters of a text in which no construct starts are pieces of their own. -/
theorem piecesAfter_append_of_starts
    (h : ∀ c u, c :: u <:+ t → ∀ before, s before (c :: (u ++ rest)) = none) (before : Option Char) :
  ∃ last, s.piecesAfter 0 before (t ++ rest) = t.map .plain ++ s.piecesAfter 0 last rest
  := by
  induction t generalizing before with
  | nil => exact ⟨before, rfl⟩
  | cons c t ih =>
      obtain ⟨last, hlast⟩ := ih (fun d u hu => h d u (hu.trans (List.suffix_cons c t))) (some c)
      use last
      rw [List.cons_append, piecesAfter_cons_of_none (h c t List.suffix_rfl before), hlast]
      rfl

theorem piecesAfter_append_of_idle (h : s.Idle t rest) (before : Option Char) :
  ∃ last, s.piecesAfter 0 before (t ++ rest) = t.map .plain ++ s.piecesAfter 0 last rest
  := piecesAfter_append_of_starts (fun c u hu => h (c :: u) hu) before

theorem piecesAfter_eq_pieces {before : Option Char} (h : ∀ t, s before t = s none t) (t : Text) :
  s.piecesAfter 0 before t = s.pieces t
  := by
  rw [pieces]
  cases t with
  | nil => rfl
  | cons c t => rw [piecesAfter, piecesAfter, span, span, h]

/-- What is written for plain characters is the text they make. -/
theorem flatMap_render_plain (f : Text → Text) (t : Text) :
  (t.map Piece.plain).flatMap (·.render f) = t
  := by
  induction t with
  | nil => rfl
  | cons c t ih => rw [List.map_cons, List.flatMap_cons, ih, Piece.render, List.singleton_append]

/-- Characters with which no construct starts are pieces of their own at the start of a text. -/
theorem piecesAfter_append_of_forall (h : ∀ c ∈ t, ∀ before u, s before (c :: u) = none)
    (before : Option Char) (rest : Text) :
  ∃ last, s.piecesAfter 0 before (t ++ rest) = t.map .plain ++ s.piecesAfter 0 last rest
  := piecesAfter_append_of_starts (fun c _ hu before => h c (hu.subset List.mem_cons_self) before _)
    before

/-- Rewriting leaves the start of a text as it is, if no construct starts with a character of it. -/
theorem exists_replace_append (h : ∀ c ∈ t, ∀ before u, s before (c :: u) = none)
    (f : Text → Text) (rest : Text) :
  ∃ u, s.replace f (t ++ rest) = t ++ u
  := by
  obtain ⟨last, hlast⟩ := piecesAfter_append_of_forall h none rest
  use (s.piecesAfter 0 last rest).flatMap (·.render f)
  rw [replace, pieces, hlast, List.flatMap_append, flatMap_render_plain]

/-- Rewriting does nothing to a text on which the shape is idle. -/
theorem replace_of_idle (h : s.Idle t []) (f : Text → Text) :
  s.replace f t = t
  := by
  obtain ⟨last, hlast⟩ := piecesAfter_append_of_idle h none
  rw [List.append_nil] at hlast
  rw [replace, pieces, hlast, List.flatMap_append, flatMap_render_plain]
  apply List.append_nil

/-- Rewriting goes on behind a text on which the shape is idle, if it is all the same to the shape
whether the character behind the text stands before it or nothing does. -/
theorem replace_append_of_idle {d : Char} (h : s.Idle t (d :: rest))
    (hd : ∀ u, s (some d) u = s none u) (f : Text → Text) :
  s.replace f (t ++ d :: rest) = t ++ d :: s.replace f rest
  := by
  obtain ⟨last, hlast⟩ := piecesAfter_append_of_idle h none
  rw [replace, pieces, hlast, piecesAfter_cons_of_none (h [] List.nil_suffix last),
    piecesAfter_eq_pieces hd, List.flatMap_append, flatMap_render_plain]
  rfl

/-- Rewriting passes over a text on which the shape is idle. -/
theorem passes_of_idle {d : Char} (h : ∀ rest, (∀ c ∈ rest.head?, c = d) → s.Idle t rest)
    (hd : ∀ u, s (some d) u = s none u) (f : Text → Text) :
  Passes (s.replace f) t t d
  := by
  constructor
  · apply replace_of_idle
    apply h
    rintro c ⟨⟩
  · intro rest
    apply replace_append_of_idle _ hd
    apply h
    rintro c ⟨⟩
    rfl

theorem piecesAfter_cons_of_span {before : Option Char} {c : Char} {t : Text} {n : Nat}
    (h : s.span before (c :: t) = n + 1) :
  s.piecesAfter 0 before (c :: t) = .found (c :: t.take n) :: s.piecesAfter n (some c) t
  := by
  rw [piecesAfter, h]

theorem span_le_length (s : Shape) (before : Option Char) (t : Text) :
  s.span before t ≤ t.length
  := by
  rw [span]
  split
  · apply Nat.sub_le
  · apply Nat.zero_le

/-- A construct that ends where it did, when more follows, is as long as it was. -/
theorem span_append {before : Option Char} {u v : Text} (h : s before u = some v)
    (happend : s before (u ++ rest) = some (v ++ rest)) :
  s.span before (u ++ rest) = s.span before u
  := by
  rw [span, span, h, happend]
  simp only [List.length_append, Nat.add_sub_add_right]

/-- A text has the same pieces wherever it stands, if what the shape finds in it is found whatever
follows, and no other character of the text could start a construct. -/
theorem piecesAfter_append {Good : Piece → Prop}
    (hplain : ∀ c, Good (.plain c) → ∀ before u, s before (c :: u) = none)
    (hfound : ∀ before u v, s before u = some v → Good (.found (u.take (u.length - v.length))) →
      s before (u ++ rest) = some (v ++ rest))
    {skip : Nat} (hskip : skip ≤ t.length) (before : Option Char)
    (h : ∀ p ∈ s.piecesAfter skip before t, Good p) :
  ∃ last, s.piecesAfter skip before (t ++ rest)
    = s.piecesAfter skip before t ++ s.piecesAfter 0 last rest
  := by
  induction t generalizing skip before with
  | nil =>
      obtain rfl := Nat.le_zero.mp hskip
      exact ⟨before, rfl⟩
  | cons c t ih =>
      cases skip with
      | succ skip => exact ih (Nat.le_of_succ_le_succ hskip) (some c) h
      | zero =>
          cases hs : s before (c :: t) with
          | none =>
              rw [piecesAfter_cons_of_none hs] at h ⊢
              obtain ⟨hc, ht⟩ := List.forall_mem_cons.mp h
              obtain ⟨last, hlast⟩ := ih (Nat.zero_le _) (some c) ht
              use last
              rw [List.cons_append, piecesAfter_cons_of_none (hplain c hc before (t ++ rest)),
                hlast]
              rfl
          | some v =>
              cases hspan : s.span before (c :: t) with
              | zero =>
                  -- a construct of no length leaves a plain character, with which none starts
                  rw [piecesAfter, hspan] at h
                  have hc := (List.forall_mem_cons.mp h).1
                  rw [hplain c hc] at hs
                  cases hs
              | succ n =>
                  rw [piecesAfter_cons_of_span hspan] at h ⊢
                  obtain ⟨hc, ht⟩ := List.forall_mem_cons.mp h
                  have happend : s before (c :: (t ++ rest)) = some (v ++ rest) := by
                    apply hfound before (c :: t) v hs
                    have hlength : (c :: t).length - v.length = n + 1 := by
                      rw [← hspan, span, hs]
                    rw [hlength]
                    exact hc
                  have hspan' : s.span before (c :: (t ++ rest)) = n + 1 :=
                    (span_append hs happend).trans hspan
                  have hn : n ≤ t.length := by
                    have hle := span_le_length s before (c :: t)
                    rw [hspan] at hle
                    apply Nat.le_of_succ_le_succ hle
                  obtain ⟨last, hlast⟩ := ih hn (some c) ht
                  use last
                  rw [List.cons_append, piecesAfter_cons_of_span hspan', hlast,
                    List.take_append_of_le_length hn]
                  rfl

/-- Rewriting passes over a text if every construct found in it is found whatever follows, and no
other character of the text, nor the one behind it, could start a construct. -/
theorem passes_of_pieces (Good : Piece → Prop) {d : Char}
    (hplain : ∀ c, Good (.plain c) → ∀ before u, s before (c :: u) = none)
    (hfound : ∀ rest : Text, (∀ c ∈ rest.head?, c = d) → ∀ before u v, s before u = some v →
      Good (.found (u.take (u.length - v.length))) → s before (u ++ rest) = some (v ++ rest))
    (h : ∀ p ∈ s.pieces t, Good p) (hstop : Good (.plain d))
    (hd : ∀ u, s (some d) u = s none u) (f : Text → Text) :
  Passes (s.replace f) t (s.replace f t) d
  := by
  constructor
  · rfl
  · intro rest
    have hhead : ∀ c ∈ (d :: rest).head?, c = d := by
      rintro c ⟨⟩
      rfl
    obtain ⟨last, hlast⟩ := piecesAfter_append hplain (hfound _ hhead) (Nat.zero_le _) none h
    rw [replace, pieces, hlast, piecesAfter_cons_of_none (hplain d hstop last rest),
      piecesAfter_eq_pieces hd, List.flatMap_append, List.flatMap_cons]
    rfl

end Shape

/-! ### The case of letters -/

theorem isUpper_iff {c : Char} :
  c.isUpper = true ↔ 65 ≤ c.toNat ∧ c.toNat ≤ 90
  := decide_eq_true_iff

theorem isLower_iff {c : Char} :
  c.isLower = true ↔ 97 ≤ c.toNat ∧ c.toNat ≤ 122
  := Bool.and_eq_true_iff.trans (and_congr decide_eq_true_iff decide_eq_true_iff)

theorem isAlpha_iff {c : Char} :
  c.isAlpha = true ↔ c.isUpper = true ∨ c.isLower = true
  := Bool.or_eq_true_iff

theorem toLower_of_not_isUpper {c : Char} (h : ¬ c.isUpper = true) :
  c.toLower = c
  := dif_neg (mt decide_eq_true h)

theorem toNat_toLower_of_isUpper {c : Char} (h : c.isUpper = true) :
  c.toLower.toNat = c.toNat + 32
  := by
  have hle := (isUpper_iff.mp h).2
  have hval : c.toLower.val = c.val + 32 := congrArg Char.val (dif_pos (of_decide_eq_true h))
  rw [← Char.toNat_val, hval, UInt32.toNat_add]
  change (c.toNat + 32) % 2 ^ 32 = _
  omega

/-- Only a letter is written in another case. -/
theorem foldCase_eq_self_or_isAlpha (c : Char) :
  foldCase c = c ∨ (foldCase c).isAlpha = true
  := by
  rw [foldCase]
  split
  · exact .inr rfl
  · by_cases h : c.isUpper = true
    · right
      have := isUpper_iff.mp h
      rw [isAlpha_iff, isLower_iff, toNat_toLower_of_isUpper h]
      omega
    · left
      exact toLower_of_not_isUpper h

/-- A character other than a letter is written in one case. -/
theorem eq_of_foldCase_eq {c p : Char} (hp : p.isAlpha = false) (h : foldCase c = p) :
  c = p
  := by
  rcases foldCase_eq_self_or_isAlpha c with hc | hc
  · rw [← h, hc]
  · rw [h, hp] at hc
    cases hc

/-- A blank is written in one case. -/
theorem foldCase_of_isBlank {c : Char} (h : isBlank c = true) :
  foldCase c = c
  := by
  rw [foldCase, if_neg]
  · apply toLower_of_not_isUpper
    simp only [isBlank, Bool.or_eq_true, Bool.and_eq_true, decide_eq_true_eq, beq_iff_eq] at h
    rw [isUpper_iff]
    omega
  · rintro rfl
    cases h

/-! ### Reading the start of a text -/

theorem after?_eq_some_iff {ps t rest : Text} :
  after? ps t = some rest ↔ t = ps ++ rest
  := by
  induction ps generalizing t with
  | nil => simp [after?]
  | cons p ps ih =>
      cases t with
      | nil => simp [after?]
      | cons c t =>
          rw [after?, List.cons_append, List.cons.injEq, ← ih]
          split
          · next h => simp [h]
          · next h => simp [Ne.symm h]

/-- Characters that a text starts with are in the text. -/
theorem mem_of_after? {ps t rest : Text} (h : after? ps t = some rest) {p : Char} (hp : p ∈ ps) :
  p ∈ t
  := by
  rw [after?_eq_some_iff.mp h]
  exact List.mem_append_left rest hp

/-- Characters that are found in a text that goes on with none of them are found in the text. -/
theorem after?_append {ps t rest u : Text} (hrest : ∀ d ∈ rest.head?, d ∉ ps)
    (h : after? ps (t ++ rest) = some u) :
  (∀ p ∈ ps, p ∈ t) ∧ ∃ v, v <:+ t ∧ u = v ++ rest
  := by
  induction ps generalizing t with
  | nil =>
      obtain rfl := Option.some.inj h
      constructor
      · rintro p ⟨⟩
      · use t, List.suffix_rfl
  | cons p ps ih =>
      cases t with
      | nil =>
          cases rest with
          | nil => cases h
          | cons d rest =>
              have hp : p ≠ d := by
                rintro rfl
                exact hrest p rfl List.mem_cons_self
              rw [List.nil_append, after?, if_neg hp] at h
              cases h
      | cons c t =>
          rw [List.cons_append, after?] at h
          split at h
          · next hpc =>
            obtain ⟨hmem, v, hv, rfl⟩ := ih (fun d hd => mt (List.mem_cons_of_mem p) (hrest d hd)) h
            constructor
            · intro q hq
              rcases List.mem_cons.mp hq with rfl | hq
              · exact hpc ▸ List.mem_cons_self
              · apply List.mem_cons_of_mem c (hmem q hq)
            · use v, hv.trans (List.suffix_cons c t)
          · cases h

/-- A word is found in a text that goes on with a character the word does not have if it is found
in the text alone. -/
theorem afterAnyCase?_append {word rest : Text} (h : ∀ d ∈ rest.head?, foldCase d ∉ word)
    (t : Text) :
  afterAnyCase? word (t ++ rest) = (afterAnyCase? word t).map (· ++ rest)
  := by
  induction word generalizing t with
  | nil => simp [afterAnyCase?]
  | cons p ps ih =>
      cases t with
      | nil =>
          cases rest with
          | nil => rfl
          | cons d rest =>
              have hp : p ≠ foldCase d := by
                rintro rfl
                exact h d rfl List.mem_cons_self
              simp [afterAnyCase?, hp]
      | cons c t =>
          rw [List.cons_append, afterAnyCase?, afterAnyCase?]
          split
          · apply ih
            intro d hd
            exact mt (List.mem_cons_of_mem p) (h d hd)
          · rfl

/-- The characters of a word that is found are in the text. -/
theorem exists_foldCase_of_afterAnyCase? {word t rest : Text}
    (h : afterAnyCase? word t = some rest) {p : Char} (hp : p ∈ word) :
  ∃ c ∈ t, foldCase c = p
  := by
  induction word generalizing t with
  | nil => cases hp
  | cons q qs ih =>
      cases t with
      | nil => cases h
      | cons c t =>
          rw [afterAnyCase?] at h
          split at h
          · next hq =>
            rcases List.mem_cons.mp hp with rfl | hp
            · exact ⟨c, List.mem_cons_self, hq.symm⟩
            · obtain ⟨e, he, hfold⟩ := ih h hp
              exact ⟨e, List.mem_cons_of_mem c he, hfold⟩
          · cases h

/-- What follows a word that is found is an end of the text. -/
theorem suffix_of_afterAnyCase? {word t rest : Text} (h : afterAnyCase? word t = some rest) :
  rest <:+ t
  := by
  induction word generalizing t with
  | nil =>
      obtain rfl := Option.some.inj h
      exact List.suffix_rfl
  | cons q qs ih =>
      cases t with
      | nil => cases h
      | cons c t =>
          rw [afterAnyCase?] at h
          split at h
          · exact (ih h).trans (List.suffix_cons c t)
          · cases h

theorem afterAnyCase?_concat (word : Text) (d : Char) (t : Text) :
  afterAnyCase? (word ++ [d]) t = (afterAnyCase? word t).bind (afterAnyCase? [d])
  := by
  induction word generalizing t with
  | nil => rfl
  | cons p ps ih =>
      cases t with
      | nil => rfl
      | cons c t =>
          rw [List.cons_append, afterAnyCase?, afterAnyCase?]
          split
          · apply ih
          · rfl

end StylePrune.Text
