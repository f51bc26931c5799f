import StylePrune.Proofs.Stylesheet.LineFeeds
import StylePrune.Proofs.Text.Thinning

/-!
# Veiled addresses

Cleaning and masking read a stylesheet after its addresses, and masking has written spaces for them
where cleaning has left a few characters.  Comments and strings are read alike in both texts
(`readAlike_commentOrString`), so that what cleaning leaves of them is left of what masking does
(`VeiledPieces.spared`).
-/

namespace StylePrune.Stylesheet

open Text

/-! ### Veiled addresses -/

/-- What cleaning leaves of an address. -/
def addressLeft : Text := ['u', 'r', 'l', '(', ')']

/-- Whether a text is another one in which spaces stand for addresses, or more of them, the flag
saying that what stands before the two is an address and its spaces. -/
inductive Veiled : Bool → Text → Text → Prop
  | nil {flag : Bool} : Veiled flag [] []
  | same {flag : Bool} {t u : Text} (c : Char) : Veiled false t u → Veiled flag (c :: t) (c :: u)
  | veil {flag : Bool} {t u : Text} {c : Char} :
      c ∈ addressLeft → Veiled true t u → Veiled flag (c :: t) (' ' :: u)
  | more {t u : Text} : Veiled true t u → Veiled true t (' ' :: u)

namespace Veiled

variable {flag : Bool} {t u : Text}

theorem length_le (h : Veiled flag t u) :
  t.length ≤ u.length
  := by
  induction h with
  | nil => exact Nat.le_refl _
  | same c _ ih => exact Nat.succ_le_succ ih
  | veil _ _ ih => exact Nat.succ_le_succ ih
  | more _ ih => exact Nat.le_succ_of_le ih

theorem mem_lineFeed_iff (h : Veiled flag t u) :
  '\n' ∈ u ↔ '\n' ∈ t
  := by
  induction h with
  | nil => exact Iff.rfl
  | same c _ ih => rw [List.mem_cons, List.mem_cons, ih]
  | veil hc _ ih =>
      rw [List.mem_cons, List.mem_cons, ih]
      constructor
      · rintro (hspace | h)
        · exact absurd hspace (by decide)
        · exact .inr h
      · rintro (rfl | h)
        · exact absurd hc (by decide)
        · exact .inr h
  | more _ ih =>
      rw [List.mem_cons, ih]
      constructor
      · rintro (hspace | h)
        · exact absurd hspace (by decide)
        · exact h
      · exact .inr

end Veiled

/-- What two readers make of veiled texts: both read nothing, or what they take and what they leave
is veiled. -/
def ReadAlike (flag : Bool) (t u : Text) (o o' : Option Text) : Prop :=
  (o = none ∧ o' = none)
    ∨ ∃ x t' y u', t = x ++ t' ∧ u = y ++ u' ∧ o = some t' ∧ o' = some u'
      ∧ Veiled flag x y ∧ Veiled false t' u'

namespace ReadAlike

variable {flag : Bool} {t u : Text} {o o' : Option Text}

theorem none :
  ReadAlike flag t u .none .none
  := .inl ⟨rfl, rfl⟩

theorem self (h : Veiled false t u) :
  ReadAlike flag t u (some t) (some u)
  := .inr ⟨[], t, [], u, rfl, rfl, rfl, rfl, .nil, h⟩

theorem same (h : ReadAlike false t u o o') (c : Char) :
  ReadAlike flag (c :: t) (c :: u) o o'
  := by
  rcases h with h | ⟨x, t', y, u', rfl, rfl, ho, ho', hxy, hleft⟩
  · exact .inl h
  · exact .inr ⟨c :: x, t', c :: y, u', rfl, rfl, ho, ho', .same c hxy, hleft⟩

theorem veil (h : ReadAlike true t u o o') {c : Char} (hc : c ∈ addressLeft) :
  ReadAlike flag (c :: t) (' ' :: u) o o'
  := by
  rcases h with h | ⟨x, t', y, u', rfl, rfl, ho, ho', hxy, hleft⟩
  · exact .inl h
  · exact .inr ⟨c :: x, t', ' ' :: y, u', rfl, rfl, ho, ho', .veil hc hxy, hleft⟩

theorem more (h : ReadAlike true t u o o') :
  ReadAlike true t (' ' :: u) o o'
  := by
  rcases h with h | ⟨x, t', y, u', rfl, rfl, ho, ho', hxy, hleft⟩
  · exact .inl h
  · exact .inr ⟨x, t', ' ' :: y, u', rfl, rfl, ho, ho', .more hxy, hleft⟩

end ReadAlike

/-- A reader that passes over the characters of an address and over spaces reads veiled texts alike,
if it does so where both start with one character. -/
theorem Veiled.readAlike {p : Text → Option Text} (hnil : p [] = none ∨ p [] = some [])
    (hpass : ∀ c ∈ addressLeft ++ [' '], ∀ v, p (c :: v) = p v)
    (hsame : ∀ (c : Char) {t u : Text}, Veiled false t u →
      (∀ {flag t' u'}, u'.length ≤ u.length → Veiled flag t' u' →
        ReadAlike flag t' u' (p t') (p u')) →
      ∀ flag, ReadAlike flag (c :: t) (c :: u) (p (c :: t)) (p (c :: u)))
    {flag : Bool} {t u : Text} (h : Veiled flag t u) :
  ReadAlike flag t u (p t) (p u)
  := by
  have haddress : ∀ {c}, c ∈ addressLeft → ∀ v, p (c :: v) = p v := by
    intro c hc
    exact hpass c (List.mem_append_left [' '] hc)
  induction hn : u.length using Nat.strong_induction_on generalizing flag t u with
  | _ n ih =>
      subst hn
      cases h with
      | nil =>
          rcases hnil with hnil | hnil
          · rw [hnil]
            exact .none
          · rw [hnil]
            exact .self .nil
      | veil hc h =>
          rw [haddress hc, hpass ' ' (by decide)]
          exact (ih _ (Nat.lt_succ_self _) h rfl).veil hc
      | more h =>
          rw [hpass ' ' (by decide)]
          exact (ih _ (Nat.lt_succ_self _) h rfl).more
      | same c h =>
          exact hsame c h (fun hle h' => ih _ (Nat.lt_succ_of_le hle) h' rfl) flag

/-- A string ends in the same place when addresses are veiled. -/
theorem readAlike_afterString {mark : Char} (hmark : mark = '"' ∨ mark = '\'') {flag : Bool}
    {t u : Text} (h : Veiled flag t u) :
  ReadAlike flag t u (afterString mark t) (afterString mark u)
  := by
  apply h.readAlike (.inl rfl)
  · intro c hc v
    have hne : c ≠ '\\' ∧ c ≠ mark ∧ c ≠ '\n' := by
      rcases hmark with rfl | rfl
      · revert c
        simp [addressLeft]
      · revert c
        simp [addressLeft]
    rw [afterString_cons hne.1, if_neg hne.2.1, if_neg hne.2.2]
  · intro c t u h ih flag
    by_cases hescape : c = '\\'
    · subst hescape
      -- the character behind a backslash is no space that stands for nothing
      cases h with
      | nil => exact .none
      | same d h =>
          rw [afterString, afterString]
          exact ((ih (Nat.le_succ _) h).same d).same '\\'
      | veil hd h =>
          rw [afterString, afterString]
          exact ((ih (Nat.le_succ _) h).veil hd).same '\\'
    · rw [afterString_cons hescape, afterString_cons hescape]
      split
      · exact (ReadAlike.self h).same c
      · split
        · exact .none
        · exact (ih (Nat.le_refl _) h).same c

/-- So does a comment, whose mark no address parts. -/
theorem readAlike_afterFirst? {flag : Bool} {t u : Text} (h : Veiled flag t u) :
  ReadAlike flag t u (afterFirst? ['*', '/'] t) (afterFirst? ['*', '/'] u)
  := by
  have hpass : ∀ {c}, c ≠ '*' → ∀ v,
      afterFirst? ['*', '/'] (c :: v) = afterFirst? ['*', '/'] v := by
    intro c hc v
    rw [afterFirst?, after?, if_neg (Ne.symm hc)]
  have hstar : ∀ {d}, d ≠ '/' → ∀ v,
      afterFirst? ['*', '/'] ('*' :: d :: v) = afterFirst? ['*', '/'] (d :: v) := by
    intro d hd v
    rw [afterFirst?, after?, if_pos rfl, after?, if_neg (Ne.symm hd)]
  apply h.readAlike (.inl rfl)
  · intro c hc
    apply hpass
    rintro rfl
    exact absurd hc (by decide)
  · intro c t u h ih flag
    by_cases hc : c = '*'
    · subst hc
      cases h with
      | nil => exact .none
      | same d h =>
          by_cases hd : d = '/'
          · subst hd
            exact ((ReadAlike.self h).same '/').same '*'
          · rw [hstar hd, hstar hd]
            exact (ih (Nat.le_refl _) (.same d h)).same '*'
      | @veil _ _ _ d hd h =>
          have hne : d ≠ '/' := by
            rintro rfl
            exact absurd hd (by decide)
          rw [hstar hne, hstar (by decide)]
          exact (ih (Nat.le_refl _) (.veil hd h)).same '*'
    · rw [hpass hc, hpass hc]
      exact (ih (Nat.le_refl _) h).same c

/-- So does a line. -/
theorem readAlike_line {flag : Bool} {t u : Text} (h : Veiled flag t u) :
  ReadAlike flag t u (some (t.dropWhile (· != '\n'))) (some (u.dropWhile (· != '\n')))
  := by
  have hpass : ∀ {c : Char}, c ≠ '\n' → ∀ v : Text,
      (c :: v).dropWhile (· != '\n') = v.dropWhile (· != '\n') :=
    fun hc v => List.dropWhile_cons_of_pos (bne_iff_ne.mpr hc)
  apply h.readAlike (p := fun t => some (t.dropWhile (· != '\n'))) (.inr rfl)
  · intro c hc v
    rw [hpass]
    rintro rfl
    exact absurd hc (by decide)
  · intro c t u h ih flag
    by_cases hc : c = '\n'
    · subst hc
      exact .self (.same '\n' h)
    · rw [hpass hc, hpass hc]
      exact (ih (Nat.le_refl _) h).same c

theorem getLast?_cons_or (c : Char) (t : Text) (before : Option Char) :
  (c :: t).getLast?.or before = t.getLast?.or (some c)
  := by
  rw [List.getLast?_cons]
  cases t.getLast? with
  | none => rfl
  | some d => rfl

/-- Whether a line comment does not start behind a character. -/
def Escapes (before : Option Char) : Prop := before = some ':' ∨ before = some '\\'

instance : DecidablePred Escapes := fun before =>
  inferInstanceAs (Decidable (before = some ':' ∨ before = some '\\'))

/-- Whether the characters before two veiled texts are alike for a line comment. -/
def EscapeAlike (flag : Bool) (before before' : Option Char) : Prop :=
  (Escapes before ↔ Escapes before') ∧ (flag = true → ¬ Escapes before)

namespace EscapeAlike

variable {flag : Bool} {before before' : Option Char}

theorem same (c : Char) :
  EscapeAlike false (some c) (some c)
  := ⟨Iff.rfl, by rintro ⟨⟩⟩

theorem veil {c : Char} (hc : c ∈ addressLeft) :
  EscapeAlike true (some c) (some ' ')
  := by
  have hne : c ≠ ':' ∧ c ≠ '\\' := by
    revert c
    simp [addressLeft]
  have hescapes : ¬ Escapes (some c) := by
    rintro (heq | heq)
    · exact hne.1 (Option.some.inj heq)
    · exact hne.2 (Option.some.inj heq)
  exact ⟨iff_of_false hescapes (by decide), fun _ => hescapes⟩

theorem more (h : EscapeAlike true before before') :
  EscapeAlike true before (some ' ')
  := ⟨iff_of_false (h.2 rfl) (by decide), h.2⟩

/-- Behind veiled texts the characters before what follows are alike. -/
theorem behind {t u : Text} (h : EscapeAlike flag before before') (hveiled : Veiled flag t u) :
  EscapeAlike false (t.getLast?.or before) (u.getLast?.or before')
  := by
  induction hveiled generalizing before before' with
  | nil => exact ⟨h.1, by rintro ⟨⟩⟩
  | same c _ ih =>
      rw [getLast?_cons_or, getLast?_cons_or]
      exact ih (same c)
  | veil hc _ ih =>
      rw [getLast?_cons_or, getLast?_cons_or]
      exact ih (veil hc)
  | more _ ih =>
      rw [getLast?_cons_or]
      exact ih h.more

end EscapeAlike

/-- A slash begins a comment only in front of a star or another slash. -/
theorem commentOrString_slash_eq_none {d : Char} (hblock : d ≠ '*') (hline : d ≠ '/')
    (before : Option Char) (t : Text) :
  commentOrString before ('/' :: d :: t) = none
  := by
  unfold commentOrString
  split
  · next heq => cases (List.cons.inj heq).1
  · next heq => cases (List.cons.inj heq).1
  · next heq => exact absurd (List.cons.inj (List.cons.inj heq).2).1 hblock
  · next heq => exact absurd (List.cons.inj (List.cons.inj heq).2).1 hline
  · rfl

theorem commentOrString_line (before : Option Char) (t : Text) :
  commentOrString before ('/' :: '/' :: t)
    = if Escapes before then none else some (t.dropWhile (· != '\n'))
  := by
  change (if (before = some ':' || before = some '\\') = true then none else _) = _
  congr 1
  rw [Bool.or_eq_true, decide_eq_true_iff, decide_eq_true_iff]
  rfl

/-- A comment or a string ends in the same place when addresses are veiled. -/
theorem readAlike_commentOrString {c : Char} {t u : Text} (h : Veiled false t u)
    {before before' : Option Char} (hescapes : Escapes before ↔ Escapes before') :
  ReadAlike false (c :: t) (c :: u) (commentOrString before (c :: t))
    (commentOrString before' (c :: u))
  := by
  by_cases hdouble : c = '"'
  · subst hdouble
    exact (readAlike_afterString (.inl rfl) h).same '"'
  by_cases hsingle : c = '\''
  · subst hsingle
    exact (readAlike_afterString (.inr rfl) h).same '\''
  by_cases hslash : c = '/'
  · subst hslash
    cases h with
    | nil => exact .none
    | same d h =>
        by_cases hblock : d = '*'
        · subst hblock
          exact ((readAlike_afterFirst? h).same '*').same '/'
        by_cases hline : d = '/'
        · subst hline
          rw [commentOrString_line, commentOrString_line]
          by_cases hbefore : Escapes before
          · rw [if_pos hbefore, if_pos (hescapes.mp hbefore)]
            exact .none
          · rw [if_neg hbefore, if_neg (mt hescapes.mpr hbefore)]
            exact ((readAlike_line h).same '/').same '/'
        · rw [commentOrString_slash_eq_none hblock hline,
            commentOrString_slash_eq_none hblock hline]
          exact .none
    | @veil _ _ _ d hd h =>
        have hne : d ≠ '*' ∧ d ≠ '/' := by
          revert d
          simp [addressLeft]
        rw [commentOrString_slash_eq_none hne.1 hne.2,
          commentOrString_slash_eq_none (by decide) (by decide)]
        exact .none
  · rw [commentOrString_cons_eq_none hdouble hsingle hslash,
      commentOrString_cons_eq_none hdouble hsingle hslash]
    exact .none

/-! ### What is left of comments and strings -/

/-- The characters in which cleaning and masking have to agree: the ends of lines and of statements,
and the one with which an interpolation begins. -/
def isJoint (c : Char) : Bool := c == '\n' || c == '#' || endsStatement c

theorem isJoint_spaced {t : Text} (h : '\n' ∉ t) :
  ∀ c ∈ spaced t, isJoint c = false
  := by
  intro c hc
  obtain ⟨d, hd, rfl⟩ := List.mem_map.mp hc
  rw [if_neg (by rintro rfl; exact h hd)]
  rfl

/-- The line feeds of a comment stand where masking leaves them. -/
theorem Veiled.spared_lineFeeds {flag : Bool} {t u : Text} (h : Veiled flag t u) :
  Spared isJoint (spaced u) (lineFeeds t)
  := by
  induction h with
  | nil => exact Spared.refl []
  | veil hc _ ih =>
      have hdrop : ∀ c ∈ addressLeft, ∀ v, lineFeeds (c :: v) = lineFeeds v := by
        intro c hc v
        apply List.filter_cons_of_neg
        revert c
        simp [addressLeft]
      rw [hdrop _ hc]
      exact ih.cons_of_not rfl
  | more _ ih => exact ih.cons_of_not rfl
  | same c _ ih =>
      by_cases hc : c = '\n'
      · subst hc
        exact (Spared.refl ['\n']).append ih
      · have hdrop : ∀ v, lineFeeds (c :: v) = lineFeeds v :=
          fun v => List.filter_cons_of_neg (mt eq_of_beq hc)
        have hspaced : ∀ v, spaced (c :: v) = ' ' :: spaced v := by
          intro v
          rw [spaced, List.map_cons, if_neg hc]
          rfl
        rw [hdrop, hspaced]
        exact ih.cons_of_not rfl

/-- What is left of a comment or a string on one line is left of the spaces that mask it. -/
theorem Veiled.spared_emptied {t u : Text} (h : Veiled false t u) (hlength : 2 ≤ t.length)
    (hstring : '\n' ∉ stringOf (.found t)) :
  Spared isJoint (spaced u) (emptied t)
  := by
  have hquotes : ∀ {c}, t.head? = some c → c = '"' ∨ c = '\'' →
      Spared isJoint (spaced u) [c, c] := by
    intro c hhead hc
    have hquote : ∀ d ∈ [c, c], isJoint d = false := by
      have hplain : isJoint c = false := by rcases hc with rfl | rfl <;> rfl
      exact List.forall_mem_cons.mpr ⟨hplain, List.forall_mem_singleton.mpr hplain⟩
    have hfeed : '\n' ∉ u := by
      rw [h.mem_lineFeed_iff]
      rw [stringOf, if_pos] at hstring
      · exact hstring
      · rcases hc with rfl | rfl
        · exact .inl hhead
        · exact .inr hhead
    apply Spared.of_forall_not (isJoint_spaced hfeed) hquote
    rw [spaced, List.length_map]
    exact Nat.le_trans hlength h.length_le
  unfold emptied
  split
  · exact hquotes rfl (.inl rfl)
  · exact hquotes rfl (.inr rfl)
  · exact h.spared_lineFeeds

theorem length_of_commentOrString {before : Option Char} {t u : Text}
    (h : commentOrString before t = some u) :
  u.length + 2 ≤ t.length
  := by
  unfold commentOrString at h
  split at h
  · exact Nat.succ_le_succ (length_lt_of_afterString h)
  · exact Nat.succ_le_succ (length_lt_of_afterString h)
  · have hlength := (steady_afterFirst? ['*', '/'] (by decide)).length_lt rfl h
    simp only [List.length_cons]
    omega
  · split at h
    · cases h
    · obtain rfl := Option.some.inj h
      exact Nat.succ_le_succ (Nat.succ_le_succ (List.dropWhile_suffix _).length_le)
  · cases h

/-- Whether the pieces of two veiled texts stand side by side: characters that are alike, spaces for
the characters of an address and more of them, and veiled constructs. -/
inductive VeiledPieces : List Piece → List Piece → Prop
  | nil : VeiledPieces [] []
  | same (c : Char) {ps qs : List Piece} :
      VeiledPieces ps qs → VeiledPieces (.plain c :: ps) (.plain c :: qs)
  | veil {c : Char} {ps qs : List Piece} :
      c ∈ addressLeft → VeiledPieces ps qs → VeiledPieces (.plain c :: ps) (.plain ' ' :: qs)
  | more {ps qs : List Piece} : VeiledPieces ps qs → VeiledPieces ps (.plain ' ' :: qs)
  | found {x y : Text} {ps qs : List Piece} :
      Veiled false x y → 2 ≤ x.length → VeiledPieces ps qs →
      VeiledPieces (.found x :: ps) (.found y :: qs)

theorem veiledPieces_commentOrString {t u : Text} {flag : Bool} (h : Veiled flag t u)
    {before before' : Option Char} (halike : EscapeAlike flag before before') :
  VeiledPieces (commentOrString.piecesAfter 0 before t) (commentOrString.piecesAfter 0 before' u)
  := by
  have haddress : ∀ {c}, c ∈ addressLeft → ∀ before v, commentOrString before (c :: v) = none := by
    intro c hc
    have hne : c ≠ '"' ∧ c ≠ '\'' ∧ c ≠ '/' := by
      revert c
      simp [addressLeft]
    exact commentOrString_cons_eq_none hne.1 hne.2.1 hne.2.2
  have hspace : ∀ before v, commentOrString before (' ' :: v) = none :=
    commentOrString_cons_eq_none (by decide) (by decide) (by decide)
  -- by the length of the text, since a construct is passed at once
  induction hn : u.length using Nat.strong_induction_on generalizing flag t u before before' with
  | _ n ih =>
      subst hn
      cases h with
      | nil => exact .nil
      | veil hc h =>
          rw [Shape.piecesAfter_cons_of_none (haddress hc _ _),
            Shape.piecesAfter_cons_of_none (hspace _ _)]
          exact .veil hc (ih _ (Nat.lt_succ_self _) h (EscapeAlike.veil hc) rfl)
      | more h =>
          rw [Shape.piecesAfter_cons_of_none (hspace _ _)]
          exact .more (ih _ (Nat.lt_succ_self _) h halike.more rfl)
      | same c h =>
          rcases readAlike_commentOrString h halike.1 with ⟨ht, hu⟩
            | ⟨x, t', y, u', hx, hy, ht, hu, hxy, hleft⟩
          · rw [Shape.piecesAfter_cons_of_none ht, Shape.piecesAfter_cons_of_none hu]
            exact .same c (ih _ (Nat.lt_succ_self _) h (EscapeAlike.same c) rfl)
          · have hlength := length_of_commentOrString ht
            have hlength' := length_of_commentOrString hu
            rw [hx] at ht hlength ⊢
            rw [hy] at hu hlength' ih ⊢
            rw [List.length_append] at hlength hlength'
            have hxne := steady_commentOrString.ne_nil ht
            have hyne := steady_commentOrString.ne_nil hu
            have halike' : EscapeAlike false x.getLast? y.getLast? := by
              have hbehind := (EscapeAlike.same c).behind hxy
              rwa [List.getLast?_eq_some_getLast hxne, List.getLast?_eq_some_getLast hyne]
                at hbehind ⊢
            rw [Shape.piecesAfter_append_of_construct hxne ht,
              Shape.piecesAfter_append_of_construct hyne hu]
            apply VeiledPieces.found hxy (by omega)
            exact ih u'.length (by rw [List.length_append]; omega) hleft halike' rfl

namespace VeiledPieces

variable {ps qs : List Piece}

/-- What is left of the pieces of a text is left of those that mask them, if its strings stand on
one line. -/
theorem spared (h : VeiledPieces ps qs)
    (hstrings : ∀ x, .found x ∈ ps → '\n' ∉ stringOf (.found x)) :
  Spared isJoint (qs.flatMap (·.render spaced)) (ps.flatMap (·.render emptied))
  := by
  induction h with
  | nil => exact Spared.refl []
  | same c _ ih =>
      exact (Spared.refl [c]).append (ih fun x hx => hstrings x (List.mem_cons_of_mem _ hx))
  | @veil c _ _ hc _ ih =>
      have hplain : ∀ d ∈ [c], isJoint d = false := by
        refine List.forall_mem_singleton.mpr ?_
        simp only [addressLeft, List.mem_cons, List.not_mem_nil, or_false] at hc
        rcases hc with rfl | rfl | rfl | rfl | rfl <;> rfl
      have hspace : ∀ d ∈ [' '], isJoint d = false := List.forall_mem_singleton.mpr rfl
      have hchar : Spared isJoint [' '] [c] := Spared.of_forall_not hspace hplain (Nat.le_refl _)
      exact hchar.append (ih fun x hx => hstrings x (List.mem_cons_of_mem _ hx))
  | more _ ih => exact (ih hstrings).cons_of_not rfl
  | @found x _ _ _ hxy hlength _ ih =>
      exact (hxy.spared_emptied hlength (hstrings x List.mem_cons_self)).append
        (ih fun v hv => hstrings v (List.mem_cons_of_mem _ hv))

/-- Then the strings that mask them stand on one line. -/
theorem lineFeed_notMem (h : VeiledPieces ps qs)
    (hstrings : ∀ x, .found x ∈ ps → '\n' ∉ stringOf (.found x)) :
  ∀ y, .found y ∈ qs → '\n' ∉ stringOf (.found y)
  := by
  induction h with
  | nil => exact fun y hy => absurd hy List.not_mem_nil
  | same c _ ih =>
      intro y hy
      exact ih (fun x hx => hstrings x (List.mem_cons_of_mem _ hx)) y
        ((List.mem_cons.mp hy).resolve_left (by rintro ⟨⟩))
  | veil _ _ ih =>
      intro y hy
      exact ih (fun x hx => hstrings x (List.mem_cons_of_mem _ hx)) y
        ((List.mem_cons.mp hy).resolve_left (by rintro ⟨⟩))
  | more _ ih =>
      intro y hy
      exact ih hstrings y ((List.mem_cons.mp hy).resolve_left (by rintro ⟨⟩))
  | @found x y _ _ hxy _ _ ih =>
      intro v hv
      rcases List.mem_cons.mp hv with heq | hv
      · obtain rfl := Piece.found.inj heq
        have hx := hstrings x List.mem_cons_self
        rw [stringOf]
        split
        · next hquote =>
          rw [hxy.mem_lineFeed_iff]
          have hhead : x.head? = some '"' ∨ x.head? = some '\'' := by
            cases hxy with
            | nil => exact hquote
            | same c _ => exact hquote
            | veil _ _ =>
                rcases hquote with hquote | hquote
                · exact absurd (Option.some.inj hquote) (by decide)
                · exact absurd (Option.some.inj hquote) (by decide)
          rwa [stringOf, if_pos hhead] at hx
        · exact List.not_mem_nil
      · exact ih (fun x hx => hstrings x (List.mem_cons_of_mem _ hx)) v hv

end VeiledPieces

/-! ### Addresses -/

theorem length_of_afterAnyCase? {word t u : Text} (h : afterAnyCase? word t = some u) :
  u.length + word.length = t.length
  := by
  induction word generalizing t u with
  | nil =>
      obtain rfl := Option.some.inj h
      rfl
  | cons p ps ih =>
      cases t with
      | nil => cases h
      | cons c t =>
          rw [afterAnyCase?] at h
          split at h
          · rw [List.length_cons, List.length_cons, ← ih h]
            rfl
          · cases h

theorem length_of_urlCall {before : Option Char} {t u : Text} (h : urlCall before t = some u) :
  u.length + 5 ≤ t.length
  := by
  obtain ⟨v, hv, hu⟩ := Option.bind_eq_some_iff.mp h
  have haddress := steady_afterAddress.length_lt rfl hu
  have hblanks := (List.dropWhile_suffix (l := v) isBlank).length_le
  have hlength := length_of_afterAnyCase? hv
  simp only [List.length_cons, List.length_nil] at hlength
  omega

/-- Where addresses stand on one line, masking veils what cleaning leaves of them. -/
theorem veiled_urlCall {t : Text} (h : '\n' ∉ urlCall.constructs t) :
  Veiled false (withoutAddresses t) (urlCall.replace spaced t)
  := by
  have hfound : ∀ x, .found x ∈ urlCall.pieces t →
      spaced x = List.replicate x.length ' ' ∧ 5 ≤ x.length := by
    intro x hx
    constructor
    · apply List.eq_replicate_iff.mpr
      refine ⟨List.length_map _, ?_⟩
      intro c hc
      obtain ⟨d, hd, rfl⟩ := List.mem_map.mp hc
      apply if_neg
      rintro rfl
      exact h (Shape.mem_constructs_iff.mpr ⟨x, hx, hd⟩)
    · obtain ⟨before, v, rest, hrest, -, rfl⟩ := Shape.exists_of_found hx
      have hlength := length_of_urlCall hrest
      rw [List.length_take]
      omega
  have hpieces : ∀ (ps : List Piece) flag,
      (∀ x, .found x ∈ ps → spaced x = List.replicate x.length ' ' ∧ 5 ≤ x.length) →
      Veiled flag (ps.flatMap (·.render fun _ => addressLeft)) (ps.flatMap (·.render spaced)) := by
    intro ps
    induction ps with
    | nil => exact fun flag _ => .nil
    | cons p ps ih =>
        intro flag hps
        have hrest := fun flag => ih flag fun x hx => hps x (List.mem_cons_of_mem p hx)
        cases p with
        | plain c => exact .same c (hrest false)
        | found x =>
            obtain ⟨hspaced, hlength⟩ := hps x List.mem_cons_self
            obtain ⟨k, hk⟩ := Nat.exists_eq_add_of_le' hlength
            have hmore : ∀ k, Veiled true (ps.flatMap (·.render fun _ => addressLeft))
                (List.replicate k ' ' ++ ps.flatMap (·.render spaced)) := by
              intro k
              induction k with
              | zero => exact hrest true
              | succ k ihk => exact .more ihk
            rw [List.flatMap_cons, List.flatMap_cons, Piece.render, Piece.render, hspaced, hk]
            exact .veil (by decide) (.veil (by decide) (.veil (by decide)
              (.veil (by decide) (.veil (by decide) (hmore k)))))
  exact hpieces (urlCall.pieces t) false hfound

end StylePrune.Stylesheet
