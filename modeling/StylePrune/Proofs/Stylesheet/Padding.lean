import StylePrune.Proofs.Stylesheet.Veiling
import StylePrune.Proofs.Text.Padding

/-!
# Noise over padded line ends

Every shape of noise overlooks carriage returns and spaces in front of line feeds, strings only
where no line feed stands in them.  So a padded stylesheet is cleaned and masked as the stylesheet
is, up to pads (`padded_strip`, `padded_mask`).
-/

namespace StylePrune.Stylesheet

open Text

/-! ### Addresses -/

theorem overlooks_afterQuoted {mark : Char} (hmark : mark ≠ '\n' ∧ isPad mark = false)
    (hreturn : mark ≠ '\r') (hspace : mark ≠ ' ') :
  Overlooks (afterQuoted mark)
  := by
  have hpass : (fun c => c != mark && c != '\n') '\r' = true
      ∧ (fun c => c != mark && c != '\n') ' ' = true := by
    constructor
    · simp [Ne.symm hreturn]
    · simp [Ne.symm hspace]
  have hone : ∀ {c : Char}, c ≠ '\n' ∧ isPad c = false → Overlooks (after? [c]) :=
    fun hc => Overlooks.after? (List.forall_mem_singleton.mpr hc)
  exact (hone hmark).bind ((overlooks_upTo hpass hmark).bind (hone (by decide)))

theorem overlooks_urlCall :
  urlCall.Overlooks fun _ => True
  := by
  have hword : Overlooks (afterAnyCase? ['u', 'r', 'l', '(']) :=
    Overlooks.afterAnyCase? (by simp [isPad])
  have hblanks : Overlooks fun t => some (t.dropWhile isBlank) :=
    Overlooks.dropWhile (.inl (by decide))
  have hline : Overlooks fun t => after? [')'] (t.dropWhile fun c => c != ')' && c != '\n') :=
    overlooks_upTo (by decide) (by decide)
  have haddress : Overlooks afterAddress := by
    rw [funext afterAddress_eq]
    exact ((overlooks_afterQuoted (by decide) (by decide) (by decide)).orElse
      (overlooks_afterQuoted (by decide) (by decide) (by decide))).orElse hline
  apply Shape.Overlooks.of_reader (hword.bind (hblanks.bind haddress)) (fun _ _ => rfl)
    (fun _ => rfl) (fun _ => rfl) fun _ => rfl

/-! ### Strings and comments -/

theorem suffix_of_afterString {mark : Char} {t u : Text} (h : afterString mark t = some u) :
  u <:+ t
  := by
  fun_induction afterString mark t with
  | case1 => cases h
  | case2 => cases h
  | case3 c t ih => exact ((ih h).trans (List.suffix_cons c t)).trans (List.suffix_cons '\\' _)
  | case4 t _ _ =>
      obtain rfl := Option.some.inj h
      exact List.suffix_cons _ t
  | case5 => cases h
  | case6 c t _ _ _ _ ih => exact (ih h).trans (List.suffix_cons c t)

theorem afterString_pad {mark b : Char} (hmark : mark = '"' ∨ mark = '\'') (hb : isPad b = true)
    (t : Text) :
  afterString mark (b :: t) = afterString mark t
  := by
  have hne : b ≠ '\\' ∧ b ≠ mark ∧ b ≠ '\n' := by
    rcases eq_of_isPad hb with rfl | rfl
    · rcases hmark with rfl | rfl
      · decide
      · decide
    · rcases hmark with rfl | rfl
      · decide
      · decide
  rw [afterString_cons hne.1, if_neg hne.2.1, if_neg hne.2.2]

theorem afterString_feed {mark : Char} (hmark : mark = '"' ∨ mark = '\'') (t : Text) :
  afterString mark ('\n' :: t) = none
  := by
  have hne : '\n' ≠ mark := by
    rcases hmark with rfl | rfl
    · decide
    · decide
  rw [afterString_cons (by decide), if_neg hne, if_pos rfl]

theorem afterString_padded_feed {mark : Char} (hmark : mark = '"' ∨ mark = '\'') {t u : Text}
    (h : Padded [] ('\n' :: t) u) :
  afterString mark u = none
  := by
  induction u with
  | nil => cases h
  | cons b u ih =>
      cases h with
      | cons _ _ => exact afterString_feed hmark u
      | pad hb _ h =>
          rw [afterString_pad hmark hb]
          exact ih h

/-- A string that holds no line feed has none behind a backslash. -/
theorem afterString_escaped_feed {mark : Char} {t : Text}
    (hline : ∀ x t', '\\' :: '\n' :: t = x ++ t' →
      afterString mark ('\\' :: '\n' :: t) = some t' → '\n' ∉ x) :
  afterString mark ('\\' :: '\n' :: t) = none
  := by
  cases ht : afterString mark ('\\' :: '\n' :: t) with
  | none => rfl
  | some t' =>
      have hread := ht
      rw [afterString] at hread
      obtain ⟨x, hx⟩ := suffix_of_afterString hread
      exact absurd (List.mem_cons_of_mem _ List.mem_cons_self)
        (hline ('\\' :: '\n' :: x) t' (by rw [← hx]; rfl) ht)

/-- A string ends in the same place when line ends are padded, if it holds no line feed. -/
theorem paddedAlike_afterString {mark : Char} (hmark : mark = '"' ∨ mark = '\'') {t u : Text}
    (h : Padded [] t u) (hline : ∀ x t', t = x ++ t' → afterString mark t = some t' → '\n' ∉ x) :
  PaddedAlike t u (afterString mark t) (afterString mark u)
  := by
  induction hn : u.length using Nat.strong_induction_on generalizing t u with
  | _ n ih =>
      subst hn
      cases h with
      | nil => exact .none
      | pad hb hhead h =>
          rw [List.append_nil] at hhead
          rw [afterString_pad hmark hb]
          exact (ih _ (Nat.lt_succ_self _) h hline rfl).pad hb hhead
      | @cons c t u h =>
          by_cases hescape : c = '\\'
          · subst hescape
            cases h with
            | nil => exact .none
            | @cons d t u h =>
                rw [afterString, afterString]
                have hbehind := ih u.length (by simp only [List.length_cons]; omega) h (by
                  intro x t' hx ht hmem
                  apply hline ('\\' :: d :: x) t' (by rw [hx]; rfl) _
                    (List.mem_cons_of_mem _ (List.mem_cons_of_mem d hmem))
                  rw [afterString]
                  exact ht) rfl
                exact (hbehind.cons d).cons '\\'
            | @pad b t u hb hhead h =>
                rw [List.append_nil] at hhead
                -- the backslash takes the pad instead of the line feed, and neither string goes on
                obtain ⟨v, rfl⟩ := List.head?_eq_some_iff.mp hhead
                have hu : afterString mark ('\\' :: b :: u) = none := by
                  rw [afterString]
                  exact afterString_padded_feed hmark h
                rw [afterString_escaped_feed hline, hu]
                exact .none
          · rw [afterString_cons hescape] at hline ⊢
            rw [afterString_cons hescape]
            split
            · exact (PaddedAlike.self h).cons c
            · next hc =>
              split
              · exact .none
              · next hfeed =>
                rw [if_neg hc, if_neg hfeed] at hline
                have hbehind := ih _ (Nat.lt_succ_self _) h (by
                  intro x t' hx ht hmem
                  exact hline (c :: x) t' (by rw [hx]; rfl) ht (List.mem_cons_of_mem c hmem)) rfl
                exact hbehind.cons c

/-- Neither a comment nor a string begins with a line feed or a pad. -/
theorem commentOrString_stop {b : Char} (hb : b = '\n' ∨ isPad b = true) (before : Option Char)
    (t : Text) :
  commentOrString before (b :: t) = none
  := by
  have hne : b ≠ '"' ∧ b ≠ '\'' ∧ b ≠ '/' := by
    rcases hb with rfl | hb
    · decide
    · rcases eq_of_isPad hb with rfl | rfl
      · decide
      · decide
  exact commentOrString_cons_eq_none hne.1 hne.2.1 hne.2.2 before t

/-- A string that holds no line feed is found alike when line ends are padded. -/
theorem paddedAlike_string {mark : Char} (hmark : mark = '"' ∨ mark = '\'') {t u : Text}
    (h : Padded [] t u) {before before' : Option Char}
    (hread : ∀ {o v}, commentOrString o (mark :: v) = afterString mark v)
    (hkind : ∀ x t', mark :: t = x ++ t' → commentOrString before (mark :: t) = some t' →
      '\n' ∉ stringOf (.found x)) :
  PaddedAlike (mark :: t) (mark :: u) (commentOrString before (mark :: t))
    (commentOrString before' (mark :: u))
  := by
  rw [hread] at hkind ⊢
  rw [hread]
  apply (paddedAlike_afterString hmark h _).cons mark
  intro x t' hx ht hmem
  apply hkind (mark :: x) t' (by rw [hx]; rfl) ht
  rw [stringOf, if_pos]
  · exact List.mem_cons_of_mem mark hmem
  · rcases hmark with rfl | rfl
    · exact .inl rfl
    · exact .inr rfl

/-- Comments are found alike when line ends are padded. -/
theorem paddedAlike_slash {t u : Text} (h : Padded [] t u) (before : Option Char) :
  PaddedAlike ('/' :: t) ('/' :: u) (commentOrString before ('/' :: t))
    (commentOrString before ('/' :: u))
  := by
  cases h with
  | nil => exact .none
  | @cons d t u h =>
      by_cases hblock : d = '*'
      · subst hblock
        exact ((Overlooks.afterFirst? (by decide) (by simp [isPad]) t u h).cons '*').cons '/'
      by_cases hline : d = '/'
      · subst hline
        rw [commentOrString_line, commentOrString_line]
        split
        · exact .none
        · exact ((Overlooks.dropWhile (.inl (by decide)) t u h).cons '/').cons '/'
      · rw [commentOrString_slash_eq_none hblock hline, commentOrString_slash_eq_none hblock hline]
        exact .none
  | @pad b t u hb hhead h =>
      rw [List.append_nil] at hhead
      obtain ⟨v, rfl⟩ := List.head?_eq_some_iff.mp hhead
      have hne : b ≠ '*' ∧ b ≠ '/' := by
        rcases eq_of_isPad hb with rfl | rfl
        · decide
        · decide
      rw [commentOrString_slash_eq_none (by decide) (by decide),
        commentOrString_slash_eq_none hne.1 hne.2]
      exact .none

theorem overlooks_commentOrString :
  commentOrString.Overlooks fun x => '\n' ∉ stringOf (.found x)
  := by
  refine ⟨commentOrString_stop, ?_⟩
  intro before before' t u h hbefore hkind
  cases h with
  | nil => exact .none
  | pad hb hhead h =>
      rw [List.append_nil] at hhead
      obtain ⟨v, rfl⟩ := List.head?_eq_some_iff.mp hhead
      rw [commentOrString_stop (.inl rfl), commentOrString_stop (.inr hb)]
      exact .none
  | @cons c t u h =>
      by_cases hdouble : c = '"'
      · subst hdouble
        exact paddedAlike_string (.inl rfl) h rfl hkind
      by_cases hsingle : c = '\''
      · subst hsingle
        exact paddedAlike_string (.inr rfl) h rfl hkind
      by_cases hslash : c = '/'
      · subst hslash
        obtain rfl : before = before' := hbefore fun heq => absurd (Option.some.inj heq) (by decide)
        exact paddedAlike_slash h before
      · rw [commentOrString_cons_eq_none hdouble hsingle hslash,
          commentOrString_cons_eq_none hdouble hsingle hslash]
        exact .none

/-! ### Words -/

theorem overlooks_afterParameters :
  Overlooks fun t => some (afterParameters 0 t)
  := by
  have hparameter : Overlooks afterParameter := by
    have hmark : Overlooks (after? [';']) := Overlooks.after? (by simp [isPad])
    exact hmark.bind (Overlooks.afterSome? (by decide))
  intro t
  induction hn : t.length using Nat.strong_induction_on generalizing t with
  | _ n ih =>
      subst hn
      intro u h
      simp only [afterParameters_zero t, afterParameters_zero u]
      rcases hparameter t u h with ⟨ht, hu⟩ | ⟨x, t', y, u', rfl, rfl, ht, hu, hxy, hleft⟩
      · rw [ht, hu]
        exact .self h
      · have hlt := steady_afterParameter.length_lt rfl ht
        rw [ht, hu]
        rcases ih t'.length hlt t' rfl u' hleft with ⟨hnone, -⟩
          | ⟨x', v, y', w, rfl, rfl, hv, hw, hxy', hleft'⟩
        · cases hnone
        · refine .inr ⟨x ++ x', v, y ++ y', w, ?_, ?_, hv, hw, Padded.append hxy hxy', hleft'⟩
          · rw [List.append_assoc]
          · rw [List.append_assoc]

theorem overlooks_dataAddress :
  dataAddress.Overlooks fun _ => True
  := by
  have hword : Overlooks (afterAnyCase? ['d', 'a', 't', 'a', ':']) :=
    Overlooks.afterAnyCase? (by simp [isPad])
  have hmedia : Overlooks (afterSome? fun c =>
      isWord c || c == '/' || c == '+' || c == '.' || c == '-') := Overlooks.afterSome? (by decide)
  have hcomma : Overlooks (after? [',']) := Overlooks.after? (by simp [isPad])
  have hpayload : Overlooks fun t => some (t.dropWhile isAddressChar) :=
    Overlooks.dropWhile (.inr (by decide))
  have hdata := hword.bind (hmedia.bind ((overlooks_afterParameters.bind hcomma).bind hpayload))
  apply Shape.Overlooks.of_reader hdata (fun _ _ => rfl) (fun _ => rfl) (fun _ => rfl)
    fun _ => rfl

theorem overlooks_namespaceOrLink :
  namespaceOrLink.Overlooks fun _ => True
  := by
  have hxmlns : Overlooks (afterAnyCase? ['x', 'm', 'l', 'n', 's']) :=
    Overlooks.afterAnyCase? (by simp [isPad])
  have hcolon : Overlooks (after? [':']) := Overlooks.after? (by simp [isPad])
  have hname : Overlooks (afterSome? fun c => isWord c || c == '-') :=
    Overlooks.afterSome? (by decide)
  have hequals : Overlooks (after? ['=']) := Overlooks.after? (by simp [isPad])
  have hvalue : Overlooks fun t => some (t.dropWhile fun c => !isBlank c) :=
    Overlooks.dropWhile (.inr (by decide))
  have hhttp : Overlooks (afterAnyCase? ['h', 't', 't', 'p']) :=
    Overlooks.afterAnyCase? (by simp [isPad])
  have hsecure : Overlooks (afterAnyCase? ['s']) := Overlooks.afterAnyCase? (by simp [isPad])
  have hslashes : Overlooks (after? [':', '/', '/']) := Overlooks.after? (by simp [isPad])
  have haddress : Overlooks fun t => some (t.dropWhile isAddressChar) :=
    Overlooks.dropWhile (.inr (by decide))
  have hdeclaration := hxmlns.bind (((hcolon.bind hname).getD.bind hequals).bind hvalue)
  have hlink := hhttp.bind ((hsecure.getD.bind hslashes).bind haddress)
  apply Shape.Overlooks.of_reader (hdeclaration.orElse hlink) (fun _ _ => rfl)
    (fun _ => rfl) (fun _ => rfl) fun _ => rfl

theorem overlooks_interpolation :
  interpolation.Overlooks fun _ => True
  := by
  have hstart : Overlooks (after? ['#', '\x7b']) := Overlooks.after? (by simp [isPad])
  have hend : Overlooks fun t =>
      after? ['\x7d'] (t.dropWhile fun c => c != '\x7b' && c != '\x7d') :=
    overlooks_upTo (by decide) (by decide)
  apply Shape.Overlooks.of_reader (hstart.bind hend) (fun _ _ => rfl)
    (fun _ => rfl) (fun _ => rfl) fun _ => rfl

theorem overlooks_callOrGroup :
  callOrGroup.Overlooks fun _ => True
  := by
  have hname : Overlooks afterName := by
    apply Overlooks.of_cons rfl
    · rintro b (rfl | hb) v
      · rfl
      · rcases eq_of_isPad hb with rfl | rfl
        · rfl
        · rfl
    · intro c t u h
      rw [afterName, afterName]
      split
      · exact (Overlooks.dropWhile (.inr (by decide)) t u h).cons c
      · exact .none
  have hpoint : Overlooks (after? ['.']) := Overlooks.after? (by simp [isPad])
  have hopen : Overlooks (after? ['(']) := Overlooks.after? (by simp [isPad])
  have hclose : Overlooks fun t => after? [')'] (t.dropWhile fun c =>
      c != '(' && c != ')' && c != '\x7b' && c != '\x7d' && c != ';') :=
    overlooks_upTo (by decide) (by decide)
  have hgroup : Overlooks afterGroup := hopen.bind hclose
  apply Shape.Overlooks.of_reader
    ((hname.bind ((hpoint.bind hname).getD.bind hgroup)).orElse hgroup) callOrGroup_eq
    (fun _ => rfl) (fun _ => rfl) fun _ => rfl

/-! ### Padded stylesheets -/

section Stages

variable {rest rest' x y : Text}

theorem lineFeeds_eq (h : Padded rest x y) :
  lineFeeds y = lineFeeds x
  := by
  apply h.filter_eq
  intro b hb
  rcases eq_of_isPad hb with rfl | rfl
  · rfl
  · rfl

theorem padded_lineFeeds (h : Padded rest x y) :
  Padded rest' (lineFeeds x) (lineFeeds y)
  := by
  rw [lineFeeds_eq h]
  exact Padded.refl _

theorem padded_emptied (h : Padded rest x y) (hhead : y.head? = x.head?) :
  Padded rest' (emptied x) (emptied y)
  := by
  have heq : emptied y = emptied x := by
    unfold emptied
    split
    · obtain ⟨v, rfl⟩ := List.head?_eq_some_iff.mp hhead.symm
      rfl
    · obtain ⟨v, rfl⟩ := List.head?_eq_some_iff.mp hhead.symm
      rfl
    · next hdouble hsingle =>
      split
      · obtain ⟨v, rfl⟩ := List.head?_eq_some_iff.mp hhead
        exact absurd rfl (hdouble _)
      · obtain ⟨v, rfl⟩ := List.head?_eq_some_iff.mp hhead
        exact absurd rfl (hsingle _)
      · exact lineFeeds_eq h
  rw [heq]
  exact Padded.refl _

theorem padded_spaced (h : Padded rest x y)
    (hrest : rest.head? = some '\n' → rest'.head? = some '\n') :
  Padded rest' (spaced x) (spaced y)
  := by
  induction h with
  | nil => exact .nil
  | cons c _ ih => exact .cons _ ih
  | @pad b x y hb hhead _ ih =>
      have hspace : spaced (b :: y) = ' ' :: spaced y := by
        rcases eq_of_isPad hb with rfl | rfl
        · rfl
        · rfl
      rw [hspace]
      apply Padded.pad rfl _ ih
      cases x with
      | nil => exact hrest hhead
      | cons c x =>
          obtain rfl : c = '\n' := Option.some.inj hhead
          rfl

end Stages

variable {t u : Text}

/-- Padded texts are padded when calls and groups are taken out. -/
theorem padded_dropGroups (h : Padded [] t u) :
  Padded [] (dropGroups t) (dropGroups u)
  := by
  rw [dropGroups_eq_iterate (Nat.le_max_left t.length u.length),
    dropGroups_eq_iterate (Nat.le_max_right t.length u.length)]
  induction max t.length u.length generalizing t u with
  | zero => exact h
  | succ n ih =>
      rw [Function.iterate_succ_apply, Function.iterate_succ_apply]
      apply ih
      exact overlooks_callOrGroup.padded_replace steady_callOrGroup
        (fun hxy _ _ => padded_lineFeeds hxy) h fun _ _ => trivial

/-- A padded stylesheet is cleaned as the stylesheet is, up to pads, if its strings stand on one
line. -/
theorem padded_strip (h : Padded [] t u) (hstrings : '\n' ∉ stringsIn (withoutAddresses t)) :
  Padded [] (strip t) (strip u)
  := by
  have hconst : ∀ (v : Text) {rest rest' x y : Text}, Padded rest x y → y.head? = x.head? →
      (rest.head? = some '\n' → rest'.head? = some '\n') → Padded rest' v v :=
    fun v _ _ _ _ _ _ _ => Padded.refl v
  have haddress := overlooks_urlCall.padded_replace steady_urlCall (hconst addressLeft) h
    fun _ _ => trivial
  have hemptied := overlooks_commentOrString.padded_replace steady_commentOrString
    (fun hxy hhead _ => padded_emptied hxy hhead) haddress
    fun x hx hmem => hstrings (List.mem_flatMap.mpr ⟨.found x, hx, hmem⟩)
  have hdata := overlooks_dataAddress.padded_replace steady_dataAddress (hconst []) hemptied
    fun _ _ => trivial
  have hwords := overlooks_namespaceOrLink.padded_replace steady_namespaceOrLink (hconst []) hdata
    fun _ _ => trivial
  exact padded_dropGroups (overlooks_interpolation.padded_replace steady_interpolation (hconst [])
    hwords fun _ _ => trivial)

/-- A padded stylesheet is masked as the stylesheet is, up to pads, if its addresses and its strings
stand on one line. -/
theorem padded_mask (h : Padded [] t u) (haddresses : '\n' ∉ urlCall.constructs t)
    (hstrings : '\n' ∉ stringsIn (withoutAddresses t)) :
  Padded [] (mask t) (mask u)
  := by
  have hspaced : ∀ {rest rest' x y : Text}, Padded rest x y → y.head? = x.head? →
      (rest.head? = some '\n' → rest'.head? = some '\n') → Padded rest' (spaced x) (spaced y) :=
    fun hxy _ hrest => padded_spaced hxy hrest
  have halike : EscapeAlike false none none := ⟨Iff.rfl, by rintro ⟨⟩⟩
  have hmasked := (veiledPieces_commentOrString (veiled_urlCall haddresses) halike).lineFeed_notMem
    fun x hx hmem => hstrings (List.mem_flatMap.mpr ⟨.found x, hx, hmem⟩)
  have haddress := overlooks_urlCall.padded_replace steady_urlCall hspaced h fun _ _ => trivial
  have hquoted := overlooks_commentOrString.padded_replace steady_commentOrString hspaced haddress
    hmasked
  have hdata := overlooks_dataAddress.padded_replace steady_dataAddress hspaced hquoted
    fun _ _ => trivial
  have hwords := overlooks_namespaceOrLink.padded_replace steady_namespaceOrLink hspaced hdata
    fun _ _ => trivial
  exact overlooks_interpolation.padded_replace steady_interpolation hspaced hwords
    fun _ _ => trivial

end StylePrune.Stylesheet
