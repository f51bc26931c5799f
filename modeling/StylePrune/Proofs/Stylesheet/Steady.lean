import StylePrune.Proofs.Stylesheet.Plain
import StylePrune.Proofs.Stylesheet.Tidy
import StylePrune.Proofs.Text.Steady

/-!
# Noise is read steadily

Every shape of noise is steady, and so are attribute tests: what is found in a stylesheet is found
in every part of it that the construct does not reach out of.
-/

namespace StylePrune.Stylesheet

open Text

/-! ### Addresses, strings and comments -/

/-- A quoted address, with the parenthesis behind it. -/
def afterQuoted (mark : Char) (t : Text) : Option Text :=
  after? [mark] t >>= fun t => afterPlainQuote mark t >>= after? [')']

theorem steady_afterQuoted (mark : Char) :
  Steady (afterQuoted mark) fun _ => False
  := by
  have hquote : Steady (fun t => afterPlainQuote mark t >>= after? [')']) fun _ => False := by
    apply (steady_upTo _ mark).bind (steady_after? [')'])
    · rintro t ⟨⟩
    · rintro u ⟨⟩
  apply hquote.behind
  rintro u ⟨⟩

theorem afterAddress_eq (t : Text) :
  afterAddress t = ((afterQuoted '"' t <|> afterQuoted '\'' t)
    <|> after? [')'] (t.dropWhile fun c => c != ')' && c != '\n'))
  := by
  unfold afterAddress
  split
  · simp [afterQuoted, after?]
  · simp [afterQuoted, after?]
  · next hdouble hsingle =>
    have hquoted : ∀ mark, (∀ rest, t = mark :: rest → False) → afterQuoted mark t = none := by
      intro mark hmark
      cases t with
      | nil => rfl
      | cons c t =>
          have hc : mark ≠ c := by
            rintro rfl
            exact hmark t rfl
          rw [afterQuoted, after?, if_neg hc]
          rfl
    rw [hquoted '"' hdouble, hquoted '\'' hsingle]
    rfl

theorem steady_afterAddress :
  Steady afterAddress fun _ => True
  := by
  rw [funext afterAddress_eq]
  exact ((steady_afterQuoted '"').orElse (steady_afterQuoted '\'')).orElse (steady_upTo _ ')')

theorem steady_urlCall :
  urlCall.Steady
  := by
  intro before
  have haddress : Steady (fun t => afterAddress (t.dropWhile isBlank)) fun _ => True := by
    apply (steady_dropWhile isBlank).bind steady_afterAddress
    · rintro t rfl
      rfl
    · rintro u ⟨⟩
  refine ⟨rfl, haddress.behindWord ?_ _⟩
  rintro u ⟨⟩

theorem length_lt_of_afterString {mark : Char} {t u : Text} (h : afterString mark t = some u) :
  u.length < t.length
  := by
  fun_induction afterString mark t with
  | case1 => cases h
  | case2 => cases h
  | case3 d t ih =>
      have hu := ih h
      simp only [List.length_cons]
      omega
  | case4 t =>
      obtain rfl := Option.some.inj h
      exact Nat.lt_succ_self _
  | case5 => cases h
  | case6 c t _ _ _ _ ih => exact Nat.lt_succ_of_lt (ih h)

/-- A string is read steadily; a backslash where the start of a text ends takes the first character
behind it. -/
theorem steady_afterString (mark : Char) :
  Steady (afterString mark) fun _ => True
  := by
  intro t rest
  fun_induction afterString mark t with
  | case1 => exact steadyAt_nil rfl fun u => length_lt_of_afterString
  | case2 =>
      cases rest with
      | nil => exact .inl rfl
      | cons d rest =>
          cases hrest : afterString mark rest with
          | none => exact .inl hrest
          | some u =>
              refine .inr ⟨⟨u, hrest, ?_⟩, fun _ _ => trivial⟩
              exact Nat.lt_succ_of_lt (length_lt_of_afterString hrest)
  | case3 d t ih => exact ih
  | case4 t hlast hpair =>
      have hc := afterString_cons (ne_of_no_escape hlast hpair) mark
      left
      rw [List.cons_append, hc, hc, if_pos rfl, if_pos rfl]
      rfl
  | case5 t hlast hpair hmark =>
      have hc := afterString_cons (c := '\n') (by decide) mark
      left
      rw [List.cons_append, hc, hc, if_neg hmark, if_pos rfl, if_neg hmark, if_pos rfl]
      rfl
  | case6 c t hlast hpair hmark hline ih =>
      have hc : ∀ u, afterString mark (c :: u) = afterString mark u := by
        intro u
        rw [afterString_cons (ne_of_no_escape hlast hpair), if_neg hmark, if_neg hline]
      rw [SteadyAt, List.cons_append, hc, hc]
      exact ih

theorem after?_eq_none {ps t : Text} (h : ∀ rest, t = ps ++ rest → False) :
  after? ps t = none
  := by
  cases hafter : after? ps t with
  | none => rfl
  | some rest => exact (h rest (after?_eq_some_iff.mp hafter)).elim

theorem commentOrString_eq (before : Option Char) (t : Text) :
  commentOrString before t
    = (((after? ['"'] t >>= afterString '"') <|> (after? ['\''] t >>= afterString '\''))
      <|> (after? ['/', '*'] t >>= afterFirst? ['*', '/'])
      <|> (if before = some ':' ∨ before = some '\\' then none
        else after? ['/', '/'] t >>= fun t => some (t.dropWhile (· != '\n'))))
  := by
  unfold commentOrString
  split
  · simp [after?]
  · simp [after?]
  · simp [after?]
  · simp [after?]
  · next hdouble hsingle hblock hline =>
    rw [@after?_eq_none ['"'] t hdouble, @after?_eq_none ['\''] t hsingle,
      @after?_eq_none ['/', '*'] t hblock, @after?_eq_none ['/', '/'] t hline]
    simp

theorem steady_commentOrString :
  commentOrString.Steady
  := by
  intro before
  have hstring : ∀ mark, Steady (fun t => after? [mark] t >>= afterString mark) fun _ => True := by
    intro mark
    apply (steady_afterString mark).behind
    rintro u ⟨⟩
  have hblock : Steady (fun t => after? ['/', '*'] t >>= afterFirst? ['*', '/']) fun _ => True := by
    apply (steady_afterFirst? _ (by decide)).behind
    rintro u ⟨⟩
  have hline : Steady (fun t => if before = some ':' ∨ before = some '\\' then none
      else after? ['/', '/'] t >>= fun t => some (t.dropWhile (· != '\n'))) (· = []) := by
    split
    · exact fun t rest => .inl rfl
    · apply (steady_dropWhile _).behind
      rintro u ⟨⟩
      rfl
  refine ⟨rfl, ?_⟩
  rw [funext (commentOrString_eq before)]
  exact ((hstring '"').orElse (hstring '\'')).orElse (hblock.orElse hline)

/-! ### Words -/

theorem afterParameters_eq_drop (skip : Nat) (t : Text) :
  afterParameters skip t = afterParameters 0 (t.drop skip)
  := by
  induction t generalizing skip with
  | nil => cases skip <;> rfl
  | cons c t ih =>
      cases skip with
      | zero => rfl
      | succ skip => exact ih skip

/-- A parameter of embedded data, with its semicolon. -/
def afterParameter (t : Text) : Option Text := after? [';'] t >>= afterSome? isParameterChar

/-- Reading the parameters is reading one of them after the other. -/
theorem afterParameters_zero (t : Text) :
  afterParameters 0 t = (afterParameter t).elim t (afterParameters 0)
  := by
  have hdrop : ∀ u : Text, u.drop (u.takeWhile isParameterChar).length
      = u.dropWhile isParameterChar := by
    intro u
    have hleft := @List.drop_left _ (u.takeWhile isParameterChar) (u.dropWhile isParameterChar)
    rwa [List.takeWhile_append_dropWhile] at hleft
  cases t with
  | nil => rfl
  | cons c t =>
      rw [afterParameters]
      split
      · next hc =>
        cases t with
        | nil => simp [afterParameter, after?, hc, afterSome?]
        | cons d t =>
            by_cases hd : isParameterChar d = true
            · have htake : (d :: t).takeWhile isParameterChar
                  = d :: t.takeWhile isParameterChar := List.takeWhile_cons_of_pos hd
              simp [afterParameter, after?, hc, afterSome?, hd, htake, afterParameters, hdrop,
                afterParameters_eq_drop _ t]
            · simp [afterParameter, after?, hc, afterSome?, hd]
      · next hc => simp [afterParameter, after?, Ne.symm hc]

theorem steady_afterParameter :
  Steady afterParameter (· = [])
  := by
  apply (steady_afterSome? isParameterChar).behind
  rintro u ⟨⟩

theorem steady_afterParameters :
  Steady (fun t => some (afterParameters 0 t)) fun t => after? [','] t = none
  := by
  intro t
  induction hn : t.length using Nat.strong_induction_on generalizing t with
  | _ n ih =>
      intro rest
      subst hn
      rw [SteadyAt, afterParameters_zero t, afterParameters_zero (t ++ rest)]
      rcases steady_afterParameter t rest with hsame | ⟨⟨u, hu, hlength⟩, halone⟩
      · rw [hsame]
        cases hp : afterParameter t with
        | none => exact .inl rfl
        | some u =>
            have hu := steady_afterParameter.length_lt rfl hp
            exact ih u.length hu u rfl rest
      · right
        rw [hu]
        have hrest := (suffix_afterParameters 0 u).length_le
        refine ⟨⟨_, rfl, Nat.lt_of_le_of_lt hrest hlength⟩, ?_⟩
        rintro v ⟨⟩
        cases hp : afterParameter t with
        | none => exact after?_eq_none_of_bind (by decide) hu
        | some w =>
            obtain rfl := halone w hp
            rfl

theorem steady_dataAddress :
  dataAddress.Steady
  := by
  intro before
  have hpayload : Steady (fun t => after? [','] (afterParameters 0 t)
      >>= fun t => some (t.dropWhile isAddressChar)) (· = []) := by
    have hcomma : Steady (fun t => after? [','] (afterParameters 0 t)) fun _ => False := by
      apply steady_afterParameters.bind (steady_after? [','])
      · exact fun t ht => ht
      · rintro u ⟨⟩
    apply hcomma.bind (steady_dropWhile isAddressChar)
    · rintro t ⟨⟩
    · rintro u ⟨⟩
      rfl
  have hmedia : Steady (fun t => afterSome?
      (fun c => isWord c || c == '/' || c == '+' || c == '.' || c == '-') t >>= fun t =>
        after? [','] (afterParameters 0 t) >>= fun t => some (t.dropWhile isAddressChar))
      (· = []) := by
    apply (steady_afterSome? _).bind hpayload
    · rintro t rfl
      rfl
    · rintro u ⟨⟩
  exact ⟨rfl, (hmedia.behindWord (by rintro u ⟨⟩) _).weaken⟩

theorem steady_declaration :
  Steady (fun t => afterAnyCase? ['x', 'm', 'l', 'n', 's'] t >>= fun t =>
    after? ['='] ((after? [':'] t >>= afterSome? fun c => isWord c || c == '-').getD t) >>= fun t =>
      some (t.dropWhile fun c => !isBlank c)) (· = [])
  := by
  have hnamed : Steady (fun t => after? [':'] t >>= afterSome? fun c => isWord c || c == '-')
      (· = []) := by
    apply (steady_afterSome? _).behind
    rintro u ⟨⟩
  have hpassed : Steady (fun t => some ((after? [':'] t
      >>= afterSome? fun c => isWord c || c == '-').getD t)) fun t => after? ['='] t = none := by
    apply hnamed.getD
    · rintro t rfl
      rfl
    · intro t rest u hu _
      exact after?_eq_none_of_bind (by decide) hu
  have hequals : Steady (fun t => after? ['='] ((after? [':'] t
      >>= afterSome? fun c => isWord c || c == '-').getD t)) fun _ => False := by
    apply hpassed.bind (steady_after? ['='])
    · exact fun t ht => ht
    · rintro u ⟨⟩
  have hvalue := hequals.bind (steady_dropWhile fun c => !isBlank c) (by rintro t ⟨⟩)
    (by rintro u ⟨⟩; rfl)
  apply hvalue.behindWord
  rintro u ⟨⟩

theorem steady_link :
  Steady (fun t => afterAnyCase? ['h', 't', 't', 'p'] t >>= fun t =>
    after? [':', '/', '/'] ((afterAnyCase? ['s'] t).getD t) >>= fun t =>
      some (t.dropWhile isAddressChar)) (· = [])
  := by
  have hpassed : Steady (fun t => some ((afterAnyCase? ['s'] t).getD t))
      fun t => after? [':', '/', '/'] t = none := by
    apply (steady_afterAnyCase? ['s']).getD
    · rintro t ⟨⟩
    · intro t rest u hu hnone
      cases t with
      | nil => rfl
      | cons c t =>
          rw [List.cons_append, afterAnyCase?] at hu
          rw [afterAnyCase?] at hnone
          split at hu
          · next hc => rw [if_pos hc] at hnone; cases hnone
          · cases hu
  have hslashes := hpassed.bind (steady_after? [':', '/', '/']) (fun t ht => ht) (by rintro u ⟨⟩)
  have haddress := hslashes.bind (steady_dropWhile isAddressChar) (by rintro t ⟨⟩)
    (by rintro u ⟨⟩; rfl)
  apply haddress.behindWord
  rintro u ⟨⟩

theorem steady_namespaceOrLink :
  namespaceOrLink.Steady
  := fun _ => ⟨rfl, steady_declaration.orElse steady_link⟩

theorem steady_interpolation :
  interpolation.Steady
  := by
  intro before
  exact ⟨rfl, ((steady_upTo _ '\x7d').behind (by rintro u ⟨⟩) _).weaken⟩

/-! ### Groups and attribute tests -/

theorem steady_afterName :
  Steady afterName (· = [])
  := steady_consDropWhile isNameStart isNameRest rfl fun _ _ => rfl

theorem steady_afterGroup :
  Steady afterGroup fun _ => False
  := by
  apply (steady_upTo _ ')').behind
  rintro u ⟨⟩

theorem callOrGroup_eq (before : Option Char) (t : Text) :
  callOrGroup before t
    = ((afterName t >>= fun t => afterGroup ((after? ['.'] t >>= afterName).getD t))
      <|> afterGroup t)
  := by
  rw [callOrGroup]
  cases hname : afterName t with
  | none => rfl
  | some rest =>
      have hgroup : afterGroup t = none := by
        cases t with
        | nil => rfl
        | cons c t =>
            rw [afterName] at hname
            split at hname
            · next hc =>
              have hne : '(' ≠ c := by
                rintro rfl
                cases hc
              rw [afterGroup, after?, if_neg hne]
              rfl
            · cases hname
      simp [hgroup]

theorem steady_callOrGroup :
  callOrGroup.Steady
  := by
  intro before
  have hmember : Steady (fun t => after? ['.'] t >>= afterName) (· = []) := by
    apply steady_afterName.behind
    rintro u ⟨⟩
  have hpassed : Steady (fun t => some ((after? ['.'] t >>= afterName).getD t))
      fun t => after? ['('] t = none := by
    apply hmember.getD
    · rintro t rfl
      rfl
    · intro t rest u hu _
      exact after?_eq_none_of_bind (by decide) hu
  have hgroup : Steady (fun t => afterGroup ((after? ['.'] t >>= afterName).getD t))
      fun _ => False := by
    apply hpassed.bind steady_afterGroup
    · intro t ht
      rw [afterGroup, ht]
      rfl
    · rintro u ⟨⟩
  have hcall := steady_afterName.bind hgroup (by rintro t rfl; rfl) (by rintro u ⟨⟩)
  refine ⟨rfl, ?_⟩
  rw [funext (callOrGroup_eq before)]
  exact hcall.orElse steady_afterGroup

theorem steady_attributeTest :
  attributeTest.Steady
  := by
  intro before
  have heq : attributeTest before = fun t => after? ['['] t >>= fun t =>
      after? [']'] (t.dropWhile (· != ']')) := by
    funext t
    unfold attributeTest
    split
    · simp [after?]
    · next h => rw [@after?_eq_none ['['] t h]; rfl
  refine ⟨rfl, ?_⟩
  rw [heq]
  exact ((steady_upTo _ ']').behind (by rintro u ⟨⟩) _).weaken

end StylePrune.Stylesheet
