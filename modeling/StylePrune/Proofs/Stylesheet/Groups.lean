import StylePrune.Proofs.Stylesheet.LineFeeds

/-!
# Taking out groups

Calls and groups are taken out from the inside, round after round, until a round changes nothing.
Each round that changes the text takes parentheses away, so the rounds come to an end; and a round
that changes nothing has found no group, since what it finds holds parentheses and only line feeds
are left of it (`dropGroups_settles`).
-/

namespace StylePrune.Text.Shape

variable {s : Shape}

/-- Rewriting leaves a text as it is in which the shape finds nothing. -/
theorem replace_of_forall_notMem {t : Text} (h : ∀ x, .found x ∉ s.pieces t) (f : Text → Text) :
  s.replace f t = t
  := by
  symm
  apply replace_related_of_found (R := Eq)
  · exact fun t => rfl
  · rintro t t' u u' rfl rfl
    rfl
  · exact fun x hx => absurd hx (h x)

/-- Where a construct starts behind a text, something is found in the whole: the construct, or one
that reaches into it. -/
theorem Steady.exists_found (hs : s.Steady) (hbefore : ∀ before t, s before t = s none t)
    {t rest : Text} (h : s none t = some rest) (front : Text) :
  ∃ x, .found x ∈ s.pieces (front ++ t)
  := by
  have hstart : ∀ {c u v}, s none (c :: u) = some v → ∃ x, .found x ∈ s.pieces (c :: u) := by
    intro c u v hv
    have hlength := (hs none).2.length_lt (hs none).1 hv
    have hspan : s.span none (c :: u) = u.length - v.length + 1 := by
      rw [span, hv]
      simp only [List.length_cons] at hlength ⊢
      omega
    rw [pieces, piecesAfter_cons_of_span hspan]
    exact ⟨_, List.mem_cons_self⟩
  induction front with
  | nil =>
      cases t with
      | nil =>
          rw [(hs none).1] at h
          cases h
      | cons c t => exact hstart h
  | cons c front ih =>
      cases hc : s none (c :: (front ++ t)) with
      | some v => exact hstart hc
      | none =>
          obtain ⟨x, hx⟩ := ih
          use x
          rw [List.cons_append, pieces, piecesAfter_cons_of_none hc,
            piecesAfter_eq_pieces (hbefore _)]
          exact List.mem_cons_of_mem _ hx

end StylePrune.Text.Shape

namespace StylePrune.Stylesheet

open Text

/-! ### What a round finds -/

/-- What stands between the parentheses of a group. -/
def isGrouped (c : Char) : Bool :=
  c != '(' && c != ')' && c != '\x7b' && c != '\x7d' && c != ';'

/-- Whether a text holds a pair of parentheses with neither parentheses nor braces nor semicolons
between them. -/
def HasGroup (t : Text) : Prop :=
  ∃ front inner back, t = front ++ '(' :: (inner ++ ')' :: back)
    ∧ ∀ c ∈ inner, c ∉ ['(', ')', '\x7b', '\x7d', ';']

theorem isGrouped_iff {c : Char} :
  isGrouped c = true ↔ c ∉ ['(', ')', '\x7b', '\x7d', ';']
  := by
  simp [isGrouped, and_assoc]

theorem afterGroup_eq_some_iff {t rest : Text} :
  afterGroup t = some rest
    ↔ ∃ inner, t = '(' :: (inner ++ ')' :: rest) ∧ ∀ c ∈ inner, isGrouped c = true
  := by
  have hread : afterGroup t = after? ['('] t >>= fun t => after? [')'] (t.dropWhile isGrouped) :=
    rfl
  rw [hread, Option.bind_eq_bind, Option.bind_eq_some_iff]
  constructor
  · rintro ⟨v, ht, hv⟩
    refine ⟨v.takeWhile isGrouped, ?_, fun c hc => List.mem_takeWhile_imp hc⟩
    have hclosing : v.dropWhile isGrouped = ')' :: rest := after?_eq_some_iff.mp hv
    rw [after?_eq_some_iff.mp ht, ← hclosing, List.takeWhile_append_dropWhile]
    rfl
  · rintro ⟨inner, rfl, hinner⟩
    refine ⟨inner ++ ')' :: rest, rfl, ?_⟩
    rw [List.dropWhile_append_of_pos hinner]
    rfl

/-- A call or a group is a group with a name in front of it, or with none. -/
theorem exists_of_callOrGroup {before : Option Char} {t rest : Text}
    (h : callOrGroup before t = some rest) :
  ∃ name inner, t = name ++ '(' :: (inner ++ ')' :: rest)
  := by
  have hname : Takes (fun _ => True) afterName := by
    intro t u hu
    cases t with
    | nil => cases hu
    | cons c t =>
        rw [afterName] at hu
        split at hu
        · obtain rfl := Option.some.inj hu
          exact ⟨c :: t.takeWhile isNameRest, by simp, fun _ _ => trivial⟩
        · cases hu
  have hmember : Takes (fun _ => True) fun t => some ((after? ['.'] t >>= afterName).getD t) :=
    Takes.getD ((Takes.after? (by simp)).bind hname)
  have hpassed : ∀ {u}, afterGroup u = some rest →
      ∃ inner, u = '(' :: (inner ++ ')' :: rest) := by
    intro u hu
    obtain ⟨inner, hinner, -⟩ := afterGroup_eq_some_iff.mp hu
    exact ⟨inner, hinner⟩
  rw [callOrGroup] at h
  split at h
  · next u hu =>
    obtain ⟨x, rfl, -⟩ := hname t u hu
    obtain ⟨y, hy, -⟩ := hmember u _ rfl
    obtain ⟨inner, hinner⟩ := hpassed h
    use x ++ y, inner
    rw [List.append_assoc, ← hinner, ← hy]
  · obtain ⟨inner, hinner⟩ := hpassed h
    exact ⟨[], inner, hinner⟩

/-- What a round finds holds an opening parenthesis. -/
theorem mem_of_found {t x : Text} (h : .found x ∈ callOrGroup.pieces t) :
  '(' ∈ x
  := by
  obtain ⟨before, v, rest, hrest, -, rfl⟩ := Shape.exists_of_found h
  obtain ⟨name, inner, rfl⟩ := exists_of_callOrGroup hrest
  have hsplit : name ++ '(' :: (inner ++ ')' :: rest)
      = name ++ '(' :: (inner ++ [')']) ++ rest := by simp
  rw [hsplit, List.length_append, Nat.add_sub_cancel, List.take_left]
  simp

/-! ### Rounds -/

/-- A round that finds something takes an opening parenthesis away. -/
theorem count_dropInnermost_lt {t x : Text} (hx : .found x ∈ callOrGroup.pieces t) :
  (dropInnermost t).count '(' < t.count '('
  := by
  have hcount : (dropInnermost t).count '(' + (callOrGroup.constructs t).count '('
      = t.count '(' := by
    apply Shape.count_replace
    intro u hmem
    rw [lineFeeds, List.mem_filter] at hmem
    cases hmem.2
  have hpos : 0 < (callOrGroup.constructs t).count '(' := by
    apply List.count_pos_iff.mpr
    exact Shape.mem_constructs_iff.mpr ⟨x, hx, mem_of_found hx⟩
  omega

/-- A round changes the text exactly if it finds something. -/
theorem dropInnermost_ne_iff {t : Text} :
  dropInnermost t ≠ t ↔ ∃ x, .found x ∈ callOrGroup.pieces t
  := by
  constructor
  · intro hne
    by_contra hnone
    exact hne (Shape.replace_of_forall_notMem (not_exists.mp hnone) lineFeeds)
  · rintro ⟨x, hx⟩ heq
    have hlt := count_dropInnermost_lt hx
    rw [heq] at hlt
    exact Nat.lt_irrefl _ hlt

/-- A round that changes nothing leaves no group. -/
theorem not_hasGroup_of_dropInnermost_eq {t : Text} (h : dropInnermost t = t) :
  ¬ HasGroup t
  := by
  rintro ⟨front, inner, back, rfl, hinner⟩
  have hgroup : callOrGroup none ('(' :: (inner ++ ')' :: back)) = some back := by
    apply afterGroup_eq_some_iff.mpr
    exact ⟨inner, rfl, fun c hc => isGrouped_iff.mpr (hinner c hc)⟩
  have hfound := steady_callOrGroup.exists_found (fun _ _ => rfl) hgroup front
  exact dropInnermost_ne_iff.mpr hfound h

/-- Whether each of the first rounds changes the text, as many as given, and the next one does
not. -/
def SettlesAfter (n : Nat) (t : Text) : Prop :=
  (∀ m < n, dropInnermost^[m + 1] t ≠ dropInnermost^[m] t)
    ∧ dropInnermost^[n + 1] t = dropInnermost^[n] t

/-- There are no more rounds that change the text than it has opening parentheses. -/
theorem exists_settlesAfter (t : Text) :
  ∃ n ≤ t.count '(', SettlesAfter n t
  := by
  induction hcount : t.count '(' using Nat.strong_induction_on generalizing t with
  | _ count ih =>
      subst hcount
      by_cases hnext : dropInnermost t = t
      · exact ⟨0, Nat.zero_le _, fun m hm => absurd hm (Nat.not_lt_zero m), hnext⟩
      · obtain ⟨x, hx⟩ := dropInnermost_ne_iff.mp hnext
        have hlt := count_dropInnermost_lt hx
        obtain ⟨n, hn, hchange, hsettled⟩ := ih _ hlt (dropInnermost t) rfl
        use n + 1, Nat.le_trans (Nat.succ_le_succ hn) hlt
        constructor
        · intro m hm
          cases m with
          | zero => exact hnext
          | succ m => exact hchange m (Nat.lt_of_succ_lt_succ hm)
        · exact hsettled

/-- Where the rounds settle they have come to the text without groups. -/
theorem dropGroups_of_settlesAfter {n : Nat} {t : Text} (hn : n ≤ t.length)
    (h : SettlesAfter n t) :
  dropGroups t = dropInnermost^[n] t
  := by
  have hsettled : dropInnermost (dropInnermost^[n] t) = dropInnermost^[n] t := by
    rw [← Function.iterate_succ_apply' dropInnermost]
    exact h.2
  obtain ⟨more, hmore⟩ := Nat.exists_eq_add_of_le' hn
  rw [dropGroups_eq_iterate (Nat.le_refl _), hmore, Function.iterate_add_apply,
    Function.iterate_fixed hsettled]

/-- Taking groups out ends behind the first round that changes nothing, it keeps the line feeds, and
no group is left. -/
theorem dropGroups_settles (t : Text) :
  (∃ n ≤ t.count '(', SettlesAfter n t ∧ dropGroups t = dropInnermost^[n] t)
    ∧ (dropGroups t).count '\n' = t.count '\n'
    ∧ ¬ HasGroup (dropGroups t)
  := by
  obtain ⟨n, hn, hsettles⟩ := exists_settlesAfter t
  have hdrop := dropGroups_of_settlesAfter (Nat.le_trans hn List.count_le_length) hsettles
  refine ⟨⟨n, hn, hsettles, hdrop⟩, count_dropGroups t, ?_⟩
  apply not_hasGroup_of_dropInnermost_eq
  rw [hdrop, ← Function.iterate_succ_apply' dropInnermost]
  exact hsettles.2

end StylePrune.Stylesheet
