import StylePrune.Proofs.Stylesheet.Layout
import StylePrune.Proofs.Stylesheet.Padding
import StylePrune.Proofs.Text.LineEnds

/-!
# Line ends of stylesheets

Who looks for class names makes the line ends of a stylesheet one, and who removes them leaves the
line ends as they are.  Pads in front of line feeds change no statement but for blanks
(`solids_statementsOf_of_padded`), and a carriage return that stands alone may be a line feed as
well, if it stands in no noise (`indifferent_strip`) and at the ends of a statement only
(`solids_statementsOf_fed`).
-/

namespace StylePrune.Stylesheet

open Text

/-! ### Pads behind statements -/

/-- What is written behind a line is written behind its last piece, if the guide ends no statement
there. -/
theorem cutAlong_append {guide t guide' t' : Text} (hlength : guide.length = t.length)
    (h : ∀ c ∈ guide', endsStatement c = false) (hlength' : guide'.length = t'.length) :
  ∃ ps p, cutAlong guide t = ps ++ [p]
    ∧ cutAlong (guide ++ guide') (t ++ t') = ps ++ [p ++ t']
  := by
  induction guide generalizing t with
  | nil =>
      obtain rfl := List.length_eq_zero_iff.mp hlength.symm
      exact ⟨[], [], rfl, cutAlong_of_forall_not h hlength'⟩
  | cons g guide ih =>
      obtain ⟨c, t, rfl⟩ := List.exists_cons_of_length_eq_add_one hlength.symm
      obtain ⟨ps, p, hp, hpp⟩ := ih (Nat.succ.inj hlength)
      rw [List.cons_append, List.cons_append, cutAlong, cutAlong, hp, hpp]
      split
      · exact ⟨[c] :: ps, p, rfl, rfl⟩
      · cases ps with
        | nil => exact ⟨[], c :: p, rfl, rfl⟩
        | cons q ps => exact ⟨(c :: q) :: ps, p, rfl, rfl⟩

theorem endsStatement_of_isPad {b : Char} (h : isPad b = true) :
  endsStatement b = false
  := by
  rcases eq_of_isPad h with rfl | rfl
  · rfl
  · rfl

theorem tailed_cut {l m : Text} (h : Tailed l m) :
  List.Forall₂ Tailed (cut l) (cut m)
  := by
  obtain ⟨pads, hpads, rfl⟩ := h
  obtain ⟨ps, p, hp, hpp⟩ := @cutAlong_append l l pads pads rfl
    (fun b hb => endsStatement_of_isPad (hpads b hb)) rfl
  rw [cut, cut, hp, hpp]
  apply List.rel_append
  · exact List.forall₂_same.mpr fun q _ => .refl q
  · exact .cons ⟨pads, hpads, rfl⟩ .nil

theorem solids_cons_congr {p q : Text} {ps qs : List Text} (hpq : trim p = trim q)
    (h : solids ps = solids qs) :
  solids (p :: ps) = solids (q :: qs)
  := by
  by_cases hblank : trim q = []
  · rw [solids_cons_of_blank hblank, solids_cons_of_blank (hpq.trans hblank), h]
  · have hsolid : trim p ≠ [] := by
      rw [hpq]
      exact hblank
    rw [solids_cons_of_ne hblank, solids_cons_of_ne hsolid, hpq, h]

theorem solids_of_tailed {ps qs : List Text} (h : List.Forall₂ Tailed ps qs) :
  solids qs = solids ps
  := by
  induction h with
  | nil => rfl
  | cons hpq _ ih => exact solids_cons_congr hpq.trim_eq ih

/-- The statements of a padded text are those of the text, but for blanks. -/
theorem solids_statementsOf_of_padded {t u : Text} (h : Padded [] t u) :
  solids (statementsOf u) = solids (statementsOf t)
  := by
  have hlines : ∀ {ls ms : List Text}, List.Forall₂ Tailed ls ms →
      solids (ms.flatMap cut) = solids (ls.flatMap cut) := by
    intro ls ms hlm
    induction hlm with
    | nil => rfl
    | cons hl _ ih =>
        rw [List.flatMap_cons, List.flatMap_cons, solids_append, solids_append,
          solids_of_tailed (tailed_cut hl), ih]
  exact hlines h.lines.1

/-! ### Noise without carriage returns -/

theorem follows_urlCall :
  urlCall.Follows
  := by
  have hword : Follows (afterAnyCase? ['u', 'r', 'l', '(']) := Follows.afterAnyCase? (by simp)
  have hblanks : Follows fun t => some (t.dropWhile isBlank) := Follows.dropWhile rfl
  have hstart : Leaves fun t =>
      afterAnyCase? ['u', 'r', 'l', '('] t >>= fun t => some (t.dropWhile isBlank) :=
    Leaves.bind (fun _ _ h => suffix_of_afterAnyCase? h) (leaves_dropWhile isBlank)
  have hquoted : ∀ {mark}, mark ≠ '\n' ∧ mark ≠ '\r' → FollowsLine (afterQuoted mark) := by
    intro mark hmark
    have hone : ∀ {c}, c ≠ '\n' ∧ c ≠ '\r' → Heeds (after? [c]) := fun hc =>
      (Follows.after? (List.forall_mem_singleton.mpr hc)).heeds
    have hrest : Heeds fun t => afterPlainQuote mark t >>= after? [')'] := by
      refine Heeds.bind (heeds_upTo ?_ ?_ hmark) (hone (by simp)) ?_ (leaves_after? _)
      · simp
      · simp [Ne.symm hmark.2]
      · exact (leaves_dropWhile _).bind (leaves_after? _)
    apply (Heeds.bind (hone hmark) hrest (leaves_after? _) _).line
    exact ((leaves_dropWhile _).bind (leaves_after? _)).bind (leaves_after? _)
  have haddress : FollowsLine afterAddress := by
    rw [funext afterAddress_eq]
    exact ((hquoted (by decide)).orElse (hquoted (by decide))).orElse
      (heeds_upTo rfl rfl (by decide)).line
  apply Shape.follows_of_reader ((hword.bind hblanks).bindLine hstart haddress)
  intro before t
  rw [urlCall]
  cases afterAnyCase? ['u', 'r', 'l', '('] t with
  | none => rfl
  | some u => rfl

/-- A string that holds no carriage return ends in the same place when line feeds are written for
carriage returns. -/
theorem followsLine_afterString {mark : Char} (hmark : mark ≠ '\n' ∧ mark ≠ '\r') :
  FollowsLine (afterString mark)
  := by
  have hfeed : ∀ t, afterString mark (fed ('\n' :: t)) = none := by
    intro t
    change afterString mark ('\n' :: fed t) = none
    rw [afterString_cons (by decide), if_neg (Ne.symm hmark.1), if_pos rfl]
  intro t hreturn
  fun_induction afterString mark t with
  | case1 => rfl
  | case2 => rfl
  | case3 c t ih =>
      apply ih
      intro x u hx hu hmem
      exact hreturn ('\\' :: c :: x) u (by rw [hx]; rfl) hu
        (List.mem_cons_of_mem _ (List.mem_cons_of_mem c hmem))
  | case4 t hlast hpair =>
      have hescape := ne_of_no_escape hlast hpair
      rw [fed, List.map_cons, feed_of_ne hmark.2, afterString_cons hescape, if_pos rfl]
      rfl
  | case5 t _ _ _ => exact hfeed t
  | case6 c t hlast hpair hc hline ih =>
      have hescape := ne_of_no_escape hlast hpair
      by_cases hcr : c = '\r'
      · subst hcr
        cases hu : afterString mark t with
        | none => exact hfeed t
        | some u =>
            obtain ⟨x, hx⟩ := suffix_of_afterString hu
            exact absurd List.mem_cons_self (hreturn ('\r' :: x) u (by rw [← hx]; rfl) hu)
      · rw [fed, List.map_cons, feed_of_ne hcr, afterString_cons hescape, if_neg hc, if_neg hline]
        apply ih
        intro x u hx hu hmem
        exact hreturn (c :: x) u (by rw [hx]; rfl) hu (List.mem_cons_of_mem c hmem)

/-- A line comment that holds no carriage return ends in the same place. -/
theorem followsLine_upToLine :
  FollowsLine fun t => some (t.dropWhile (· != '\n'))
  := by
  intro t hreturn
  induction t with
  | nil => rfl
  | cons c t ih =>
      by_cases hc : c = '\n'
      · subst hc
        rfl
      · have hdrop : ∀ v : Text, (c :: v).dropWhile (· != '\n') = v.dropWhile (· != '\n') :=
          fun v => List.dropWhile_cons_of_pos (by simpa using hc)
        dsimp only at ih hreturn ⊢
        rw [hdrop] at hreturn ⊢
        have hcr : c ≠ '\r' := by
          rintro rfl
          exact hreturn ('\r' :: t.takeWhile (· != '\n')) _
            (by rw [List.cons_append, List.takeWhile_append_dropWhile]) rfl List.mem_cons_self
        have hfed : fed (c :: t) = c :: fed t := by
          rw [fed, List.map_cons, feed_of_ne hcr]
          rfl
        rw [hfed, hdrop]
        apply ih
        intro x u hx hu hmem
        exact hreturn (c :: x) u (by rw [hx]; rfl) hu (List.mem_cons_of_mem c hmem)

theorem follows_commentOrString :
  commentOrString.Follows
  := by
  have hone : ∀ {ps : Text}, (∀ c ∈ ps, c ≠ '\n' ∧ c ≠ '\r') → Follows (after? ps) :=
    Follows.after?
  have hstring : ∀ {mark}, mark ≠ '\n' ∧ mark ≠ '\r' →
      FollowsLine fun t => after? [mark] t >>= afterString mark := fun hmark =>
    (hone (List.forall_mem_singleton.mpr hmark)).bindLine (leaves_after? _)
      (followsLine_afterString hmark)
  have hblock : Follows fun t => after? ['/', '*'] t >>= afterFirst? ['*', '/'] :=
    (hone (by simp)).bind (Follows.afterFirst? (by simp))
  have hline : FollowsLine fun t =>
      after? ['/', '/'] t >>= fun t => some (t.dropWhile (· != '\n')) :=
    (hone (by simp)).bindLine (leaves_after? _) followsLine_upToLine
  intro before t hreturn
  have hbefore : (before.map feed = some ':' ∨ before.map feed = some '\\')
      ↔ (before = some ':' ∨ before = some '\\') := by
    cases before with
    | none => rfl
    | some c =>
        have hfeed : ∀ {p}, p ≠ '\n' ∧ p ≠ '\r' → (some (feed c) = some p ↔ some c = some p) := by
          intro p hp
          rw [Option.some_inj, Option.some_inj, eq_comm, eq_feed_iff hp, eq_comm]
        exact or_congr (hfeed (by decide)) (hfeed (by decide))
  have hread : FollowsLine (commentOrString before) := by
    rw [funext (commentOrString_eq before)]
    refine ((hstring (by decide)).orElse (hstring (by decide))).orElse (hblock.line.orElse ?_)
    split
    · exact fun _ _ => rfl
    · exact hline
  rw [← hread t hreturn, commentOrString_eq, commentOrString_eq]
  simp only [hbefore]

theorem follows_dataAddress :
  dataAddress.Follows
  := by
  have hword : Follows (afterAnyCase? ['d', 'a', 't', 'a', ':']) :=
    Follows.afterAnyCase? (by simp)
  have hmedia : Follows (afterSome? fun c =>
      isWord c || c == '/' || c == '+' || c == '.' || c == '-') := Follows.afterSome? (by decide)
  have hparameter : Follows afterParameter := by
    have hmark : Follows (after? [';']) := Follows.after? (by simp)
    exact hmark.bind (Follows.afterSome? (by decide))
  have hparameters : Follows fun t => some (afterParameters 0 t) := by
    intro t
    induction hn : t.length using Nat.strong_induction_on generalizing t with
    | _ n ih =>
        subst hn
        dsimp only at ih ⊢
        rw [afterParameters_zero t, afterParameters_zero (fed t), hparameter]
        cases ht : afterParameter t with
        | none => rfl
        | some u => exact ih u.length (steady_afterParameter.length_lt rfl ht) u rfl
  have hcomma : Follows (after? [',']) := Follows.after? (by simp)
  have hpayload : Follows fun t => some (t.dropWhile isAddressChar) :=
    Follows.dropWhile (by decide)
  have hdata := hword.bind (hmedia.bind ((hparameters.bind hcomma).bind hpayload))
  exact Shape.follows_of_reader hdata.line fun _ _ => rfl

theorem follows_namespaceOrLink :
  namespaceOrLink.Follows
  := by
  have hxmlns : Follows (afterAnyCase? ['x', 'm', 'l', 'n', 's']) :=
    Follows.afterAnyCase? (by simp)
  have hcolon : Follows (after? [':']) := Follows.after? (by simp)
  have hname : Follows (afterSome? fun c => isWord c || c == '-') := Follows.afterSome? (by decide)
  have hequals : Follows (after? ['=']) := Follows.after? (by simp)
  have hvalue : Follows fun t => some (t.dropWhile fun c => !isBlank c) :=
    Follows.dropWhile (by decide)
  have hhttp : Follows (afterAnyCase? ['h', 't', 't', 'p']) := Follows.afterAnyCase? (by simp)
  have hsecure : Follows (afterAnyCase? ['s']) := Follows.afterAnyCase? (by simp)
  have hslashes : Follows (after? [':', '/', '/']) := Follows.after? (by simp)
  have haddress : Follows fun t => some (t.dropWhile isAddressChar) :=
    Follows.dropWhile (by decide)
  have hdeclaration := hxmlns.bind (((hcolon.bind hname).getD.bind hequals).bind hvalue)
  have hlink := hhttp.bind ((hsecure.getD.bind hslashes).bind haddress)
  exact Shape.follows_of_reader (hdeclaration.orElse hlink).line fun _ _ => rfl

theorem follows_interpolation :
  interpolation.Follows
  := by
  have hstart : Follows (after? ['#', '\x7b']) := Follows.after? (by simp)
  have hend : Follows fun t =>
      after? ['\x7d'] (t.dropWhile fun c => c != '\x7b' && c != '\x7d') :=
    (Follows.dropWhile (by decide)).bind (Follows.after? (by simp))
  exact Shape.follows_of_reader (hstart.bind hend).line fun _ _ => rfl

theorem follows_callOrGroup :
  callOrGroup.Follows
  := by
  have hname : Follows afterName := by
    intro t
    cases t with
    | nil => rfl
    | cons c t =>
        have hrest : Follows fun t => some (t.dropWhile isNameRest) := Follows.dropWhile (by decide)
        by_cases hc : c = '\r'
        · subst hc
          rfl
        · rw [fed, List.map_cons, feed_of_ne hc, afterName, afterName]
          split
          · exact hrest t
          · rfl
  have hpoint : Follows (after? ['.']) := Follows.after? (by simp)
  have hopen : Follows (after? ['(']) := Follows.after? (by simp)
  have hclose : Follows fun t => after? [')'] (t.dropWhile fun c =>
      c != '(' && c != ')' && c != '\x7b' && c != '\x7d' && c != ';') :=
    (Follows.dropWhile (by decide)).bind (Follows.after? (by simp))
  have hgroup : Follows afterGroup := hopen.bind hclose
  exact Shape.follows_of_reader
    ((hname.bind ((hpoint.bind hname).getD.bind hgroup)).orElse hgroup).line callOrGroup_eq

/-! ### Cleaning with line feeds for carriage returns -/

theorem return_notMem_lineFeeds (t : Text) :
  '\r' ∉ lineFeeds t
  := by
  intro hmem
  have hfeed := (List.mem_filter.mp hmem).2
  cases hfeed

theorem return_notMem_emptied (t : Text) :
  '\r' ∉ emptied t
  := by
  unfold emptied
  split
  · decide
  · decide
  · exact return_notMem_lineFeeds _

/-- Whether a rewriting leaves no more carriage returns than there are, and where it leaves as many,
line feeds may be written for them before it or afterwards. -/
def Indifferent (f : Text → Text) : Prop :=
  ∀ t, (f t).count '\r' ≤ t.count '\r' ∧ ((f t).count '\r' = t.count '\r' → f (fed t) = fed (f t))

namespace Indifferent

variable {f g : Text → Text}

theorem comp (hg : Indifferent g) (hf : Indifferent f) :
  Indifferent (g ∘ f)
  := by
  intro t
  obtain ⟨hle, hfed⟩ := hf t
  obtain ⟨hle', hfed'⟩ := hg (f t)
  rw [Function.comp_apply, Function.comp_apply]
  refine ⟨Nat.le_trans hle' hle, fun hcount => ?_⟩
  rw [hfed (by omega), hfed' (by omega)]

theorem iterate (h : Indifferent f) (n : Nat) :
  Indifferent f^[n]
  := by
  induction n with
  | zero => exact fun t => ⟨Nat.le_refl _, fun _ => rfl⟩
  | succ n ih =>
      rw [Function.iterate_succ]
      exact ih.comp h

theorem replace {s : Shape} (h : s.Follows) (hf : ∀ x, '\r' ∉ f x) :
  Indifferent (s.replace f)
  := by
  intro t
  have hcount := Shape.count_replace (s := s) hf t
  refine ⟨by omega, fun heq => ?_⟩
  apply h.replace_fed hf
  rw [← List.count_eq_zero]
  omega

end Indifferent

theorem indifferent_dropGroups :
  Indifferent dropGroups
  := by
  intro t
  have hround : Indifferent dropInnermost :=
    Indifferent.replace follows_callOrGroup return_notMem_lineFeeds
  have hlength : (fed t).length ≤ t.length := Nat.le_of_eq (List.length_map _)
  have hrounds := hround.iterate t.length t
  rwa [← dropGroups_eq_iterate (Nat.le_refl t.length), ← dropGroups_eq_iterate hlength] at hrounds

/-- Where cleaning leaves all carriage returns, line feeds may be written for them before it or
afterwards. -/
theorem indifferent_strip :
  Indifferent strip
  := by
  have hnone : ∀ {s : Shape}, s.Follows → Indifferent (s.replace fun _ => []) :=
    fun hs => Indifferent.replace hs fun _ => List.not_mem_nil
  have haddress : Indifferent (urlCall.replace fun _ => ['u', 'r', 'l', '(', ')']) :=
    Indifferent.replace follows_urlCall fun _ => by decide
  have hquoted : Indifferent (commentOrString.replace emptied) :=
    Indifferent.replace follows_commentOrString return_notMem_emptied
  have hwords := (hnone follows_interpolation).comp
    ((hnone follows_namespaceOrLink).comp (hnone follows_dataAddress))
  rw [strip_eq_comp]
  exact indifferent_dropGroups.comp (hwords.comp (hquoted.comp haddress))

/-! ### Statements with line feeds for carriage returns -/

/-- A text is one statement without an end, or begins with a statement that has its end behind
it. -/
theorem exists_statement (t : Text) :
  (∀ c ∈ t, endsStatement c = false ∧ c ≠ '\n')
    ∨ ∃ p d rest, t = p ++ d :: rest ∧ (∀ c ∈ p, endsStatement c = false ∧ c ≠ '\n')
      ∧ (endsStatement d = true ∨ d = '\n')
  := by
  induction t with
  | nil => exact .inl (List.forall_mem_nil _)
  | cons c t ih =>
      by_cases hc : endsStatement c = true ∨ c = '\n'
      · exact .inr ⟨[], c, t, rfl, List.forall_mem_nil _, hc⟩
      · obtain ⟨hends, hline⟩ := not_or.mp hc
        have hfree := And.intro (Bool.eq_false_iff.mpr hends) hline
        rcases ih with hall | ⟨p, d, rest, rfl, hp, hd⟩
        · exact .inl (List.forall_mem_cons.mpr ⟨hfree, hall⟩)
        · exact .inr ⟨c :: p, d, rest, rfl, List.forall_mem_cons.mpr ⟨hfree, hp⟩, hd⟩

theorem isBlank_of_mem_fed {gap : Text} (h : ∀ c ∈ gap, isBlank c = true) :
  ∀ c ∈ fed gap, isBlank c = true
  := by
  intro c hc
  obtain ⟨d, hd, rfl⟩ := List.mem_map.mp hc
  rw [feed]
  split
  · rfl
  · exact h d hd

/-- Blanks in front of a blank statement leave it blank, and change nothing behind it but for blank
statements. -/
theorem exists_statementsOf_append {gap t r : Text} {rs : List Text}
    (h : ∀ c ∈ gap, isBlank c = true) (ht : statementsOf t = r :: rs)
    (hr : ∀ c ∈ r, isBlank c = true) :
  ∃ q qs, statementsOf (gap ++ t) = q :: qs ∧ (∀ c ∈ q, isBlank c = true)
      ∧ solids qs = solids rs
  := by
  induction gap with
  | nil => exact ⟨r, rs, ht, hr, rfl⟩
  | cons c gap ih =>
      obtain ⟨hc, hgap⟩ := List.forall_mem_cons.mp h
      rw [List.cons_append]
      by_cases hline : c = '\n'
      · have hstatements := statementsOf_append_lineFeed (p := []) (List.forall_mem_nil _)
          List.not_mem_nil (gap ++ t)
        refine ⟨[], statementsOf (gap ++ t), ?_, fun d hd => absurd hd List.not_mem_nil, ?_⟩
        · rw [hline]
          exact hstatements
        · have hblank : trim r = [] := by
            rw [← List.append_nil r, trim_append_of_blank hr]
            rfl
          rw [solids_statementsOf_append hgap, ht, solids_cons_of_blank hblank]
      · obtain ⟨q, qs, hq, hblank, hsolids⟩ := ih hgap
        obtain ⟨p, ps, hp, hcp⟩ := statementsOf_cons (endsStatement_of_isBlank hc) hline (gap ++ t)
        obtain ⟨rfl, rfl⟩ := List.cons.inj (hq.symm.trans hp)
        exact ⟨c :: q, qs, hcp, List.forall_mem_cons.mpr ⟨hc, hblank⟩, hsolids⟩

/-- What stands in front of the first statement of a text belongs to it. -/
theorem statementsOf_append_of_forall {p : Text}
    (h : ∀ c ∈ p, endsStatement c = false ∧ c ≠ '\n') {t q : Text} {qs : List Text}
    (ht : statementsOf t = q :: qs) :
  statementsOf (p ++ t) = (p ++ q) :: qs
  := by
  induction p with
  | nil => exact ht
  | cons c p ih =>
      obtain ⟨⟨hends, hline⟩, hp⟩ := List.forall_mem_cons.mp h
      obtain ⟨q', qs', hq, hcq⟩ := statementsOf_cons hends hline (p ++ t)
      obtain ⟨rfl, rfl⟩ := List.cons.inj ((ih hp).symm.trans hq)
      exact hcq

/-- A statement that has carriage returns at its ends only is the same, but for blanks, when line
feeds are written for them. -/
theorem solids_statementsOf_fed_append {p : Text} (h : ∀ c ∈ p, endsStatement c = false ∧ c ≠ '\n')
    (hreturn : '\r' ∉ trim p) {t r : Text} {rs : List Text} (ht : statementsOf t = r :: rs)
    (hr : ∀ c ∈ r, isBlank c = true) :
  solids (statementsOf (fed p ++ t)) = solids (p :: rs)
  := by
  obtain ⟨before, after, hp, hbefore, hafter⟩ := exists_blanks_trim p
  have hfed : fed p = fed before ++ (trim p ++ fed after) := by
    conv_lhs => rw [hp, fed_append, fed_append, fed_of_notMem hreturn, List.append_assoc]
  obtain ⟨q, qs, hq, hblank, hsolids⟩ :=
    exists_statementsOf_append (isBlank_of_mem_fed hafter) ht hr
  have hcore : ∀ c ∈ trim p, endsStatement c = false ∧ c ≠ '\n' :=
    fun c hc => h c (mem_of_mem_trim hc)
  have htrim : trim (trim p ++ q) = trim p := by
    rw [trim_append_of_blank_right hblank, trim_trim]
  rw [hfed, List.append_assoc, List.append_assoc,
    solids_statementsOf_append (isBlank_of_mem_fed hbefore), statementsOf_append_of_forall hcore hq]
  exact solids_cons_congr htrim hsolids

/-- The statements of a text are the same, but for blanks, when line feeds are written for carriage
returns, if each has them at its ends only. -/
theorem solids_statementsOf_fed {t : Text} (h : ∀ p ∈ statementsOf t, '\r' ∉ trim p) :
  solids (statementsOf (fed t)) = solids (statementsOf t)
  := by
  induction hn : t.length using Nat.strong_induction_on generalizing t with
  | _ n ih =>
      subst hn
      rcases exists_statement t with hall | ⟨p, d, rest, rfl, hp, hd⟩
      · have hone : statementsOf t = [t] := by
          have happend := statementsOf_append_of_forall hall (show statementsOf [] = [[]] from rfl)
          rwa [List.append_nil] at happend
        rw [hone] at h ⊢
        have hfed := solids_statementsOf_fed_append hall (h t List.mem_cons_self)
          (show statementsOf [] = [[]] from rfl) (fun c hc => absurd hc List.not_mem_nil)
        rwa [List.append_nil] at hfed
      · have hends : ∀ c ∈ p, endsStatement c = false := fun c hc => (hp c hc).1
        have hline : '\n' ∉ p := fun hmem => (hp '\n' hmem).2 rfl
        have hlt : rest.length < (p ++ d :: rest).length := by
          rw [List.length_append, List.length_cons]
          omega
        have hfed : fed (p ++ d :: rest) = fed p ++ feed d :: fed rest := by
          rw [fed_append]
          rfl
        rw [hfed]
        -- the first statement ends with a character of its own, or with its line
        rcases hd with hd | rfl
        · rw [statementsOf_append_end hends hline hd] at h ⊢
          obtain ⟨hfirst, hothers⟩ := List.forall_mem_cons.mp h
          have hblank : isBlank d = false := Bool.eq_false_iff.mpr fun hblank => by
            rw [endsStatement_of_isBlank hblank] at hd
            cases hd
          have hcr : d ≠ '\r' := by
            rintro rfl
            cases hblank
          rw [trim_concat p hblank, List.mem_append, not_or] at hfirst
          have hgap : ∀ c ∈ p.takeWhile isBlank, isBlank c = true :=
            fun c hc => List.mem_takeWhile_imp hc
          have hcore : fed p = fed (p.takeWhile isBlank) ++ trimStart p := by
            rw [← fed_of_notMem hfirst.1, trimStart, ← fed_append, List.takeWhile_append_dropWhile]
          have hsub : ∀ c ∈ trimStart p, c ∈ p := fun c hc => (List.dropWhile_suffix _).subset hc
          have htrim : trim (trimStart p ++ [d]) = trim (p ++ [d]) := by
            rw [← trim_append_of_blank hgap, ← List.append_assoc, trimStart,
              List.takeWhile_append_dropWhile]
          rw [feed_of_ne hcr, hcore, List.append_assoc,
            solids_statementsOf_append (isBlank_of_mem_fed hgap),
            statementsOf_append_end (fun c hc => hends c (hsub c hc))
              (fun hmem => hline (hsub _ hmem)) hd]
          exact solids_cons_congr htrim (ih _ hlt hothers rfl)
        · rw [statementsOf_append_lineFeed hends hline] at h ⊢
          obtain ⟨hfirst, hothers⟩ := List.forall_mem_cons.mp h
          have hfeed : statementsOf ('\n' :: fed rest) = [] :: statementsOf (fed rest) :=
            statementsOf_append_lineFeed (p := []) (List.forall_mem_nil _) List.not_mem_nil _
          rw [show feed '\n' = '\n' from rfl, solids_statementsOf_fed_append hp hfirst hfeed
            (fun c hc => absurd hc List.not_mem_nil)]
          exact solids_cons_congr rfl (ih _ hlt hothers rfl)

/-! ### Definitions -/

/-- Whatever ends its lines, a stylesheet defines the same, if no string of one with carriage
returns goes on over the end of a line, and those carriage returns that stand alone stand in no
noise, and at the ends of statements only. -/
theorem definedIn_unifyLineEnds {t : Text}
    (hstrings : '\r' ∈ t → '\n' ∉ stringsIn (withoutAddresses (lineFed t)))
    (hnoise : (strip (lineFed t)).count '\r' = (lineFed t).count '\r')
    (hends : ∀ p ∈ statementsOf (strip (lineFed t)), '\r' ∉ trim p) :
  definedIn (unifyLineEnds t) = definedIn t
  := by
  have hpadded : Padded [] (strip (lineFed t)) (strip t) := by
    by_cases hreturn : '\r' ∈ t
    · exact padded_strip (padded_lineFed t) (hstrings hreturn)
    · rw [lineFed_of_notMem hreturn]
      exact .refl _
  rw [definedIn_eq_finds, definedIn_eq_finds]
  apply Scanner.finds_congr
  rw [unifyLineEnds_eq, (indifferent_strip _).2 hnoise, solids_statementsOf_fed hends,
    solids_statementsOf_of_padded hpadded]

/-- A blank stylesheet defines nothing. -/
theorem definedIn_of_blank {t : Text} (h : blank t = true) :
  definedIn t = []
  := by
  have hblank := List.all_eq_true.mp h
  have hfinds := Scanner.finds_gap {} hblank []
  rw [List.append_nil] at hfinds
  rw [definedIn_eq_finds, (Plain.of_blank hblank).strip_eq, hfinds]
  rfl

end StylePrune.Stylesheet
