import StylePrune.Proofs.Stylesheet.Calm
import StylePrune.Proofs.Stylesheet.Steady

/-!
# What a comment says

Of a comment cleaning leaves the line feeds, and so what a comment says does not matter for the class
names of a stylesheet (`definitionsOf_comment`).  But `url(...)` is taken out before comments are, and
a comment may well begin one: then the end of the comment may be taken for a part of the address, and
so may its line feeds.  The law holds for comments of which neither is true.
-/

namespace StylePrune.Text

/-- What a piece has of constructs. -/
def Piece.construct : Piece → Text
  | plain _ => []
  | found t => t

namespace Shape

variable {s : Shape}

/-- The constructs of a shape in a text, one behind the other. -/
def constructs (s : Shape) (t : Text) : Text := (s.pieces t).flatMap Piece.construct

/-- Whether a character that stands behind a text belongs to no construct of a shape, if another
text follows. -/
def Spares (s : Shape) (t : Text) (c : Char) (rest : Text) : Prop :=
  ∃ first last, s.pieces (t ++ c :: rest) = first ++ .plain c :: last
    ∧ first.flatMap Piece.source = t

/-- Then what stands before the character and what stands behind it have the pieces they have
alone. -/
theorem Steady.spares_iff (h : s.Steady) {t rest : Text} {c : Char}
    (hc : ∀ u, s (some c) u = s none u) :
  s.Spares t c rest ↔ s.pieces (t ++ c :: rest) = s.pieces t ++ .plain c :: s.pieces rest
  := by
  constructor
  · rintro ⟨first, last, hpieces, hsource⟩
    obtain ⟨u, v, huv, -, hfirst, hlast, -⟩ := h.piecesAfter_parts (Nat.zero_le _) hpieces
    obtain rfl : t = u := by
      rw [← hsource, ← hfirst]
      exact source_pieces s u
    obtain rfl : rest = v := (List.cons.inj (List.append_cancel_left huv)).2
    rw [hpieces, ← hfirst, ← hlast, piecesAfter_eq_pieces hc]
    rfl
  · intro hpieces
    exact ⟨s.pieces t, s.pieces rest, hpieces, source_pieces s t⟩

/-- What stands before and behind a character that belongs to no construct is rewritten as if it
stood alone. -/
theorem Steady.replace_of_spares (h : s.Steady) {t rest : Text} {c : Char}
    (hc : ∀ u, s (some c) u = s none u) (hspares : s.Spares t c rest) (f : Text → Text) :
  s.replace f (t ++ c :: rest) = s.replace f t ++ c :: s.replace f rest
  := by
  rw [replace, (h.spares_iff hc).mp hspares, List.flatMap_append, List.flatMap_cons]
  rfl

/-- A character is found in the constructs of a text, and in what stays when they are rewritten
without it. -/
theorem count_replace {c : Char} {f : Text → Text} (hf : ∀ u, c ∉ f u) (t : Text) :
  (s.replace f t).count c + (s.constructs t).count c = t.count c
  := by
  have hpiece : ∀ p : Piece, (p.render f).count c + p.construct.count c = p.source.count c := by
    intro p
    cases p with
    | plain d => rfl
    | found u =>
        change (f u).count c + u.count c = u.count c
        rw [List.count_eq_zero.mpr (hf u), Nat.zero_add]
  have hpieces : ∀ ps : List Piece, (ps.flatMap (·.render f)).count c
      + (ps.flatMap Piece.construct).count c = (ps.flatMap Piece.source).count c := by
    intro ps
    induction ps with
    | nil => rfl
    | cons p ps ih =>
        simp only [List.flatMap_cons, List.count_append, ← ih, ← hpiece]
        omega
  have hcount := hpieces (s.pieces t)
  rwa [source_pieces] at hcount

/-- Rewriting leaves no text empty, if it leaves no construct empty. -/
theorem eq_nil_of_replace_eq_nil {f : Text → Text} (hf : ∀ u, f u ≠ []) {t : Text} :
  s.replace f t = [] → t = []
  := by
  apply replace_related (R := fun t u => u = [] → t = [])
  · exact fun t => id
  · intro t t' u u' ht ht' hempty
    obtain ⟨hu, hu'⟩ := List.append_eq_nil_iff.mp hempty
    rw [ht hu, ht' hu']
    rfl
  · exact fun u _ hempty => absurd hempty (hf u)

/-- A construct that stands at the start of a text is its first piece. -/
theorem piecesAfter_of_construct {before : Option Char} {u rest : Text} {d : Char}
    (h : s before (u ++ d :: rest) = some rest) :
  s.piecesAfter 0 before (u ++ d :: rest) = .found (u ++ [d]) :: s.piecesAfter 0 (some d) rest
  := by
  have hskip : ∀ (v : Text) last,
      s.piecesAfter (v.length + 1) last (v ++ d :: rest) = s.piecesAfter 0 (some d) rest := by
    intro v
    induction v with
    | nil => exact fun last => rfl
    | cons e v ih => exact fun last => ih (some e)
  have hspan : s.span before (u ++ d :: rest) = u.length + 1 := by
    rw [span, h]
    simp only [List.length_append, List.length_cons]
    omega
  cases u with
  | nil => exact piecesAfter_cons_of_span hspan
  | cons c u =>
      have hspan' : s.span before (c :: (u ++ d :: rest)) = u.length + 1 + 1 := hspan
      rw [List.cons_append, piecesAfter_cons_of_span hspan', hskip, List.take_length_add_append]
      rfl

end Shape

end StylePrune.Text

namespace StylePrune.Stylesheet

open Text

instance (t : Text) (c : Char) (rest : Text) : Decidable (urlCall.Spares t c rest) :=
  decidable_of_iff _ (steady_urlCall.spares_iff fun _ => rfl).symm

/-! ### Comments -/

/-- A comment. -/
def comment (body : Text) : Text := '/' :: '*' :: (body ++ ['*', '/'])

theorem append_comment (pre body post : Text) :
  pre ++ comment body ++ post = pre ++ '/' :: '*' :: (body ++ '*' :: '/' :: post)
  := by
  simp [comment]

/-- A comment ends where its body does, if the body does not end it. -/
theorem afterFirst?_end {body : Text} (h : ¬ ['*', '/'] <:+: body) (rest : Text) :
  afterFirst? ['*', '/'] (body ++ '*' :: '/' :: rest) = some rest
  := by
  induction body with
  | nil => rfl
  | cons c body ih =>
      have hnone : after? ['*', '/'] (c :: (body ++ '*' :: '/' :: rest)) = none := by
        cases hafter : after? ['*', '/'] (c :: (body ++ '*' :: '/' :: rest)) with
        | none => rfl
        | some v =>
            obtain ⟨rfl, hbody⟩ := List.cons.inj (after?_eq_some_iff.mp hafter)
            cases body with
            | nil => cases (List.cons.inj hbody).1
            | cons d body =>
                obtain ⟨rfl, -⟩ := List.cons.inj hbody
                exact absurd ⟨[], body, rfl⟩ h
      rw [List.cons_append, afterFirst?, hnone]
      exact ih fun hinfix => h (List.infix_cons hinfix)

/-- What is written for addresses ends no comment. -/
theorem not_infix_replace_urlCall {body : Text} (h : ¬ ['*', '/'] <:+: body) :
  ¬ ['*', '/'] <:+: urlCall.replace (fun _ => ['u', 'r', 'l', '(', ')']) body
  := by
  rintro ⟨front, back, hinfix⟩
  have hstar : urlCall.replace (fun _ => ['u', 'r', 'l', '(', ')']) body
      = front ++ '*' :: '/' :: back := by
    rw [← hinfix]
    simp
  obtain ⟨u, v, rfl, -, hv, -⟩ :=
    steady_urlCall.parts_of_notMem (fun _ => rfl) (by simp) hstar
  have hslash : urlCall.replace (fun _ => ['u', 'r', 'l', '(', ')']) v = [] ++ '/' :: back := hv
  obtain ⟨x, y, rfl, hx, -⟩ :=
    steady_urlCall.parts_of_notMem (fun _ => rfl) (by simp) hslash
  obtain rfl := Shape.eq_nil_of_replace_eq_nil (by simp) hx
  exact h ⟨u, y, by simp⟩

/-- Whether a text has none of the characters with which a string, a comment or an address begins,
and no backslash. -/
def Unmarked (t : Text) : Prop := ∀ c ∈ t, c ∉ ['"', '\'', '/', '\\', '(']

instance : DecidablePred Unmarked := fun t =>
  decidable_of_iff (t.all fun c => c ∉ ['"', '\'', '/', '\\', '(']) (by simp [Unmarked])

/-! ### Cleaning a text with a comment -/

section Cleaning

variable {pre body post : Text}

/-- Rewriting addresses passes over the marks of a comment that no address reaches out of. -/
theorem replace_urlCall_comment (hpre : '(' ∉ pre)
    (hspares : urlCall.Spares body '*' ('/' :: post)) (f : Text → Text) :
  urlCall.replace f (pre ++ comment body ++ post)
    = pre ++ comment (urlCall.replace f body) ++ urlCall.replace f post
  := by
  have hbefore : ∀ c u, urlCall (some c) u = urlCall none u := fun _ _ => rfl
  have hpass : ∀ {t d}, '(' ∉ t → foldCase d ∉ ['u', 'r', 'l', '('] → ∀ rest,
      urlCall.replace f (t ++ d :: rest) = t ++ d :: urlCall.replace f rest := by
    intro t d ht hd rest
    apply Shape.replace_append_of_idle _ (hbefore d)
    intro u hu before
    apply urlCall_eq_none_of_foldCase _ before fun hmem => ht (hu.subset hmem)
    rintro c ⟨⟩
    exact hd
  have hmark : ∀ {d}, foldCase d ∉ ['u', 'r', 'l', '('] → ∀ rest,
      urlCall.replace f (d :: rest) = d :: urlCall.replace f rest :=
    hpass List.not_mem_nil
  rw [append_comment, append_comment, hpass hpre (by decide), hmark (by decide),
    steady_urlCall.replace_of_spares (hbefore '*') hspares, hmark (by decide)]

/-- Of a comment cleaning leaves the line feeds. -/
theorem replace_commentOrString_comment (hpre : ∀ c ∈ pre, c ≠ '"' ∧ c ≠ '\'' ∧ c ≠ '/')
    (hbody : ¬ ['*', '/'] <:+: body) :
  commentOrString.replace emptied (pre ++ comment body ++ post)
    = pre ++ lineFeeds body ++ commentOrString.replace emptied post
  := by
  have hplain : ∀ c ∈ pre, ∀ before u, commentOrString before (c :: u) = none := by
    intro c hc
    obtain ⟨hdouble, hsingle, hslash⟩ := hpre c hc
    exact commentOrString_cons_eq_none hdouble hsingle hslash
  have hwritten : pre ++ comment body ++ post
      = pre ++ (('/' :: '*' :: (body ++ ['*'])) ++ '/' :: post) := by
    rw [append_comment]
    simp
  have hconstruct : ∀ before, commentOrString before
      (('/' :: '*' :: (body ++ ['*'])) ++ '/' :: post) = some post := by
    intro before
    have hend := afterFirst?_end hbody post
    rw [List.append_cons] at hend
    exact hend
  have hrender : emptied ('/' :: '*' :: (body ++ ['*']) ++ ['/']) = lineFeeds body := by
    simp [emptied, lineFeeds]
  obtain ⟨last, hlast⟩ := Shape.piecesAfter_append_of_forall hplain none
    (('/' :: '*' :: (body ++ ['*'])) ++ '/' :: post)
  rw [Shape.replace, Shape.pieces, hwritten, hlast,
    Shape.piecesAfter_of_construct (hconstruct last),
    Shape.piecesAfter_eq_pieces (commentOrString_before_of_ne (by decide) (by decide)),
    List.flatMap_append, Shape.flatMap_render_plain, List.flatMap_cons, Piece.render, hrender,
    List.append_assoc]
  rfl

/-- When addresses, strings and comments have been taken out, there are as many line feeds in the
place of a comment as it has outside of addresses. -/
theorem emptied_comment (hpre : Unmarked pre) (hbody : ¬ ['*', '/'] <:+: body)
    (hspares : urlCall.Spares body '*' ('/' :: post)) :
  commentOrString.replace emptied
      (urlCall.replace (fun _ => ['u', 'r', 'l', '(', ')']) (pre ++ comment body ++ post))
    = pre ++ List.replicate (body.count '\n' - (urlCall.constructs body).count '\n') '\n'
      ++ commentOrString.replace emptied
        (urlCall.replace (fun _ => ['u', 'r', 'l', '(', ')']) post)
  := by
  have hgroup : '(' ∉ pre := fun hmem => hpre '(' hmem (by decide)
  have hmarks : ∀ c ∈ pre, c ≠ '"' ∧ c ≠ '\'' ∧ c ≠ '/' := by
    intro c hc
    have hmark := hpre c hc
    simp only [List.mem_cons, List.not_mem_nil, or_false, not_or] at hmark
    obtain ⟨hdouble, hsingle, hslash, -⟩ := hmark
    exact ⟨hdouble, hsingle, hslash⟩
  have hcount := urlCall.count_replace (c := '\n') (f := fun _ => ['u', 'r', 'l', '(', ')'])
    (fun _ => by decide) body
  rw [replace_urlCall_comment hgroup hspares,
    replace_commentOrString_comment hmarks (not_infix_replace_urlCall hbody), lineFeeds,
    List.filter_beq, ← hcount, Nat.add_sub_cancel]

end Cleaning

/-- What a comment says does not matter.  Behind a text without quotation marks, slashes and
parentheses stands a comment, and another one is written in its place that has as many line feeds.
If no address in either of them reaches over the end of the comment, and their addresses have as
many line feeds, the class names of the stylesheet are the same. -/
theorem definitionsOf_comment {pre body body' post : Text} (hpre : Unmarked pre)
    (hbody : ¬ ['*', '/'] <:+: body) (hbody' : ¬ ['*', '/'] <:+: body')
    (hcount : body.count '\n' = body'.count '\n')
    (hspares : urlCall.Spares body '*' ('/' :: post))
    (hspares' : urlCall.Spares body' '*' ('/' :: post))
    (hfeeds : (urlCall.constructs body).count '\n' = (urlCall.constructs body').count '\n')
    (file : String) (place : Path) :
  definitionsOf (pre ++ comment body ++ post) file place
    = definitionsOf (pre ++ comment body' ++ post) file place
  := by
  have hstrip : strip (pre ++ comment body ++ post) = strip (pre ++ comment body' ++ post) := by
    simp only [strip]
    rw [emptied_comment hpre hbody hspares, emptied_comment hpre hbody' hspares', hcount, hfeeds]
  rw [definitionsOf, definitionsOf, definedIn, definedIn, hstrip]

/-- A comment with a rule, a quotation mark and the start of a line comment, and one with an address
and the start of another one that ends with its line. -/
theorem definitionsOf_comment_rule :
  let pre := ".a \x7b &__b ".toList;
  let body := " .x \x7b \x7d \" // http:\n #\x7b".toList;
  let body' := "/* url(a.png) url(b\n data:".toList;
  let post := " \x7b \x7d \x7d .c \x7b width: calc(1px) \x7d".toList;
  definitionsOf (pre ++ comment body ++ post) "a.scss" (Path.ofString "a.scss")
    = definitionsOf (pre ++ comment body' ++ post) "a.scss" (Path.ofString "a.scss")
    ∧ (definitionsOf (pre ++ comment body ++ post) "a.scss" (Path.ofString "a.scss")).map
      ClassDefinition.name = ["a".toList, "a__b".toList, "c".toList]
  := by
  intro pre body body' post
  constructor
  · apply definitionsOf_comment
    all_goals decide +kernel
  · decide +kernel

/-- The end of a comment may be taken for a part of an address, and so may its line feeds: then what
the comment says does matter.  Each time all other conditions are met. -/
theorem definitionsOf_comment_ne :
  (let body := " url( ".toList;
    let body' := "      ".toList;
    let post := " .a \x7b width: calc(1px) \x7d".toList;
    ¬ ['*', '/'] <:+: body ∧ ¬ ['*', '/'] <:+: body' ∧ body.count '\n' = body'.count '\n'
      ∧ urlCall.Spares body' '*' ('/' :: post)
      ∧ (urlCall.constructs body).count '\n' = (urlCall.constructs body').count '\n'
      ∧ definitionsOf (comment body ++ post) "a.css" (Path.ofString "a.css")
        ≠ definitionsOf (comment body' ++ post) "a.css" (Path.ofString "a.css"))
    ∧ (let pre := ".a".toList;
      let body := "url(\n)".toList;
      let body' := "\n".toList;
      let post := "&__b \x7b \x7d".toList;
      Unmarked pre ∧ ¬ ['*', '/'] <:+: body ∧ ¬ ['*', '/'] <:+: body'
        ∧ body.count '\n' = body'.count '\n'
        ∧ urlCall.Spares body '*' ('/' :: post) ∧ urlCall.Spares body' '*' ('/' :: post)
        ∧ definitionsOf (pre ++ comment body ++ post) "a.scss" (Path.ofString "a.scss")
          ≠ definitionsOf (pre ++ comment body' ++ post) "a.scss" (Path.ofString "a.scss"))
  := by
  constructor
  all_goals decide +kernel

end StylePrune.Stylesheet
