import StylePrune.Proofs.Text.Idle
import StylePrune.Stylesheet.Definitions

/-!
# Text without noise

A calm text holds none of the marks that noise starts with and none of the words; a quiet one may
hold quotation marks.  Where a calm text ends with a statement or with its line, it is left as it is
when a stylesheet that starts with it is cleaned or masked: no construct starts in it, and none that
starts behind it reaches back.
-/

namespace StylePrune.Stylesheet

open Text

/-- The marks that noise starts with, or needs behind its name. -/
def noiseMarks : Text := ['"', '\'', '/', '(']

/-- The words that noise starts with. -/
def noiseWords : List Text := ["data:", "xmlns:", "xmlns="].map String.toList

/-- A text without the marks and the words that noise starts with, in any case. -/
structure Calm (t : Text) : Prop where
  marks : ∀ c ∈ t, c ∉ noiseMarks
  words : ∀ u, u <:+ t → ∀ word ∈ noiseWords, afterAnyCase? word u = none
  interpolations : ∀ u, u <:+ t → after? ['#', '\x7b'] u = none

/-- A character that neither belongs to a word that noise starts with nor starts noise itself. -/
structure Separator (c : Char) : Prop where
  mark : c ∉ noiseMarks
  word : ∀ word ∈ noiseWords, foldCase c ∉ word
  interpolation : c ≠ '#'

/-! ### Calm texts -/

/-- A blank neither starts noise nor belongs to a word of it. -/
theorem separator_of_isBlank {c : Char} (h : isBlank c = true) :
  Separator c
  := by
  constructor
  · intro hmem
    have hmarks : noiseMarks.all (fun d => !isBlank d) = true := rfl
    have hc := List.all_eq_true.mp hmarks c hmem
    rw [h] at hc
    cases hc
  · intro word hword hmem
    rw [foldCase_of_isBlank h] at hmem
    have hwords : noiseWords.all (fun word => word.all fun d => !isBlank d) = true := rfl
    have hc := List.all_eq_true.mp (List.all_eq_true.mp hwords word hword) c hmem
    rw [h] at hc
    cases hc
  · rintro rfl
    cases h

namespace Calm

theorem nil :
  Calm []
  := by
  constructor
  · rintro c ⟨⟩
  · intro u hu word hword
    obtain rfl := List.suffix_nil.mp hu
    simp only [noiseWords, List.map_cons, List.map_nil, List.mem_cons, List.not_mem_nil,
      or_false] at hword
    rcases hword with rfl | rfl | rfl <;> rfl
  · intro u hu
    obtain rfl := List.suffix_nil.mp hu
    rfl

/-- What stands before a separator ends with the separator or starts in the first text. -/
theorem suffix_append_cons {t u v : Text} {d : Char} (h : v <:+ t ++ d :: u) :
  v <:+ u ∨ ∃ w, w <:+ t ∧ v = w ++ d :: u
  := by
  obtain ⟨x, hx⟩ := h
  rcases List.append_eq_append_iff.mp hx with ⟨w, rfl, hv⟩ | ⟨w, rfl, hv⟩
  · exact .inr ⟨w, List.suffix_append x w, hv⟩
  · cases w with
    | nil => exact .inr ⟨[], List.nil_suffix, hv.symm⟩
    | cons e w =>
        obtain ⟨-, rfl⟩ := List.cons.inj hv
        exact .inl (List.suffix_append w v)

/-- No interpolation starts in a text that goes on with a separator if none starts in the text alone
and the separator is not its brace. -/
theorem after?_interpolation {t u : Text} {d : Char} (h : after? ['#', '\x7b'] t = none)
    (hd : d ≠ '#') (hbrace : d = '\x7b' → t.getLast? ≠ some '#') :
  after? ['#', '\x7b'] (t ++ d :: u) = none
  := by
  cases t with
  | nil => simp [after?, Ne.symm hd]
  | cons c t =>
      rw [List.cons_append, after?] at *
      split
      · next hc =>
        rw [if_pos hc] at h
        cases t with
        | nil =>
            rw [List.nil_append, after?, if_neg]
            intro hb
            apply hbrace hb.symm
            rw [hc]
            rfl
        | cons e t =>
            rw [after?] at h
            rw [List.cons_append, after?]
            split
            · next he =>
              rw [if_pos he] at h
              cases h
            · rfl
      · rfl

/-- Calm texts with a separator between them are calm, if it is not the brace of an
interpolation. -/
theorem append_cons {t u : Text} {d : Char} (ht : Calm t) (hu : Calm u) (hd : Separator d)
    (hbrace : d = '\x7b' → t.getLast? ≠ some '#') :
  Calm (t ++ d :: u)
  := by
  constructor
  · intro c hc
    rcases List.mem_append.mp hc with hc | hc
    · apply ht.marks c hc
    · rcases List.mem_cons.mp hc with rfl | hc
      · apply hd.mark
      · apply hu.marks c hc
  · intro v hv word hword
    rcases suffix_append_cons hv with hv | ⟨w, hw, rfl⟩
    · apply hu.words v hv word hword
    · have hfold : ∀ e ∈ (d :: u).head?, foldCase e ∉ word := by
        rintro e ⟨⟩
        apply hd.word word hword
      rw [afterAnyCase?_append hfold, ht.words w hw word hword]
      rfl
  · intro v hv
    rcases suffix_append_cons hv with hv | ⟨w, hw, rfl⟩
    · apply hu.interpolations v hv
    · apply after?_interpolation (ht.interpolations w hw) hd.interpolation
      intro hd hlast
      obtain ⟨x, rfl⟩ := hw
      apply hbrace hd
      rw [List.getLast?_append, hlast]
      rfl

/-- Blanks in front of a calm text leave it calm. -/
theorem append_of_blank {blanks t : Text} (h : ∀ c ∈ blanks, isBlank c = true) (ht : Calm t) :
  Calm (blanks ++ t)
  := by
  induction blanks with
  | nil => exact ht
  | cons c blanks ih =>
      obtain ⟨hc, hblanks⟩ := List.forall_mem_cons.mp h
      apply append_cons nil (ih hblanks) (separator_of_isBlank hc)
      rintro rfl
      cases hc

theorem mark_notMem {t : Text} (h : Calm t) {c : Char} (hc : c ∈ noiseMarks) :
  c ∉ t
  := by
  intro hmem
  apply h.marks c hmem hc

end Calm

/-! ### Quiet texts -/

/-- A text without slashes, groups, the words that noise starts with and interpolations. -/
structure Quiet (t : Text) : Prop where
  slash : '/' ∉ t
  group : '(' ∉ t
  words : ∀ u, u <:+ t → ∀ word ∈ noiseWords, afterAnyCase? word u = none
  interpolations : ∀ u, u <:+ t → after? ['#', '\x7b'] u = none

theorem Calm.quiet {t : Text} (h : Calm t) :
  Quiet t
  := by
  constructor
  · apply h.mark_notMem (by decide)
  · apply h.mark_notMem (by decide)
  · exact h.words
  · exact h.interpolations

theorem Quiet.of_suffix {t u : Text} (h : Quiet t) (hu : u <:+ t) :
  Quiet u
  := by
  constructor
  · intro hmem
    exact h.slash (hu.subset hmem)
  · intro hmem
    exact h.group (hu.subset hmem)
  · intro v hv
    apply h.words v (hv.trans hu)
  · intro v hv
    apply h.interpolations v (hv.trans hu)

/-- A text that is empty or starts with the end of a statement or of a line. -/
def Stopped (rest : Text) : Prop := ∀ d ∈ rest.head?, d = '\n' ∨ endsStatement d = true

/-- What holds of the characters that end a statement or a line. -/
theorem Stopped.forall {rest : Text} (h : Stopped rest) {p : Char → Prop}
    (hp : p '\n' ∧ p '\x7b' ∧ p '\x7d' ∧ p ';') :
  ∀ d ∈ rest.head?, p d
  := by
  intro d hd
  obtain ⟨hline, hopen, hclose, hsemicolon⟩ := hp
  rcases h d hd with rfl | he
  · exact hline
  · simp only [endsStatement, Bool.or_eq_true, beq_iff_eq] at he
    rcases he with (rfl | rfl) | rfl
    · exact hopen
    · exact hclose
    · exact hsemicolon

/-! ### Shapes on calm and quiet texts -/

/-- A `url(...)` is written with its parenthesis, and in one word. -/
theorem urlCall_eq_none_of_foldCase {t rest : Text}
    (hrest : ∀ d ∈ rest.head?, foldCase d ∉ ['u', 'r', 'l', '(']) (before : Option Char)
    (h : '(' ∉ t) :
  urlCall before (t ++ rest) = none
  := by
  have hword : afterAnyCase? ['u', 'r', 'l', '('] t = none := by
    cases hword : afterAnyCase? ['u', 'r', 'l', '('] t with
    | none => rfl
    | some u =>
        obtain ⟨c, hc, hfold⟩ := exists_foldCase_of_afterAnyCase? hword (p := '(') (by decide)
        obtain rfl := eq_of_foldCase_eq rfl hfold
        exact absurd hc h
  rw [urlCall, afterAnyCase?_append hrest, hword]
  rfl

/-- A string or a comment starts with a quotation mark or a slash. -/
theorem commentOrString_cons_eq_none {c : Char} (hdouble : c ≠ '"') (hsingle : c ≠ '\'')
    (hslash : c ≠ '/') (before : Option Char) (t : Text) :
  commentOrString before (c :: t) = none
  := by
  unfold commentOrString
  split
  · next heq => exact absurd (List.cons.inj heq).1 hdouble
  · next heq => exact absurd (List.cons.inj heq).1 hsingle
  · next heq => exact absurd (List.cons.inj heq).1 hslash
  · next heq => exact absurd (List.cons.inj heq).1 hslash
  · rfl

section Shapes

variable {t rest : Text} (hrest : Stopped rest) (before : Option Char)

include hrest

theorem urlCall_eq_none (h : '(' ∉ t) :
  urlCall before (t ++ rest) = none
  := urlCall_eq_none_of_foldCase (hrest.forall (by decide)) before h

theorem commentOrString_eq_none (h : ∀ c ∈ t.head?, c ∉ noiseMarks) :
  commentOrString before (t ++ rest) = none
  := by
  have hmark : ∀ c ∈ (t ++ rest).head?, c ∉ noiseMarks := by
    cases t with
    | nil => exact hrest.forall (by decide)
    | cons c t => exact h
  cases hu : t ++ rest with
  | nil => rfl
  | cons c u =>
      have hc : c ∉ noiseMarks := hmark c (by rw [hu]; rfl)
      have hne : ∀ d ∈ noiseMarks, c ≠ d := by
        rintro d hd rfl
        exact hc hd
      apply commentOrString_cons_eq_none
      · exact hne '"' (by decide)
      · exact hne '\'' (by decide)
      · exact hne '/' (by decide)

theorem dataAddress_eq_none (h : Quiet t) :
  dataAddress before (t ++ rest) = none
  := by
  have hword : afterAnyCase? ['d', 'a', 't', 'a', ':'] t = none :=
    h.words t List.suffix_rfl _ (by decide)
  rw [dataAddress, afterAnyCase?_append (hrest.forall (by decide)), hword]
  rfl

omit hrest in
/-- A character that would go on a word is not found where the word ends. -/
theorem after?_singleton_eq_none {u : Text} {p : Char} (hp : foldCase p = p)
    (hrest : ∀ d ∈ rest.head?, d ≠ p) (hu : afterAnyCase? [p] u = none) :
  after? [p] (u ++ rest) = none
  := by
  cases u with
  | nil =>
      cases rest with
      | nil => rfl
      | cons d rest =>
          have hd : d ≠ p := hrest d rfl
          rw [List.nil_append, after?, if_neg (Ne.symm hd)]
  | cons c u =>
      rw [afterAnyCase?] at hu
      split at hu
      · cases hu
      · next hne =>
        rw [List.cons_append, after?, if_neg]
        rintro rfl
        exact hne hp.symm

/-- No namespace is declared in a quiet text. -/
theorem declaration_eq_none (h : Quiet t) :
  (do
      let r ← afterAnyCase? ['x', 'm', 'l', 'n', 's'] (t ++ rest)
      let named := after? [':'] r >>= afterSome? fun c => isWord c || c == '-'
      let r ← after? ['='] (named.getD r)
      return r.dropWhile fun c => !isBlank c)
    = none
  := by
  rw [afterAnyCase?_append (hrest.forall (by decide))]
  cases hxmlns : afterAnyCase? ['x', 'm', 'l', 'n', 's'] t with
  | none => rfl
  | some u =>
      have hnamed := h.words t List.suffix_rfl (['x', 'm', 'l', 'n', 's'] ++ [':']) (by decide)
      have hequals := h.words t List.suffix_rfl (['x', 'm', 'l', 'n', 's'] ++ ['=']) (by decide)
      rw [afterAnyCase?_concat, hxmlns, Option.bind_some] at hnamed hequals
      have hcolon := after?_singleton_eq_none rfl (hrest.forall (by decide)) hnamed
      have hequal := after?_singleton_eq_none rfl (hrest.forall (by decide)) hequals
      simp [hcolon, hequal]

/-- No link starts in a text without slashes. -/
theorem link_eq_none (h : '/' ∉ t) :
  (do
      let r ← afterAnyCase? ['h', 't', 't', 'p'] (t ++ rest)
      let r ← after? [':', '/', '/'] ((afterAnyCase? ['s'] r).getD r)
      return r.dropWhile isAddressChar)
    = none
  := by
  rw [afterAnyCase?_append (hrest.forall (by decide))]
  cases hhttp : afterAnyCase? ['h', 't', 't', 'p'] t with
  | none => rfl
  | some u =>
      have hslashes : ∀ v, v <:+ t → after? [':', '/', '/'] (v ++ rest) = none := by
        intro v hv
        cases hafter : after? [':', '/', '/'] (v ++ rest) with
        | none => rfl
        | some w =>
            have hmem := (after?_append (hrest.forall (by decide)) hafter).1 '/' (by decide)
            exact absurd (hv.subset hmem) h
      have hu := suffix_of_afterAnyCase? hhttp
      have hsecure : ∃ v, v <:+ t
          ∧ (afterAnyCase? ['s'] (u ++ rest)).getD (u ++ rest) = v ++ rest := by
        rw [afterAnyCase?_append (hrest.forall (by decide))]
        cases hs : afterAnyCase? ['s'] u with
        | none => exact ⟨u, hu, rfl⟩
        | some v => exact ⟨v, (suffix_of_afterAnyCase? hs).trans hu, rfl⟩
      obtain ⟨v, hv, hvrest⟩ := hsecure
      simp [hvrest, hslashes v hv]

theorem namespaceOrLink_eq_none (h : Quiet t) :
  namespaceOrLink before (t ++ rest) = none
  := by
  rw [namespaceOrLink, declaration_eq_none hrest h, link_eq_none hrest h.slash]
  rfl

theorem interpolation_eq_none (h : Quiet t)
    (hbrace : '\x7b' ∈ rest.head? → t.getLast? ≠ some '#') :
  interpolation before (t ++ rest) = none
  := by
  have hafter : after? ['#', '\x7b'] (t ++ rest) = none := by
    cases rest with
    | nil =>
        rw [List.append_nil]
        apply h.interpolations t List.suffix_rfl
    | cons d rest =>
        have hd : d ≠ '#' := hrest.forall (p := (· ≠ '#')) (by decide) d rfl
        apply Calm.after?_interpolation (h.interpolations t List.suffix_rfl) hd
        rintro rfl
        apply hbrace rfl
  rw [interpolation, hafter]
  rfl

/-- A name ends where a statement or a line does. -/
theorem afterName_append {u : Text} (h : afterName (t ++ rest) = some u) :
  ∃ v, v <:+ t ∧ u = v ++ rest
  := by
  cases t with
  | nil =>
      cases rest with
      | nil => cases h
      | cons d rest =>
          have hd : isNameStart d = false :=
            hrest.forall (p := (isNameStart · = false)) (by decide) d rfl
          rw [List.nil_append, afterName, hd] at h
          cases h
  | cons c t =>
      rw [List.cons_append, afterName] at h
      split at h
      · obtain rfl := Option.some.inj h
        use t.dropWhile isNameRest
        constructor
        · exact (List.dropWhile_suffix isNameRest).trans (List.suffix_cons c t)
        · rw [List.dropWhile_append]
          split
          · next hempty =>
            rw [List.isEmpty_iff.mp hempty]
            cases rest with
            | nil => rfl
            | cons d rest =>
                have hd : isNameRest d = false :=
                  hrest.forall (p := (isNameRest · = false)) (by decide) d rfl
                rw [List.dropWhile_cons_of_neg (by simp [hd]), List.nil_append]
          · rfl
      · cases h

theorem afterGroup_eq_none (h : '(' ∉ t) :
  afterGroup (t ++ rest) = none
  := by
  cases hafter : after? ['('] (t ++ rest) with
  | none => rw [afterGroup, hafter]; rfl
  | some u =>
      have hmem := (after?_append (hrest.forall (by decide)) hafter).1 '(' (by decide)
      exact absurd hmem h

theorem callOrGroup_eq_none (h : '(' ∉ t) :
  callOrGroup before (t ++ rest) = none
  := by
  rw [callOrGroup]
  split
  · next u hu =>
    obtain ⟨v, hv, rfl⟩ := afterName_append hrest hu
    have hmember : ∃ w, w <:+ t
        ∧ (after? ['.'] (v ++ rest) >>= afterName).getD (v ++ rest) = w ++ rest := by
      cases hdot : after? ['.'] (v ++ rest) with
      | none => exact ⟨v, hv, rfl⟩
      | some x =>
          obtain ⟨-, w, hw, rfl⟩ := after?_append (hrest.forall (by decide)) hdot
          cases hname : afterName (w ++ rest) with
          | none => exact ⟨v, hv, by simp [hname]⟩
          | some y =>
              obtain ⟨z, hz, rfl⟩ := afterName_append hrest hname
              exact ⟨z, hz.trans (hw.trans hv), by simp [hname]⟩
    obtain ⟨w, hw, hwrest⟩ := hmember
    rw [hwrest]
    apply afterGroup_eq_none hrest
    intro hmem
    exact h (hw.subset hmem)
  · apply afterGroup_eq_none hrest h

end Shapes

/-! ### Cleaning and masking -/

/-- To a comment a character before it is like nothing, but for the colon and the backslash. -/
theorem commentOrString_before_of_ne {d : Char} (hcolon : d ≠ ':') (hslash : d ≠ '\\') (t : Text) :
  commentOrString (some d) t = commentOrString none t
  := by
  unfold commentOrString
  split
  · rfl
  · rfl
  · rfl
  · simp [hcolon, hslash]
  · rfl

/-- To a comment the end of a statement or of a line before it is like nothing. -/
theorem commentOrString_before {d : Char} (hd : d = '\n' ∨ endsStatement d = true) (t : Text) :
  commentOrString (some d) t = commentOrString none t
  := by
  apply commentOrString_before_of_ne
  · rintro rfl
    rcases hd with hd | hd <;> cases hd
  · rintro rfl
    rcases hd with hd | hd <;> cases hd

/-- Leaving the groups out of a text takes characters away and nothing else. -/
theorem dropInnermost_sublist (t : Text) :
  (dropInnermost t).Sublist t
  := by
  apply Shape.replace_related (R := fun t u => u.Sublist t)
  · exact List.Sublist.refl
  · exact List.Sublist.append
  · exact fun u _ => List.filter_sublist

/-- More rounds than characters make no difference. -/
theorem dropGroupsWithin_of_length_le {n : Nat} {t : Text} (h : t.length ≤ n) :
  dropGroupsWithin n t = dropGroups t
  := by
  have hmore : ∀ m n (u : Text), u.length ≤ m → m ≤ n →
      dropGroupsWithin n u = dropGroupsWithin m u := by
    intro m
    induction m with
    | zero =>
        intro n u hu _
        obtain rfl := List.length_eq_zero_iff.mp (Nat.le_zero.mp hu)
        cases n with
        | zero => rfl
        | succ n => rfl
    | succ m ih =>
        intro n u hu hn
        cases n with
        | zero => cases hn
        | succ n =>
            rw [dropGroupsWithin, dropGroupsWithin]
            by_cases hnext : dropInnermost u = u
            · rw [if_pos hnext, if_pos hnext]
            · rw [if_neg hnext, if_neg hnext]
              apply ih
              · apply Nat.le_of_lt_succ
                apply Nat.lt_of_lt_of_le _ hu
                apply Nat.lt_of_le_of_ne (dropInnermost_sublist u).length_le
                intro hlength
                exact hnext ((dropInnermost_sublist u).eq_of_length hlength)
              · apply Nat.le_of_succ_le_succ hn
  apply hmore _ _ _ (Nat.le_refl _) h

/-- Cleaning rewrites one kind of noise after the other. -/
theorem strip_eq_comp :
  strip = dropGroups
    ∘ (interpolation.replace (fun _ => []) ∘ namespaceOrLink.replace (fun _ => [])
      ∘ dataAddress.replace fun _ => [])
    ∘ commentOrString.replace emptied ∘ urlCall.replace fun _ => ['u', 'r', 'l', '(', ')']
  := by
  funext t
  simp only [strip, Function.comp_apply]

/-- Masking rewrites one kind of noise after the other, but for groups. -/
theorem mask_eq_comp :
  mask = (interpolation.replace spaced ∘ namespaceOrLink.replace spaced
      ∘ dataAddress.replace spaced)
    ∘ commentOrString.replace spaced ∘ urlCall.replace spaced
  := by
  funext t
  simp only [mask, Function.comp_apply]

section Passing

variable {t : Text} {d : Char} (hd : d = '\n' ∨ endsStatement d = true)

include hd

/-- A rest that starts with the character if it is not empty. -/
theorem stopped_of_head? {rest : Text} (h : ∀ c ∈ rest.head?, c = d) :
  Stopped rest
  := by
  intro c hc
  rw [h c hc]
  exact hd

theorem passes_dropInnermost (h : '(' ∉ t) :
  Passes dropInnermost t t d
  := by
  apply Shape.passes_of_idle
  · intro rest hrest u hu before
    apply callOrGroup_eq_none (stopped_of_head? hd hrest)
    intro hmem
    exact h (hu.subset hmem)
  · intro u
    rfl

theorem passes_dropGroups (h : '(' ∉ t) :
  Passes dropGroups t t d
  := by
  obtain ⟨halone, hbefore⟩ := passes_dropInnermost hd h
  have hrounds : ∀ n, Passes (dropGroupsWithin n) t t d := by
    intro n
    induction n with
    | zero =>
        constructor
        · rfl
        · intro rest
          rfl
    | succ n ih =>
        constructor
        · rw [dropGroupsWithin, if_pos halone]
        · intro rest
          rw [dropGroupsWithin, dropGroupsWithin, hbefore]
          by_cases hnext : dropInnermost rest = rest
          · rw [if_pos hnext, if_pos (by rw [hnext])]
          · rw [if_neg hnext, if_neg, ih.2]
            intro heq
            exact hnext (List.cons.inj (List.append_cancel_left heq)).2
  constructor
  · apply (hrounds t.length).1
  · intro rest
    rw [dropGroups, (hrounds _).2, dropGroupsWithin_of_length_le]
    simp only [List.length_append, List.length_cons]
    omega

/-- Rewriting addresses passes over a text without groups. -/
theorem passes_urlCall (h : '(' ∉ t) (f : Text → Text) :
  Passes (urlCall.replace f) t t d
  := by
  apply Shape.passes_of_idle
  · intro rest hrest u hu before
    apply urlCall_eq_none (stopped_of_head? hd hrest)
    intro hmem
    exact h (hu.subset hmem)
  · intro u
    rfl

/-- Rewriting comments and strings passes over a calm text. -/
theorem passes_commentOrString (h : Calm t) (f : Text → Text) :
  Passes (commentOrString.replace f) t t d
  := by
  apply Shape.passes_of_idle _ (commentOrString_before hd)
  intro rest hrest u hu before
  apply commentOrString_eq_none (stopped_of_head? hd hrest)
  intro c hc
  apply h.marks c (hu.subset (List.mem_of_mem_head? hc))

/-- Rewriting the noise with a word, or an interpolation, passes over a quiet text. -/
theorem passes_words (h : Quiet t) (hbrace : d = '\x7b' → t.getLast? ≠ some '#')
    (f : Text → Text) :
  Passes (interpolation.replace f ∘ namespaceOrLink.replace f ∘ dataAddress.replace f) t t d
  := by
  have hdata : Passes (dataAddress.replace f) t t d := by
    apply Shape.passes_of_idle
    · intro rest hrest u hu before
      apply dataAddress_eq_none (stopped_of_head? hd hrest) before (h.of_suffix hu)
    · intro u
      rfl
  have hnamespace : Passes (namespaceOrLink.replace f) t t d := by
    apply Shape.passes_of_idle
    · intro rest hrest u hu before
      apply namespaceOrLink_eq_none (stopped_of_head? hd hrest) before (h.of_suffix hu)
    · intro u
      rfl
  have hinterpolation : Passes (interpolation.replace f) t t d := by
    apply Shape.passes_of_idle
    · intro rest hrest u hu before
      apply interpolation_eq_none (stopped_of_head? hd hrest) before (h.of_suffix hu)
      intro hhead hlast
      obtain ⟨x, rfl⟩ := hu
      apply hbrace (hrest _ hhead).symm
      rw [List.getLast?_append, hlast]
      rfl
    · intro u
      rfl
  apply hinterpolation.comp
  apply hnamespace.comp hdata

/-- Cleaning passes over a calm text, if the character behind it is not the brace of an
interpolation. -/
theorem Calm.passes_strip (h : Calm t) (hbrace : d = '\x7b' → t.getLast? ≠ some '#') :
  Passes strip t t d
  := by
  have hword := passes_words hd h.quiet hbrace fun _ => []
  have hgroup := passes_dropGroups hd h.quiet.group
  rw [strip_eq_comp]
  apply hgroup.comp
  apply hword.comp
  apply (passes_commentOrString hd h emptied).comp
  apply passes_urlCall hd h.quiet.group

/-- Masking passes over a calm text, if the character behind it is not the brace of an
interpolation. -/
theorem Calm.passes_mask (h : Calm t) (hbrace : d = '\x7b' → t.getLast? ≠ some '#') :
  Passes mask t t d
  := by
  have hword := passes_words hd h.quiet hbrace spaced
  rw [mask_eq_comp]
  apply hword.comp
  apply (passes_commentOrString hd h spaced).comp
  apply passes_urlCall hd h.quiet.group

end Passing

end StylePrune.Stylesheet
