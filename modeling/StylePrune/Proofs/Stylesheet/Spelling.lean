import StylePrune.Proofs.Stylesheet.Naming
import StylePrune.Proofs.Stylesheet.Steady

/-!
# How names are spelled

A name is read from the cleaned stylesheet, and where cleaning takes something out, what stands
before it and what stands behind it come together.  So a name need not stand in the stylesheet:
`Spells` says that its characters do, one after the other, with nothing between them but what
vanishes.
-/

namespace StylePrune

open Text

/-- Whether a text spells a name: it has the characters of the name in their order, each behind a
text, perhaps an empty one, that is a gap. -/
inductive Text.Spells (Gap : Text → Prop) : Text → Text → Prop
  | nil : Spells Gap [] []
  | cons {gap written name : Text} {c : Char} (hgap : Gap gap) (h : Spells Gap written name) :
    Spells Gap (gap ++ c :: written) (c :: name)

namespace Text.Spells

variable {Gap : Text → Prop} {f : Text → Text} {written name t rest : Text}

/-- A text spells itself. -/
theorem refl (h : Gap []) (name : Text) :
  Spells Gap name name
  := by
  induction name with
  | nil => exact .nil
  | cons c name ih => exact .cons h ih

/-- A text that is rewritten to one that spells a name, spells it with wider gaps. -/
theorem of_parted (h : Spells Gap written name) (hf : ∀ c ∈ name, Parted f c)
    (ht : f t = written ++ rest) :
  ∃ u v, t = u ++ v ∧ Spells (fun gap => Gap (f gap)) u name ∧ f v = rest
  := by
  induction h generalizing t with
  | nil => exact ⟨[], t, rfl, .nil, ht⟩
  | @cons gap written name c hgap h ih =>
      obtain ⟨hc, hname⟩ := List.forall_mem_cons.mp hf
      rw [List.append_assoc] at ht
      obtain ⟨u, v, rfl, rfl, hv⟩ := hc t gap (written ++ rest) ht
      obtain ⟨x, y, rfl, hx, hy⟩ := ih hname hv
      exact ⟨u ++ c :: x, y, by rw [List.append_assoc, List.cons_append], .cons hgap hx, hy⟩

end Text.Spells

namespace Stylesheet

/-! ### Cleaning parts a stylesheet -/

/-- A full stop, or a character of a name. -/
def IsMarkOrName (c : Char) : Prop := c = '.' ∨ ClassName.isNameChar c = true

theorem IsMarkOrName.ne {c d : Char} (h : IsMarkOrName c)
    (hd : d ≠ '.' ∧ ClassName.isNameChar d = false) :
  c ≠ d
  := by
  rintro rfl
  rcases h with h | h
  · exact hd.1 h
  · rw [hd.2] at h
    cases h

/-- Taking the groups out is so many rounds of taking the innermost ones out. -/
theorem dropGroupsWithin_eq_iterate (n : Nat) (t : Text) :
  dropGroupsWithin n t = dropInnermost^[n] t
  := by
  induction n generalizing t with
  | zero => rfl
  | succ n ih =>
      rw [dropGroupsWithin]
      by_cases hnext : dropInnermost t = t
      · rw [if_pos hnext, Function.iterate_fixed hnext]
      · rw [if_neg hnext, ih, Function.iterate_succ_apply]

theorem dropGroups_eq_iterate {n : Nat} {t : Text} (h : t.length ≤ n) :
  dropGroups t = dropInnermost^[n] t
  := by
  rw [← dropGroupsWithin_of_length_le h, dropGroupsWithin_eq_iterate]

/-- Taking out the noise between addresses and groups. -/
def stripMiddle : Text → Text :=
  (interpolation.replace (fun _ => []) ∘ namespaceOrLink.replace (fun _ => [])
    ∘ dataAddress.replace fun _ => []) ∘ commentOrString.replace emptied

/-- What is written for an address stays as it is until the groups are taken out. -/
theorem exists_stripMiddle_append {t : Text} (ht : t ⊆ ['r', 'l', '(', ')']) (rest : Text) :
  ∃ u, stripMiddle (t ++ rest) = t ++ u
  := by
  have hidle : ∀ s ∈ [commentOrString, dataAddress, namespaceOrLink, interpolation],
      ∀ c ∈ ['r', 'l', '(', ')'], ∀ before u, s before (c :: u) = none := by
    simp only [List.forall_mem_cons]
    and_intros
    all_goals first | exact fun _ h => absurd h List.not_mem_nil | exact fun _ _ => rfl
  have hreplace : ∀ s ∈ [commentOrString, dataAddress, namespaceOrLink, interpolation], ∀ f rest,
      ∃ u, s.replace f (t ++ rest) = t ++ u :=
    fun s hs => Shape.exists_replace_append fun c hc => hidle s hs c (ht hc)
  obtain ⟨u, hu⟩ := hreplace commentOrString (by simp) emptied rest
  obtain ⟨v, hv⟩ := hreplace dataAddress (by simp) (fun _ => []) u
  obtain ⟨w, hw⟩ := hreplace namespaceOrLink (by simp) (fun _ => []) v
  obtain ⟨x, hx⟩ := hreplace interpolation (by simp) (fun _ => []) w
  use x
  simp only [stripMiddle, Function.comp_apply, hu, hv, hw, hx]

section Parting

variable {c : Char} (hc : IsMarkOrName c)

include hc

theorem notMem_lineFeeds (t : Text) :
  c ∉ lineFeeds t
  := by
  intro hmem
  have heq := List.of_mem_filter hmem
  exact hc.ne (by decide) (beq_iff_eq.mp heq)

theorem notMem_emptied (t : Text) :
  c ∉ emptied t
  := by
  have hdouble : c ≠ '"' := hc.ne (by decide)
  have hsingle : c ≠ '\'' := hc.ne (by decide)
  unfold emptied
  split
  · simp [hdouble]
  · simp [hsingle]
  · exact notMem_lineFeeds hc _

theorem parted_dropInnermost :
  Parted dropInnermost c
  := steady_callOrGroup.parted (fun _ => rfl) (notMem_lineFeeds hc)

/-- Taking the groups out parts a text at a character where no call starts. -/
theorem parts_dropGroups {t front back : Text} (h : dropGroups t = front ++ c :: back) :
  ∃ u v, t = u ++ c :: v ∧ dropGroups u = front ∧ dropGroups v = back
    ∧ callOrGroup none (c :: v) = none
  := by
  rw [dropGroups_eq_iterate (Nat.le_succ _), Function.iterate_succ_apply] at h
  obtain ⟨x, y, hxy, hx, hy⟩ := (parted_dropInnermost hc).iterate _ _ _ _ h
  obtain ⟨u, v, rfl, hu, hv, d, hnone⟩ :=
    steady_callOrGroup.parts_of_notMem (fun _ => rfl) (notMem_lineFeeds hc) hxy
  have hlength : u.length ≤ (u ++ c :: v).length + 1 ∧ v.length ≤ (u ++ c :: v).length + 1 := by
    simp only [List.length_append, List.length_cons]
    omega
  refine ⟨u, v, rfl, ?_, ?_, hnone⟩
  · rw [dropGroups_eq_iterate hlength.1, Function.iterate_succ_apply, dropInnermost, hu, hx]
  · rw [dropGroups_eq_iterate hlength.2, Function.iterate_succ_apply, dropInnermost, hv, hy]

theorem parted_stripMiddle :
  Parted stripMiddle c
  := by
  have hcomment : Parted (commentOrString.replace emptied) c :=
    steady_commentOrString.parted
      (commentOrString_before_of_ne (hc.ne (by decide)) (hc.ne (by decide))) (notMem_emptied hc)
  have hnone : ∀ {s : Shape}, s.Steady → (∀ u, s (some c) u = s none u) →
      Parted (s.replace fun _ => []) c :=
    fun hs hbefore => hs.parted hbefore fun _ => List.not_mem_nil
  have hdata := hnone steady_dataAddress fun _ => rfl
  have hnamespace := hnone steady_namespaceOrLink fun _ => rfl
  have hinterpolation := hnone steady_interpolation fun _ => rfl
  exact (hinterpolation.comp (hnamespace.comp hdata)).comp hcomment

/-- A call starts with each letter of what is written for an address. -/
theorem callOrGroup_address {before after : Text}
    (h : ['u', 'r', 'l', '(', ')'] = before ++ c :: after) :
  after ⊆ ['r', 'l', '(', ')'] ∧ ∀ rest, callOrGroup none (c :: (after ++ rest)) = some rest
  := by
  match before, h with
  | [], h =>
      obtain ⟨rfl, rfl⟩ := List.cons.inj h
      exact ⟨by simp, fun rest => rfl⟩
  | [_], h =>
      obtain ⟨rfl, rfl⟩ := List.cons.inj (List.cons.inj h).2
      exact ⟨by simp, fun rest => rfl⟩
  | [_, _], h =>
      obtain ⟨rfl, rfl⟩ := List.cons.inj (List.cons.inj (List.cons.inj h).2).2
      exact ⟨by simp, fun rest => rfl⟩
  | _ :: _ :: _ :: before, h =>
      -- a parenthesis is no character of a name
      have hrest : ['(', ')'] = before ++ c :: after :=
        (List.cons.inj (List.cons.inj (List.cons.inj h).2).2).2
      have hmem : c ∈ ['(', ')'] := hrest ▸ List.mem_append_right _ List.mem_cons_self
      have hopen : c ≠ '(' := hc.ne (by decide)
      have hclose : c ≠ ')' := hc.ne (by decide)
      simp [hopen, hclose] at hmem

/-- Cleaning parts a stylesheet at full stops and characters of names. -/
theorem parted_strip :
  Parted strip c
  := by
  have hstrip : ∀ t, strip t
      = dropGroups (stripMiddle (urlCall.replace (fun _ => ['u', 'r', 'l', '(', ')']) t)) := by
    intro t
    simp only [strip_eq_comp, stripMiddle, Function.comp_apply]
  have hbefore : ∀ u, urlCall (some c) u = urlCall none u := fun _ => rfl
  intro t front back ht
  rw [hstrip] at ht
  obtain ⟨x, y, hxy, hfront, hback, hnone⟩ := parts_dropGroups hc ht
  obtain ⟨u, v, huv, hu, hv⟩ := parted_stripMiddle hc _ x y hxy
  rcases steady_urlCall.parts hbefore huv with ⟨p, q, hpq, hp, hq, -⟩
    | ⟨construct, before, after, rest, hconstruct, hrest⟩
  · refine ⟨p, q, hpq, ?_, ?_⟩
    · rw [hstrip, hp, hu, hfront]
    · rw [hstrip, hq, hv, hback]
  · -- the rest of the address is still there when the groups go, so a call starts at the letter
    obtain ⟨hafter, hcall⟩ := callOrGroup_address hc hconstruct
    obtain ⟨w, hw⟩ := exists_stripMiddle_append hafter rest
    rw [← hv, hrest, hw, hcall] at hnone
    cases hnone

end Parting

theorem parted_attributeTest (c : Char) :
  Parted (attributeTest.replace fun _ => []) c
  := steady_attributeTest.parted (fun _ => rfl) fun _ => List.not_mem_nil

/-! ### Where a name stands -/

/-- A name behind a full stop of a text stands there. -/
theorem infix_of_mem_classTokens {name t : Text} (h : name ∈ classTokens t) :
  '.' :: name <:+: t
  := by
  induction t with
  | nil => cases h
  | cons c t ih =>
      rw [classTokens.eq_def] at h
      rcases List.mem_append.mp h with h | h
      · cases t with
        | nil => cases h
        | cons d rest =>
            simp only at h
            split at h
            · next hc =>
              rw [Bool.and_eq_true, decide_eq_true_eq] at hc
              obtain rfl := List.mem_singleton.mp h
              obtain rfl := hc.1
              apply List.IsPrefix.isInfix
              exact (List.prefix_cons_inj _).mpr
                ((List.prefix_cons_inj _).mpr (List.takeWhile_prefix isTokenRest))
            · cases h
      · exact (ih h).trans (List.suffix_cons c t).isInfix

theorem infix_of_mem_statementsOf {line t : Text} (h : line ∈ statementsOf t) :
  line <:+: t
  := by
  obtain ⟨whole, hwhole, hline⟩ := List.mem_flatMap.mp h
  have hinfix := List.infix_of_mem_flatten hline
  rw [cut, flatten_cutAlong] at hinfix
  exact hinfix.trans (infix_of_mem_splitOn hwhole)

/-- What a stylesheet defines under its own name stands behind a full stop where a selector of the
cleaned stylesheet has lost its attribute tests. -/
theorem exists_selector_of_mem_definedIn {t name : Text}
    (h : (name, Context.direct) ∈ definedIn t) :
  ClassName.Proper name ∧ ∃ selector, selector <:+: strip t
    ∧ '.' :: name <:+: attributeTest.replace (fun _ => []) selector
  := by
  rw [definedIn_eq_finds] at h
  obtain ⟨line, hline, scanner, following, r, hread, hentry⟩ := exists_read_of_mem_finds h
  obtain ⟨member, hmember, hname⟩ := of_mem_read hread hentry
  obtain ⟨-, htoken⟩ : Context.direct = .direct ∧ name ∈ Member.tokens member :=
    (of_mem_ofText hname).resolve_right fun hother => hother.1 rfl
  obtain ⟨piece, hpiece, rfl⟩ := List.mem_map.mp hmember
  refine ⟨Member.proper_of_mem_tokens htoken,
    trim ((trim line).takeWhile (· != '\x7b')), ?_, ?_⟩
  · calc trim ((trim line).takeWhile (· != '\x7b'))
      _ <:+: (trim line).takeWhile (· != '\x7b') := trim_isInfix _
      _ <:+: trim line := (List.takeWhile_prefix _).isInfix
      _ <:+: line := trim_isInfix line
      _ <:+: strip t := infix_of_mem_statementsOf hline
  · exact (infix_of_mem_classTokens (List.mem_of_mem_filter htoken)).trans
      ((trim_isInfix piece).trans (infix_of_mem_splitOn hpiece))

/-- Whether nothing is left of a text when it is cleaned and rid of attribute tests. -/
def Vanishes (t : Text) : Prop := attributeTest.replace (fun _ => []) (strip t) = []

instance : DecidablePred Vanishes := fun t =>
  inferInstanceAs (Decidable (attributeTest.replace (fun _ => []) (strip t) = []))

/-- Whether nothing that vanishes stands between two characters of a name, nor between a full stop
and a name. -/
def Unbroken (t : Text) : Prop :=
  ∀ c gap d, c :: (gap ++ [d]) <:+: t → IsMarkOrName c → ClassName.isNameChar d = true →
    Vanishes gap → gap = []

/-- A text that spells a name in an unbroken one is the name. -/
theorem Unbroken.eq_of_spells {t written name : Text} {c : Char} (h : Unbroken t)
    (hc : IsMarkOrName c) (hname : ∀ d ∈ name, ClassName.isNameChar d = true)
    (hwritten : c :: written <:+: t) (hspells : Spells Vanishes written name) :
  written = name
  := by
  induction hspells generalizing c with
  | nil => rfl
  | @cons gap written name d hgap _ ih =>
      obtain ⟨hd, hname⟩ := List.forall_mem_cons.mp hname
      have hstart : c :: (gap ++ [d]) <+: c :: (gap ++ d :: written) :=
        ⟨written, by simp⟩
      obtain rfl := h c gap d (hstart.isInfix.trans hwritten) hc hd hgap
      have hrest : d :: written <:+: t :=
        (List.suffix_cons c (d :: written)).isInfix.trans hwritten
      rw [List.nil_append, ih (.inr hd) hname hrest]

theorem Plain.unbroken {t : Text} (h : Plain t) (hbracket : '[' ∉ t) :
  Unbroken t
  := by
  intro c gap d hinfix _ _ hvanishes
  have hgap : gap ⊆ t := by
    intro e he
    exact hinfix.subset (List.mem_cons_of_mem c (List.mem_append_left [d] he))
  have hidle : attributeTest.Idle gap [] := by
    intro u hu before
    rw [List.append_nil]
    unfold attributeTest
    split
    · exact absurd (hgap (hu.subset List.mem_cons_self)) hbracket
    · rfl
  have hplain : Plain gap := fun e he => h e (hgap he)
  rwa [Vanishes, hplain.strip_eq, Shape.replace_of_idle hidle] at hvanishes

/-- A definition that is no element and no modifier is spelled behind a full stop of the stylesheet,
with nothing between the characters of its name but what vanishes; in an unbroken stylesheet its
name stands behind a full stop. -/
theorem spelled_of_mem_definitionsOf {t : Text} {file : String} {place : Path} {d : ClassDefinition}
    (h : d ∈ definitionsOf t file place) (hdirect : d.context = .direct) :
  (∃ front written back, t = front ++ '.' :: (written ++ back) ∧ Spells Vanishes written d.name)
    ∧ (Unbroken t → '.' :: d.name <:+: t)
  := by
  have hdefined := mem_definedIn_of_mem_definitionsOf h
  rw [hdirect] at hdefined
  obtain ⟨hproper, selector, ⟨before, after, hselector⟩, first, last, hname⟩ :=
    exists_selector_of_mem_definedIn hdefined
  have hchars : ∀ c ∈ d.name, IsMarkOrName c := fun c hc => .inr (hproper.isNameChar c hc)
  have hspelled : ∃ front written back, t = front ++ '.' :: (written ++ back)
      ∧ Spells Vanishes written d.name := by
    have hrefl : Spells (· = []) d.name d.name := @Spells.refl (· = []) rfl d.name
    -- the name in the selector with its attribute tests
    obtain ⟨x, y, rfl, -, hy⟩ := parted_attributeTest '.' selector first (d.name ++ last)
      (by rw [← hname, List.append_assoc, List.cons_append])
    obtain ⟨u, v, rfl, hu, -⟩ := hrefl.of_parted (fun c _ => parted_attributeTest c) hy
    -- the selector in the stylesheet with its noise
    obtain ⟨p, q, rfl, -, hq⟩ := parted_strip (c := '.') (.inl rfl) t (before ++ x)
      (u ++ (v ++ after)) (by rw [← hselector]; simp)
    obtain ⟨written, back, rfl, hwritten, -⟩ :=
      hu.of_parted (fun c hc => parted_strip (hchars c hc)) hq
    exact ⟨p, written, back, rfl, hwritten⟩
  refine ⟨hspelled, fun hunbroken => ?_⟩
  obtain ⟨front, written, back, rfl, hwritten⟩ := hspelled
  have hinfix : '.' :: written <:+: front ++ '.' :: (written ++ back) := ⟨front, back, by simp⟩
  rwa [← hunbroken.eq_of_spells (.inl rfl) hproper.isNameChar hinfix hwritten]

/-- A name that is broken by an interpolation is spelled across it; in a stylesheet without noise a
name stands as it is. -/
theorem spelled_of_mem_definitionsOf_broken :
  let d : ClassDefinition := ⟨"ac".toList, .high, .direct, "a.scss"⟩
  let e : ClassDefinition := ⟨"nav__item".toList, .medium, .direct, "a.scss"⟩
  let t := ".a#\x7b$b\x7dc \x7b \x7d".toList
  let u := ".nav__item \x7b color: red \x7d".toList
  (d ∈ definitionsOf t "a.scss" (Path.ofString "a.scss")
      ∧ ∃ front written back, t = front ++ '.' :: (written ++ back)
        ∧ Spells Vanishes written d.name)
    ∧ e ∈ definitionsOf u "a.scss" (Path.ofString "a.scss") ∧ Unbroken u ∧ '.' :: e.name <:+: u
  := by
  intro d e t u
  have hd : d ∈ definitionsOf t "a.scss" (Path.ofString "a.scss") := by decide +kernel
  have he : e ∈ definitionsOf u "a.scss" (Path.ofString "a.scss") := by decide +kernel
  have hplain : Plain u := by decide
  have hunbroken : Unbroken u := hplain.unbroken (by decide)
  exact ⟨⟨hd, (spelled_of_mem_definitionsOf hd rfl).1⟩, he, hunbroken,
    (spelled_of_mem_definitionsOf he rfl).2 hunbroken⟩

/-- Some definitions have names that stand behind no full stop of the stylesheet: what is left on
both sides of an interpolation, a comment, a call or an attribute test comes together. -/
theorem exists_definition_not_isInfix :
  (let t := ".a#\x7b$b\x7dc \x7b \x7d".toList;
    ∃ d ∈ definitionsOf t "a.scss" (Path.ofString "a.scss"),
      d.context = .direct ∧ ¬ '.' :: d.name <:+: t)
    ∧ (let t := ".a/**/c \x7b \x7d".toList;
      ∃ d ∈ definitionsOf t "a.scss" (Path.ofString "a.scss"),
        d.context = .direct ∧ ¬ '.' :: d.name <:+: t)
    ∧ (let t := ".a(x)c \x7b \x7d".toList;
      ∃ d ∈ definitionsOf t "a.scss" (Path.ofString "a.scss"),
        d.context = .direct ∧ ¬ '.' :: d.name <:+: t)
    ∧ (let t := ".a[x]c \x7b \x7d".toList;
      ∃ d ∈ definitionsOf t "a.scss" (Path.ofString "a.scss"),
        d.context = .direct ∧ ¬ '.' :: d.name <:+: t)
  := by
  decide +kernel

end Stylesheet

end StylePrune
