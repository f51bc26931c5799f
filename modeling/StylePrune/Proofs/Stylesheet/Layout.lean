import StylePrune.Proofs.Stylesheet.Rules
import StylePrune.Proofs.Stylesheet.Statements

/-!
# The layout of nested rules

Blanks and line feeds in front of a brace, behind it and behind a declaration do not matter: however
a tree of rules is laid out, the stylesheet defines the names of its rules, each rule before those
in its block.
-/

namespace StylePrune.Stylesheet

open Text

/-- The texts that a tree may be written as, with any blanks around its braces and behind its
declarations. -/
inductive Layout : Items → Text → Prop
  | nil : Layout .nil []
  | declaration (d : Declaration) {rest : Items} {gap t : Text}
      (gap_blank : ∀ c ∈ gap, isBlank c = true) (behind : Layout rest t) :
      Layout (.declaration d rest) (d.text ++ (gap ++ t))
  | rule (s : Selector) {body rest : Items} {before inside ahead behind t u : Text}
      (before_blank : ∀ c ∈ before, isBlank c = true)
      (inside_blank : ∀ c ∈ inside, isBlank c = true)
      (ahead_blank : ∀ c ∈ ahead, isBlank c = true)
      (behind_blank : ∀ c ∈ behind, isBlank c = true)
      (block : Layout body t) (others : Layout rest u) :
      Layout (.rule s body rest)
        (s.text ++ (before ++ '\x7b' :: (inside ++ (t ++ (ahead ++ '\x7d' :: (behind ++ u))))))

/-- However it is laid out, a tree is written without noise. -/
theorem Layout.plain {items : Items} {t : Text} (h : Layout items t) :
  Plain t
  := by
  induction h with
  | nil =>
      rintro c ⟨⟩
  | declaration d hgap _ ih =>
      apply d.plain_text.append
      apply (Plain.of_blank hgap).append ih
  | rule s hbefore hinside hahead hbehind _ _ ihblock ihothers =>
      apply s.plain_text.append
      apply (Plain.of_blank hbefore).append
      apply Plain.cons (by decide)
      apply (Plain.of_blank hinside).append
      apply ihblock.append
      apply (Plain.of_blank hahead).append
      apply Plain.cons (by decide)
      apply (Plain.of_blank hbehind).append ihothers

/-! ### Gaps -/

/-- A character that ends neither a statement nor a line belongs to the statement behind it. -/
theorem statementsOf_cons {c : Char} (hc : endsStatement c = false) (hline : c ≠ '\n') (t : Text) :
  ∃ p ps, statementsOf t = p :: ps ∧ statementsOf (c :: t) = (c :: p) :: ps
  := by
  obtain ⟨l, ls, ht, hct⟩ := splitOn_cons_of_ne hline t
  obtain ⟨p, ps, hp⟩ := List.exists_cons_of_ne_nil (cutAlong_ne_nil l l)
  use p, ps ++ ls.flatMap cut
  rw [statementsOf, statementsOf, lines, lines, ht, hct, List.flatMap_cons, List.flatMap_cons, cut,
    cut, hp, cutAlong, hc, hp]
  exact ⟨rfl, rfl⟩

/-- Blanks in front of statements change none of them but for blanks. -/
theorem solids_statementsOf_append {gap : Text} (h : ∀ c ∈ gap, isBlank c = true) (t : Text) :
  solids (statementsOf (gap ++ t)) = solids (statementsOf t)
  := by
  induction gap with
  | nil => rfl
  | cons c gap ih =>
      obtain ⟨hc, hgap⟩ := List.forall_mem_cons.mp h
      rw [← ih hgap, List.cons_append]
      by_cases hline : c = '\n'
      · have hstatements := statementsOf_append_lineFeed (p := []) (by rintro d ⟨⟩)
          List.not_mem_nil (gap ++ t)
        rw [List.nil_append] at hstatements
        rw [hline, hstatements, solids_cons_of_blank rfl]
      · obtain ⟨p, ps, hp, hcp⟩ :=
          statementsOf_cons (endsStatement_of_isBlank hc) hline (gap ++ t)
        have htrim : trim (c :: p) = trim p := by
          rw [← List.singleton_append, trim_append_of_blank]
          intro d hd
          obtain rfl := List.mem_singleton.mp hd
          exact hc
        rw [hp, hcp, solids, solids, List.map_cons, List.map_cons, htrim]

theorem statementsOf_brace_cons {d : Char} (hd : endsStatement d = true) (t : Text) :
  statementsOf (d :: t) = [d] :: statementsOf t
  := statementsOf_append_end (by rintro c ⟨⟩) List.not_mem_nil hd t

namespace Scanner

theorem finds_gap (s : Scanner) {gap : Text} (h : ∀ c ∈ gap, isBlank c = true) (t : Text) :
  s.finds (statementsOf (gap ++ t)) = s.finds (statementsOf t)
  := finds_congr (solids_statementsOf_append h t) s

/-! ### Declarations and rules -/

theorem finds_declaration (b : OpenBlocks) (d : Declaration) (t : Text) :
  (⟨b, none⟩ : Scanner).finds (statementsOf (d.text ++ t))
    = (⟨b, none⟩ : Scanner).finds (statementsOf t)
  := by
  obtain ⟨p, htext, hends, hline⟩ := d.exists_concat
  have hread := (⟨b, none⟩ : Scanner).read_declaration d rfl (statementsOf t)
  have hstatements : statementsOf (d.text ++ t) = d.text :: statementsOf t := by
    rw [htext, List.append_assoc]
    exact statementsOf_append_end hends hline rfl t
  rw [hstatements, finds_cons_of_some hread, advance, OpenBlocks.feed_declaration]
  rfl

/-- The closing brace ends the block. -/
theorem finds_closing (b : OpenBlocks) (t : Text) :
  (⟨b, none⟩ : Scanner).finds (statementsOf ('\x7d' :: t))
    = (⟨b.closed, none⟩ : Scanner).finds (statementsOf t)
  := by
  have htrim : trim ['\x7d'] = ['\x7d'] := rfl
  have hread := (⟨b, none⟩ : Scanner).read_closing htrim (statementsOf t)
  rw [statementsOf_brace_cons rfl, finds_cons_of_some hread]
  rfl

section Rule

variable {b : OpenBlocks} (hparent : ProperParent b.top) (s : Selector) {gap : Text}

include hparent

/-- A rule whose brace stands on the line of its selector defines its name. -/
theorem finds_rule_of_notMem (h : ∀ c ∈ gap, isBlank c = true) (hline : '\n' ∉ gap) (t : Text) :
  (⟨b, none⟩ : Scanner).finds (statementsOf (s.text ++ (gap ++ '\x7b' :: t)))
    = (Member.ofText b.top s.text).names
      ++ (⟨b.opened (s.resolve b.top), none⟩ : Scanner).finds (statementsOf t)
  := by
  have hstatements : statementsOf (s.text ++ (gap ++ '\x7b' :: t))
      = (s.text ++ gap ++ ['\x7b']) :: statementsOf t := by
    rw [← List.append_assoc]
    exact statementsOf_append_end (s.endsStatement_of_mem_text_append h)
      (s.lineFeed_notMem_text_append hline) rfl t
  rw [hstatements, finds_cons_of_some (read_rule hparent s h (s.trim_text_brace gap) _), advance,
    OpenBlocks.feed_rule b _ s h]
  simp [Reading.definitions]

/-- A rule whose brace stands further down defines its name as well. -/
theorem finds_rule_lineFeed (h : ∀ c ∈ gap, isBlank c = true) (hline : '\n' ∉ gap) {gap' : Text}
    (h' : ∀ c ∈ gap', isBlank c = true) (t : Text) :
  (⟨b, none⟩ : Scanner).finds (statementsOf (s.text ++ (gap ++ '\n' :: (gap' ++ '\x7b' :: t))))
    = (Member.ofText b.top s.text).names
      ++ (⟨b.opened (s.resolve b.top), none⟩ : Scanner).finds (statementsOf t)
  := by
  have hstatements : statementsOf (s.text ++ (gap ++ '\n' :: (gap' ++ '\x7b' :: t)))
      = (s.text ++ gap) :: statementsOf (gap' ++ '\x7b' :: t) := by
    rw [← List.append_assoc]
    exact statementsOf_append_lineFeed (s.endsStatement_of_mem_text_append h)
      (s.lineFeed_notMem_text_append hline) _
  have hsolids : solids (statementsOf (gap' ++ '\x7b' :: t))
      = solids (['\x7b'] :: statementsOf t) := by
    rw [solids_statementsOf_append h', statementsOf_brace_cons rfl]
  -- the brace is what the scanner sees when it looks ahead from the selector
  have hcontinues : continues (statementsOf (gap' ++ '\x7b' :: t)) = true := by
    rw [continues_eq, hsolids]
    rfl
  have hfeed : b.feed none s.text = b :=
    OpenBlocks.feed_of_notMem (s.notMem_text (by decide)) (s.notMem_text (by decide)) b none
  have htrim : trim ['\x7b'] = ['\x7b'] := rfl
  have hbrace := (⟨b, s.resolve b.top⟩ : Scanner).read_brace htrim (statementsOf t)
  rw [hstatements, finds_cons_of_some (read_rule_of_continues hparent s h hcontinues), advance,
    hfeed, finds_congr hsolids]
  dsimp only
  rw [finds_cons_of_some hbrace]
  simp [Reading.definitions, advance, OpenBlocks.feed]

/-- Up to its opening brace a rule defines its name, on whichever line the brace stands. -/
theorem finds_rule (h : ∀ c ∈ gap, isBlank c = true) (t : Text) :
  (⟨b, none⟩ : Scanner).finds (statementsOf (s.text ++ (gap ++ '\x7b' :: t)))
    = (s.resolve b.top).toList.map (·, s.context)
      ++ (⟨b.opened (s.resolve b.top), none⟩ : Scanner).finds (statementsOf t)
  := by
  have hnames : (Member.ofText b.top s.text).names
      = (s.resolve b.top).toList.map (·, s.context) := by
    rw [s.ofText_text hparent]
  rw [← hnames]
  by_cases hline : '\n' ∈ gap
  · obtain ⟨g, g', rfl, hg⟩ := List.eq_append_cons_of_mem hline
    obtain ⟨hblank, hblank'⟩ := List.forall_mem_append.mp h
    rw [List.append_assoc, List.cons_append]
    apply finds_rule_lineFeed hparent s hblank hg (List.forall_mem_cons.mp hblank').2
  · apply finds_rule_of_notMem hparent s h hline

end Rule

end Scanner

/-! ### Trees -/

/-- However a tree is laid out, a scanner finds the names of its rules in it and goes on behind it
as if it were not there. -/
theorem Layout.finds_append {items : Items} {t : Text} (h : Layout items t) {b : OpenBlocks}
    (hb : b.Sound) (hparent : ProperParent b.top) (u : Text) :
  (⟨b, none⟩ : Scanner).finds (statementsOf (t ++ u))
    = items.definitions b.top ++ (⟨b, none⟩ : Scanner).finds (statementsOf u)
  := by
  induction h generalizing b u with
  | nil => rfl
  | declaration d hgap _ ih =>
      rw [List.append_assoc, List.append_assoc, Scanner.finds_declaration,
        Scanner.finds_gap _ hgap, ih hb hparent, Items.definitions]
  | rule s hbefore hinside hahead hbehind _ _ ihblock ihothers =>
      have htop : (b.opened (s.resolve b.top)).top = s.resolve b.top := s.top_opened b
      have hinner : ProperParent (b.opened (s.resolve b.top)).top := by
        rw [htop]
        apply s.properParent_resolve hparent
      simp only [List.append_assoc, List.cons_append]
      rw [Scanner.finds_rule hparent s hbefore, Scanner.finds_gap _ hinside,
        ihblock (hb.opened _) hinner, htop, Scanner.finds_gap _ hahead, Scanner.finds_closing,
        hb.closed_opened, Scanner.finds_gap _ hbehind, ihothers hb hparent, Items.definitions]
      simp only [List.append_assoc]

/-- The first entry for each name is what is left where later entries for a name are dropped. -/
theorem firstByName_eq (seen : List Text) (entries : List (Text × Context)) :
  firstByName seen entries
    = (entries.filter fun e => !seen.contains e.1).eraseDupsBy fun a b => a.1 == b.1
  := by
  induction entries generalizing seen with
  | nil => rfl
  | cons entry rest ih =>
      obtain ⟨name, context⟩ := entry
      rw [firstByName, ih, ih]
      split
      · next h => rw [List.filter_cons_of_neg (by simpa using h)]
      · next h =>
        rw [List.filter_cons_of_pos (by simpa using h), List.eraseDupsBy_cons, List.filter_filter]
        congr 2
        apply List.filter_congr
        intro e _
        simp [Bool.not_or]

/-- Whatever its layout, a stylesheet of nested rules defines the names of its rules in the order in
which they stand, later repeats dropped, each as it is first written. -/
theorem definitionsOf_layout {items : Items} {t : Text} (h : Layout items t) (file : String)
    (place : Path) :
  (definitionsOf t file place).map (fun d => (d.name, d.context))
    = (items.definitions none).eraseDupsBy fun a b => a.1 == b.1
  := by
  have hfinds := h.finds_append (b := {}) OpenBlocks.sound_empty (by rintro name ⟨⟩) []
  rw [List.append_nil] at hfinds
  have hdefined : definedIn t = items.definitions none := by
    rw [definedIn_eq_finds, h.plain.strip_eq]
    apply hfinds.trans
    apply List.append_nil
  rw [definitionsOf, List.map_map, hdefined, firstByName_eq, List.filter_eq_self.mpr]
  · apply List.map_id
  · intro e _
    rfl

/-- Braces two lines below their selectors, on the line of the next one, and none at all between. -/
theorem definitionsOf_layout_nested :
  let a := Selector.direct ['a'] ⟨by decide, by decide⟩;
  let b := Selector.suffix .element ['b'] (by decide) (by decide) (List.all_eq_true.mp rfl);
  let c := Selector.suffix .modifier ['c'] (by decide) (by decide) (List.all_eq_true.mp rfl);
  let d : Declaration := ⟨['x'], ['y'], List.all_eq_true.mp rfl, List.all_eq_true.mp rfl⟩;
  let items := Items.rule a (.rule b (.declaration d (.rule c .nil .nil)) .nil) (.rule a .nil .nil);
  let t := ".a\t\n\n \x7b&__b\x7bx: y;\n&--c\n\x7b \x7d\x7d\n\x7d\n.a\x7b\x7d".toList;
  Layout items t
    ∧ (definitionsOf t "a.scss" (Path.ofString "a.scss")).map (fun d => (d.name, d.context))
      = [("a".toList, .direct), ("a__b".toList, .element), ("a__b--c".toList, .modifier)]
  := by
  intro a b c d items t
  have hblank : ∀ gap : Text, gap.all isBlank = true → ∀ c ∈ gap, isBlank c = true := by
    intro gap
    exact List.all_eq_true.mp
  have hc : Layout (.rule c .nil .nil) _ := .rule c (hblank ['\n'] rfl) (hblank [' '] rfl)
    (hblank [] rfl) (hblank [] rfl) .nil .nil
  have hd : Layout (.declaration d (.rule c .nil .nil)) _ := .declaration d (hblank ['\n'] rfl) hc
  have hb := Layout.rule b (hblank [] rfl) (hblank [] rfl) (hblank [] rfl) (hblank ['\n'] rfl) hd
    .nil
  have ha := Layout.rule a (hblank [] rfl) (hblank [] rfl) (hblank [] rfl) (hblank [] rfl)
    .nil .nil
  have ht : Layout items t := .rule a (hblank ['\t', '\n', '\n', ' '] rfl) (hblank [] rfl)
    (hblank [] rfl) (hblank ['\n'] rfl) hb ha
  use ht
  rw [definitionsOf_layout ht]
  rfl

end StylePrune.Stylesheet
