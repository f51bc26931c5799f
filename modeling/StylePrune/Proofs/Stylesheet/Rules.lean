import Mathlib.Data.List.Basic
import StylePrune.Proofs.Stylesheet.Enclosing
import StylePrune.Proofs.Stylesheet.Member
import StylePrune.Proofs.Stylesheet.Plain
import StylePrune.Proofs.Stylesheet.Rows

/-!
# Nested rules

A stylesheet of nested rules is a tree: each rule has a selector, which is a class name or a suffix
of the enclosing rule's name, and in its block stand declarations and further rules.  `Items` are
such trees and `Items.definitions` is what they define.  How a scanner reads the lines that such
a tree is written on does not depend on the blanks around them.
-/

namespace StylePrune.ClassName

/-- A class name starts with a letter. -/
theorem Proper.exists_cons {name : Text} (h : Proper name) :
  ∃ c t, name = c :: t ∧ c.isAlpha = true
  := by
  have hvalid := h.valid
  rw [isValid, Bool.and_eq_true, wellFormed, dropFinalLineFeed_eq_self h.line] at hvalid
  cases name with
  | nil => cases hvalid.1
  | cons c t =>
      use c, t, rfl
      exact (Bool.and_eq_true_iff.mp hvalid.1).1

end StylePrune.ClassName

namespace StylePrune.Stylesheet

open Text

/-! ### Trees -/

/-- A character of a declaration: a letter, a digit, a hyphen or a space. -/
def isDeclarationChar (c : Char) : Bool := c.isAlphanum || c == '-' || c == ' '

/-- A property with its value. -/
structure Declaration where
  property : Text
  value : Text
  property_chars : ∀ c ∈ property, isDeclarationChar c = true
  value_chars : ∀ c ∈ value, isDeclarationChar c = true

/-- A selector with one member: a class name, or the name of an element or a modifier of the
enclosing rule. -/
inductive Selector where
  | direct (name : Text) (proper : ClassName.Proper name)
  | suffix (context : Context) (name : Text) (marked : context ≠ .direct) (named : name ≠ [])
    (chars : ∀ c ∈ name, ClassName.isNameChar c = true)

/-- What stands in a block, or at the top of a stylesheet: declarations and rules, one after the
other. -/
inductive Items where
  | nil
  | declaration (d : Declaration) (rest : Items)
  | rule (s : Selector) (body rest : Items)

/-- A declaration as it is written. -/
def Declaration.text (d : Declaration) : Text := d.property ++ ':' :: ' ' :: d.value ++ [';']

namespace Selector

/-- A selector as it is written. -/
def text : Selector → Text
  | direct name _ => '.' :: name
  | suffix context name _ _ _ => '&' :: context.mark ++ name

/-- How the name of a rule is written. -/
def context : Selector → Context
  | direct _ _ => .direct
  | suffix context _ _ _ _ => context

/-- The name of a rule inside a rule with the given name. -/
def resolve (parent : Option Text) : Selector → Option Text
  | direct name _ => some name
  | suffix context name _ _ _ => parent.map (· ++ context.mark ++ name)

end Selector

/-- The names that rules define inside a rule with the given name, each rule before those in its
block. -/
def Items.definitions (parent : Option Text) : Items → List (Text × Context)
  | nil => []
  | declaration _ rest => rest.definitions parent
  | rule s body rest =>
    (s.resolve parent).toList.map (·, s.context) ++ body.definitions (s.resolve parent)
      ++ rest.definitions parent

/-! ### Characters -/

/-- The code points of letters and digits. -/
theorem toNat_of_isAlphanum {c : Char} (h : c.isAlphanum = true) :
  (48 ≤ c.toNat ∧ c.toNat ≤ 57) ∨ (65 ≤ c.toNat ∧ c.toNat ≤ 90) ∨ (97 ≤ c.toNat ∧ c.toNat ≤ 122)
  := by
  rcases Bool.or_eq_true_iff.mp h with h | h
  · rcases isAlpha_iff.mp h with h | h
    · exact .inr (.inl (isUpper_iff.mp h))
    · exact .inr (.inr (isLower_iff.mp h))
  · exact .inl (Char.isDigit_iff_toNat.mp h)

/-- No character of a name is blank. -/
theorem isBlank_of_isNameChar {c : Char} (h : ClassName.isNameChar c = true) :
  isBlank c = false
  := by
  simp only [ClassName.isNameChar, Bool.or_eq_true, beq_iff_eq] at h
  rcases h with (h | rfl) | rfl
  · have := toNat_of_isAlphanum h
    apply Bool.eq_false_iff.mpr
    simp only [isBlank, ne_eq, Bool.or_eq_true, Bool.and_eq_true, decide_eq_true_eq, beq_iff_eq]
    omega
  · rfl
  · rfl

/-- No blank ends a statement. -/
theorem endsStatement_of_isBlank {c : Char} (h : isBlank c = true) :
  endsStatement c = false
  := by
  apply Bool.eq_false_iff.mpr
  simp only [endsStatement, ne_eq, Bool.or_eq_true, beq_iff_eq]
  rintro ((rfl | rfl) | rfl)
  all_goals cases h

theorem isTokenRest_of_isNameChar {c : Char} (h : ClassName.isNameChar c = true) :
  isTokenRest c = true
  := by
  simp only [ClassName.isNameChar, Bool.or_eq_true, beq_iff_eq] at h
  rcases h with (h | rfl) | rfl
  · rw [isTokenRest, isWord_of_isAlphanum h, Bool.true_or]
  · rfl
  · rfl

namespace Declaration

/-- A declaration has only few characters. -/
theorem mem_text {d : Declaration} {c : Char} (h : c ∈ d.text) :
  c = ':' ∨ c = ';' ∨ isDeclarationChar c = true
  := by
  simp only [text, List.mem_append, List.mem_cons, List.not_mem_nil, or_false] at h
  rcases h with (h | rfl | rfl | h) | rfl
  · exact .inr (.inr (d.property_chars c h))
  · exact .inl rfl
  · exact .inr (.inr rfl)
  · exact .inr (.inr (d.value_chars c h))
  · exact .inr (.inl rfl)

theorem notMem_text (d : Declaration) {c : Char}
    (hc : (c == ':' || c == ';' || isDeclarationChar c) = false) :
  c ∉ d.text
  := by
  intro hmem
  simp only [Bool.or_eq_false_iff, beq_eq_false_iff_ne] at hc
  rcases mem_text hmem with h | h | h
  · exact hc.1.1 h
  · exact hc.1.2 h
  · rw [h] at hc
    cases hc.2

theorem plain_text (d : Declaration) :
  Plain d.text
  := by
  intro c hc hmark
  have hmarks : plainMarks.all (fun c => !(c == ':' || c == ';' || isDeclarationChar c)) = true :=
    rfl
  have hnot := List.all_eq_true.mp hmarks c hmark
  exact d.notMem_text ((Bool.not_eq_true' _).mp hnot) hc

/-- A declaration ends with the only end of a statement in it. -/
theorem exists_concat (d : Declaration) :
  ∃ t, d.text = t ++ [';'] ∧ (∀ c ∈ t, endsStatement c = false) ∧ '\n' ∉ t
  := by
  have hchar : ∀ c, isDeclarationChar c = true → endsStatement c = false ∧ c ≠ '\n' := by
    intro c hc
    constructor
    · apply Bool.eq_false_iff.mpr
      simp only [endsStatement, ne_eq, Bool.or_eq_true, beq_iff_eq]
      rintro ((rfl | rfl) | rfl)
      all_goals cases hc
    · rintro rfl
      cases hc
  use d.property ++ ':' :: ' ' :: d.value, rfl
  have hall : ∀ c ∈ d.property ++ ':' :: ' ' :: d.value, endsStatement c = false ∧ c ≠ '\n' := by
    intro c hc
    simp only [List.mem_append, List.mem_cons] at hc
    rcases hc with hc | rfl | rfl | hc
    · apply hchar c (d.property_chars c hc)
    · decide
    · decide
    · apply hchar c (d.value_chars c hc)
  constructor
  · intro c hc
    apply (hall c hc).1
  · intro hmem
    exact (hall _ hmem).2 rfl

end Declaration

namespace Selector

theorem isNameChar_mark (context : Context) :
  ∀ c ∈ context.mark, ClassName.isNameChar c = true
  := by
  cases context with
  | direct => exact List.all_eq_true.mp rfl
  | element => exact List.all_eq_true.mp rfl
  | modifier => exact List.all_eq_true.mp rfl

/-- A selector starts with a full stop or an ampersand, and goes on with the characters of a
name. -/
theorem exists_cons (s : Selector) :
  ∃ c t, s.text = c :: t ∧ (c = '.' ∨ c = '&') ∧ ∀ d ∈ t, ClassName.isNameChar d = true
  := by
  cases s with
  | direct name proper =>
      use '.', name, rfl, .inl rfl
      apply proper.isNameChar
  | suffix context name marked named chars =>
      use '&', context.mark ++ name, rfl, .inr rfl
      intro d hd
      rcases List.mem_append.mp hd with hd | hd
      · apply isNameChar_mark context d hd
      · apply chars d hd

theorem notMem_text (s : Selector) {c : Char}
    (hc : (c == '.' || c == '&' || ClassName.isNameChar c) = false) :
  c ∉ s.text
  := by
  obtain ⟨d, t, htext, hd, ht⟩ := s.exists_cons
  simp only [Bool.or_eq_false_iff, beq_eq_false_iff_ne] at hc
  rw [htext]
  intro hmem
  rcases List.mem_cons.mp hmem with rfl | hmem
  · rcases hd with hd | hd
    · exact hc.1.1 hd
    · exact hc.1.2 hd
  · rw [ht c hmem] at hc
    cases hc.2

theorem plain_text (s : Selector) :
  Plain s.text
  := by
  intro c hc hmark
  have hmarks : plainMarks.all (fun c => !(c == '.' || c == '&' || ClassName.isNameChar c))
      = true := rfl
  have hnot := List.all_eq_true.mp hmarks c hmark
  exact s.notMem_text ((Bool.not_eq_true' _).mp hnot) hc

theorem isBlank_of_mem_text (s : Selector) :
  ∀ c ∈ s.text, isBlank c = false
  := by
  obtain ⟨d, t, htext, hd, ht⟩ := s.exists_cons
  intro c hc
  rw [htext] at hc
  rcases List.mem_cons.mp hc with rfl | hc
  · rcases hd with rfl | rfl
    · rfl
    · rfl
  · apply isBlank_of_isNameChar (ht c hc)

/-- A selector has no end of a statement, nor have the blanks behind it. -/
theorem endsStatement_of_mem_text_append (s : Selector) {blanks : Text}
    (h : ∀ c ∈ blanks, isBlank c = true) :
  ∀ c ∈ s.text ++ blanks, endsStatement c = false
  := by
  intro c hc
  rcases List.mem_append.mp hc with hc | hc
  · apply Bool.eq_false_iff.mpr
    simp only [endsStatement, ne_eq, Bool.or_eq_true, beq_iff_eq]
    rintro ((rfl | rfl) | rfl)
    all_goals exact s.notMem_text (by decide) hc
  · apply endsStatement_of_isBlank (h c hc)

theorem lineFeed_notMem_text_append (s : Selector) {blanks : Text} (h : '\n' ∉ blanks) :
  '\n' ∉ s.text ++ blanks
  := by
  rw [List.mem_append, not_or]
  use s.notMem_text (by decide), h

/-- Nothing is trimmed off a selector with its brace. -/
theorem trim_text_brace (s : Selector) (blanks : Text) :
  trim (s.text ++ blanks ++ ['\x7b']) = s.text ++ blanks ++ ['\x7b']
  := by
  obtain ⟨c, t, htext, -, -⟩ := s.exists_cons
  have hc : isBlank c = false := s.isBlank_of_mem_text c (by rw [htext]; apply List.mem_cons_self)
  rw [trim_concat _ rfl, trimStart, htext, List.cons_append, List.dropWhile_cons_of_neg]
  simp [hc]

/-- Blanks around a selector are trimmed. -/
theorem trim_text_append (s : Selector) {blanks : Text} (h : ∀ c ∈ blanks, isBlank c = true) :
  trim (s.text ++ blanks) = s.text
  := by
  rw [trim_append_of_blank_right h, trim_of_forall_not s.isBlank_of_mem_text]

end Selector

/-! ### Members -/

theorem classTokens_of_notMem {t : Text} (h : '.' ∉ t) :
  classTokens t = []
  := by
  induction t with
  | nil => rfl
  | cons c t ih =>
      obtain ⟨hc, ht⟩ := not_or.mp (mt List.mem_cons.mpr h)
      rw [classTokens.eq_def]
      dsimp only
      rw [ih ht, List.append_nil]
      split
      · rw [if_neg]
        simp [Ne.symm hc]
      · rfl

/-- The name behind a full stop. -/
theorem tokens_of_proper {name : Text} (h : ClassName.Proper name) :
  Member.tokens ('.' :: name) = [name]
  := by
  obtain ⟨c, t, rfl, hc⟩ := h.exists_cons
  have hchars := h.isNameChar
  have hdot : '.' ∉ c :: t := by
    intro hmem
    cases hchars _ hmem
  have hrest : t.takeWhile isTokenRest = t := by
    apply List.takeWhile_eq_self_iff.mpr
    intro d hd
    apply isTokenRest_of_isNameChar (hchars d (List.mem_cons_of_mem c hd))
  have hstart : isTokenStart c = true := by
    rw [isTokenStart, hc]
    rfl
  have htokens : classTokens ('.' :: c :: t) = [c :: t] := by
    rw [classTokens, classTokens_of_notMem hdot, hstart, hrest]
    rfl
  rw [Member.tokens, htokens, List.filter_cons_of_pos h.valid]
  rfl

namespace Selector

/-- The name that a rule gives to those in its block is proper. -/
theorem properParent_resolve {parent : Option Text} (h : ProperParent parent) (s : Selector) :
  ProperParent (s.resolve parent)
  := by
  intro name hname
  cases s with
  | direct own proper =>
      obtain rfl := Option.some.inj hname
      exact proper
  | suffix context own marked named chars =>
      obtain ⟨p, hp, rfl⟩ := Option.map_eq_some_iff.mp hname
      apply (h p hp).extend marked chars

/-- A member defines the name that its rule resolves to. -/
theorem ofText_text {parent : Option Text} (h : ProperParent parent) (s : Selector) :
  Member.ofText parent s.text
    = { names := (s.resolve parent).toList.map (·, s.context), primary := s.resolve parent }
  := by
  cases s with
  | direct name proper =>
      have hsuffix : suffix? ('.' :: name) = none := rfl
      rw [text, Member.ofText_of_suffix?_eq_none hsuffix, tokens_of_proper proper]
      rfl
  | suffix context name marked named chars =>
      have htake : name.takeWhile ClassName.isNameChar = name :=
        List.takeWhile_eq_self_iff.mpr chars
      have hdrop : name.dropWhile ClassName.isNameChar = [] :=
        List.dropWhile_eq_nil_iff.mpr chars
      have hsuffix : suffix? ('&' :: context.mark ++ name) = some (context, name, []) := by
        cases context with
        | direct => exact absurd rfl marked
        | element =>
            have hafter : after? ('&' :: Context.element.mark)
                ('&' :: Context.element.mark ++ name) = some name := rfl
            simp only [suffix?, hafter, Option.bind_eq_bind, Option.bind_some, htake, hdrop,
              if_neg named]
            rfl
        | modifier =>
            have hother : after? ('&' :: Context.element.mark)
                ('&' :: Context.modifier.mark ++ name) = none := rfl
            have hafter : after? ('&' :: Context.modifier.mark)
                ('&' :: Context.modifier.mark ++ name) = some name := rfl
            simp only [suffix?, hother, hafter, Option.bind_eq_bind, Option.bind_some, htake, hdrop,
              if_neg named]
            rfl
      cases parent with
      | none =>
          rw [text, Member.ofText_none_of_suffix? hsuffix]
          rfl
      | some p =>
          rw [text, Member.ofText_some_of_suffix? hsuffix (h p rfl)]
          rfl

/-- A selector is read as one member, whether its brace stands on the line or not. -/
theorem ofLine?_text (s : Selector) {blanks v : Text} (hblanks : ∀ c ∈ blanks, isBlank c = true)
    (hv : v = [] ∨ v = ['\x7b']) (parent : Option Text) :
  Member.ofLine? (s.text ++ blanks ++ v) parent = some [Member.ofText parent s.text]
  := by
  obtain ⟨c, t, htext, hc, -⟩ := s.exists_cons
  have hbrace : ∀ d ∈ s.text ++ blanks, (d != '\x7b') = true := by
    intro d hd
    rw [bne_iff_ne]
    rintro rfl
    cases s.endsStatement_of_mem_text_append hblanks _ hd
  have hselector : Member.selectorOf (s.text ++ blanks ++ v) = s.text := by
    have htake : (s.text ++ blanks ++ v).takeWhile (· != '\x7b') = s.text ++ blanks := by
      rw [List.takeWhile_append_of_pos hbrace]
      rcases hv with rfl | rfl
      · apply List.append_nil
      · apply List.append_nil
    rw [Member.selectorOf, htake, s.trim_text_append hblanks,
      replace_attributeTest (s.notMem_text (by decide))]
  have hmembers : ((splitOn ',' s.text).map trim).filter (· != []) = [s.text] := by
    have htrim : trim s.text = s.text := trim_of_forall_not s.isBlank_of_mem_text
    rw [splitOn_of_notMem (s.notMem_text (by decide)), List.map_singleton, htrim,
      List.filter_cons_of_pos]
    · rfl
    · rw [htext]
      rfl
  have hend : (trim (s.text ++ blanks ++ v)).getLast? ≠ some ';' := by
    intro hlast
    have hmem := mem_of_mem_trim (List.mem_of_getLast? hlast)
    simp only [List.mem_append] at hmem
    rcases hmem with (hmem | hmem) | hmem
    · exact s.notMem_text (by decide) hmem
    · cases hblanks _ hmem
    · rcases hv with rfl | rfl
      · cases hmem
      · cases List.mem_singleton.mp hmem
  rw [htext, List.cons_append, List.cons_append] at hselector hend ⊢
  rw [Member.ofLine?, if_neg, if_neg, hselector, ← htext]
  · dsimp only
    rw [hmembers]
    rfl
  · rw [Bool.and_eq_true, beq_iff_eq]
    rintro ⟨-, hlast⟩
    exact hend hlast
  · rcases hc with rfl | rfl
    · decide
    · decide

end Selector

/-! ### Lines -/

namespace Scanner

/-- A line that starts neither a selector nor a block says nothing. -/
theorem read_of_trim_eq_cons (s : Scanner) {line : Text} {c : Char} {t : Text}
    (h : trim line = c :: t) (hc : c ∉ ['.', '&', '@', '\x7b']) (following : List Text) :
  s.read line following = some { text := trim line }
  := by
  simp only [List.mem_cons, List.not_mem_nil, or_false, not_or] at hc
  obtain ⟨hdot, hand, hat, hbrace⟩ := hc
  rw [read, h]
  simp only [if_neg hat, if_neg hbrace, Member.ofLine?]
  rw [if_pos]
  simp [hdot, hand]

/-- A declaration says nothing. -/
theorem read_declaration (s : Scanner) (d : Declaration) {line : Text}
    (h : trim line = trim d.text) (following : List Text) :
  s.read line following = some { text := trim d.text }
  := by
  have hne : trim d.text ≠ [] := by
    intro hnil
    have hcount := count_trim (c := ':') rfl d.text
    rw [hnil, eq_comm, List.count_nil, List.count_eq_zero] at hcount
    apply hcount
    simp [Declaration.text]
  obtain ⟨c, t, htrim⟩ := List.exists_cons_of_ne_nil hne
  have hmem : c ∈ d.text := by
    apply mem_of_mem_trim
    rw [htrim]
    apply List.mem_cons_self
  rw [← h] at htrim ⊢
  apply s.read_of_trim_eq_cons htrim
  intro hc
  have hchars : ['.', '&', '@', '\x7b'].all
      (fun c => !(c == ':' || c == ';' || isDeclarationChar c)) = true := rfl
  have hnot := List.all_eq_true.mp hchars c hc
  exact d.notMem_text ((Bool.not_eq_true' _).mp hnot) hmem

/-- The brace on a line of its own opens the block of the rule that is pending. -/
theorem read_brace (s : Scanner) {line : Text} (h : trim line = ['\x7b']) (following : List Text) :
  s.read line following = some { text := ['\x7b'], opener := s.pending }
  := by
  rw [← read_trim, h]
  rfl

theorem read_closing (s : Scanner) {line : Text} (h : trim line = ['\x7d'])
    (following : List Text) :
  s.read line following = some { text := ['\x7d'] }
  := by
  rw [← read_trim, h]
  rfl

variable {b : OpenBlocks} (hparent : ProperParent b.top) (s : Selector)

include hparent

/-- The name that a selector gives to its block is that of its rule. -/
theorem primary_text :
  primary [Member.ofText b.top s.text] = s.resolve b.top
  := by
  rw [primary, s.ofText_text hparent]
  cases s.resolve b.top with
  | none => rfl
  | some name => rfl

/-- A selector with its brace defines the name of its rule, and its block is that of the rule. -/
theorem read_rule {blanks line : Text} (h : ∀ c ∈ blanks, isBlank c = true)
    (hline : trim line = s.text ++ blanks ++ ['\x7b']) (following : List Text) :
  (⟨b, none⟩ : Scanner).read line following
    = some { text := s.text ++ blanks ++ ['\x7b'], members := some [Member.ofText b.top s.text]
             opener := s.resolve b.top }
  := by
  obtain ⟨c, t, htext, hc, -⟩ := s.exists_cons
  have hat : c ≠ '@' := by
    rcases hc with rfl | rfl <;> decide
  have hmembers := s.ofLine?_text h (.inr rfl) (⟨b, none⟩ : Scanner).parent
  have hcontains : (s.text ++ blanks ++ ['\x7b']).contains '\x7b' = true := by
    simp
  rw [read, hline]
  rw [htext, List.cons_append, List.cons_append] at hmembers hcontains ⊢
  simp only [if_neg hat, hmembers, hcontains, if_true]
  rw [← htext, ← primary_text hparent s]
  rfl

/-- A selector whose brace stands further down hands the name of its rule on. -/
theorem read_rule_of_continues {blanks : Text} (h : ∀ c ∈ blanks, isBlank c = true)
    {following : List Text} (hcontinues : continues following = true) :
  (⟨b, none⟩ : Scanner).read (s.text ++ blanks) following
    = some { text := s.text, members := some [Member.ofText b.top s.text]
             carry := s.resolve b.top }
  := by
  obtain ⟨c, t, htext, hc, -⟩ := s.exists_cons
  have hat : c ≠ '@' := by
    rcases hc with rfl | rfl <;> decide
  have hnone : ∀ d ∈ ([] : Text), isBlank d = true := by
    rintro d ⟨⟩
  have hmembers := s.ofLine?_text hnone (.inl rfl) (⟨b, none⟩ : Scanner).parent
  rw [List.append_nil, List.append_nil] at hmembers
  have hcontains : ¬ s.text.contains '\x7b' = true := by
    rw [List.contains_iff_mem]
    apply s.notMem_text (by decide)
  rw [read, s.trim_text_append h]
  rw [htext] at hmembers hcontains ⊢
  simp only [if_neg hat, hmembers, if_neg hcontains, hcontinues, Bool.or_true, if_true]
  rw [← htext, ← primary_text hparent s]
  simp only [Option.orElse_eq_orElse, Option.orElse_eq_or, Option.or_none]
  rfl

end Scanner

/-! ### Open blocks -/

namespace OpenBlocks

/-- Where the block that was opened last is closed, the blocks around it are as they were. -/
theorem Sound.closed_opened {b : OpenBlocks} (h : b.Sound) (opener : Option Text) :
  (b.opened opener).closed = b
  := by
  have hwithin : within b.depth b.frames = b.frames := by
    cases hframes : b.frames with
    | nil => rfl
    | cons f frames =>
        rw [within_cons_of_le]
        apply h f
        rw [hframes]
        apply List.mem_cons_self
  have hclosed : (b.opened opener).closed
      = { frames := within b.depth (b.opened opener).frames, depth := b.depth } := by
    rw [closed, depth_opened, if_neg (Nat.succ_ne_zero _)]
    rfl
  rw [hclosed]
  cases opener with
  | none =>
      change OpenBlocks.mk (within b.depth b.frames) b.depth = b
      rw [hwithin]
  | some name =>
      change OpenBlocks.mk (within b.depth (⟨name, b.depth + 1⟩ :: b.frames)) b.depth = b
      rw [within_cons_of_lt (Nat.lt_succ_self _), hwithin]

/-- The brace behind a selector opens a block. -/
theorem feed_rule (b : OpenBlocks) (opener : Option Text) (s : Selector) {blanks : Text}
    (h : ∀ c ∈ blanks, isBlank c = true) :
  b.feed opener (s.text ++ blanks ++ ['\x7b']) = b.opened opener
  := by
  have hends := s.endsStatement_of_mem_text_append h
  rw [feed_append]
  · rfl
  · intro hmem
    cases hends _ hmem
  · intro hmem
    cases hends _ hmem

/-- A text without braces leaves the open blocks as they are. -/
theorem feed_of_notMem {t : Text} (hopen : '\x7b' ∉ t) (hclose : '\x7d' ∉ t) (b : OpenBlocks)
    (opener : Option Text) :
  b.feed opener t = b
  := by
  rw [← List.append_nil t, feed_append hopen hclose]
  rfl

theorem feed_declaration (b : OpenBlocks) (d : Declaration) :
  b.feed none (trim d.text) = b
  := by
  apply feed_of_notMem
  · exact mt mem_of_mem_trim (d.notMem_text (by decide))
  · exact mt mem_of_mem_trim (d.notMem_text (by decide))

end OpenBlocks

/-- In the block of a rule suffixes extend the name of the rule. -/
theorem Selector.top_opened (s : Selector) (b : OpenBlocks) :
  (b.opened (s.resolve b.top)).top = s.resolve b.top
  := by
  rw [OpenBlocks.top_opened]
  cases s with
  | direct name proper => rfl
  | suffix context name marked named chars =>
      cases htop : b.top with
      | none => rfl
      | some p => rfl

end StylePrune.Stylesheet
