import StylePrune.Proofs.Prune.Blocks
import StylePrune.Proofs.Prune.LoneLines
import StylePrune.Proofs.Prune.Untouched
import StylePrune.Proofs.Stylesheet.Rules

/-!
# Pruning

On a stylesheet of nested rules, each selector, declaration and closing brace on a line of its own,
a removal is pruning: it cuts the rules of the given names out of the tree, each with all that is
in its block, and writes what is left as if nothing else had ever been there.
-/

namespace StylePrune.Stylesheet

open Text

/-! ### Trees on lines -/

/-- The blanks in front of a line inside so many blocks. -/
def indent (level : Nat) : Text := List.replicate (2 * level) ' '

/-- The line of a selector with its brace. -/
def Selector.line (level : Nat) (s : Selector) : Text :=
  indent level ++ (s.text ++ [' '] ++ ['\x7b'])

/-- The line of a declaration. -/
def Declaration.line (level : Nat) (d : Declaration) : Text := indent level ++ d.text

/-- The line of a closing brace. -/
def closingLine (level : Nat) : Text := indent level ++ ['\x7d']

namespace Items

/-- The lines that a tree is written on inside so many blocks. -/
def linesAt (level : Nat) : Items → List Text
  | nil => []
  | declaration d rest => d.line level :: rest.linesAt level
  | rule s body rest =>
    s.line level :: body.linesAt (level + 1) ++ closingLine level :: rest.linesAt level

/-- The lines of a stylesheet of nested rules, with a line feed behind the last one or without. -/
def lines (lineFeed : Bool) (items : Items) : List Text :=
  items.linesAt 0 ++ if lineFeed then [[]] else []

/-- A stylesheet of nested rules. -/
def render (lineFeed : Bool) (items : Items) : Text := ofLines (items.lines lineFeed)

end Items

/-! ### Cutting rules -/

/-- The name of a rule if the rule is to go. -/
def Selector.target? (names : List Text) (parent : Option Text) (s : Selector) : Option Text :=
  (s.resolve parent).filter names.contains

namespace Items

/-- The tree without the rules of the given names and all that is in their blocks. -/
def prune (names : List Text) (parent : Option Text) : Items → Items
  | nil => nil
  | declaration d rest => declaration d (rest.prune names parent)
  | rule s body rest =>
    match s.target? names parent with
    | some _ => rest.prune names parent
    | none => rule s (body.prune names (s.resolve parent)) (rest.prune names parent)

/-- The names of the rules that are cut, those left out that go with a rule around them. -/
def cutNames (names : List Text) (parent : Option Text) : Items → List Text
  | nil => []
  | declaration _ rest => rest.cutNames names parent
  | rule s body rest =>
    match s.target? names parent with
    | some name => name :: rest.cutNames names parent
    | none => body.cutNames names (s.resolve parent) ++ rest.cutNames names parent

/-- Where no rule is cut the tree stays as it is. -/
theorem prune_eq_self {names : List Text} {parent : Option Text} {items : Items}
    (h : items.cutNames names parent = []) :
  items.prune names parent = items
  := by
  induction items generalizing parent with
  | nil => rfl
  | declaration d rest ih =>
      rw [cutNames] at h
      rw [prune, ih h]
  | rule s body rest ihbody ihrest =>
      rw [cutNames] at h
      rw [prune]
      split at h
      · cases h
      · obtain ⟨hbody, hrest⟩ := List.append_eq_nil_iff.mp h
        rw [ihbody hbody, ihrest hrest]

theorem cutNames_nil (parent : Option Text) (items : Items) :
  items.cutNames [] parent = []
  := by
  induction items generalizing parent with
  | nil => rfl
  | declaration d rest ih => exact ih parent
  | rule s body rest ihbody ihrest =>
      have htarget : s.target? [] parent = none := by
        rw [Selector.target?]
        cases s.resolve parent with
        | none => rfl
        | some name => rfl
      rw [cutNames, htarget]
      dsimp only
      rw [ihbody, ihrest, List.append_nil]

end Items

/-! ### Characters of the lines -/

theorem isBlank_of_mem_indent {level : Nat} :
  ∀ c ∈ indent level, isBlank c = true
  := by
  intro c hc
  obtain rfl := List.eq_of_mem_replicate hc
  rfl

theorem notMem_indent {c : Char} (hc : c ≠ ' ') (level : Nat) :
  c ∉ indent level
  := by
  intro hmem
  exact hc (List.eq_of_mem_replicate hmem)

theorem endsStatement_of_mem_indent {level : Nat} :
  ∀ c ∈ indent level, endsStatement c = false
  := by
  intro c hc
  apply endsStatement_of_isBlank (isBlank_of_mem_indent c hc)

/-- What stands between a selector and its brace is blank. -/
theorem isBlank_of_mem_space :
  ∀ c ∈ [' '], isBlank c = true
  := by
  intro c hc
  obtain rfl := List.mem_singleton.mp hc
  rfl

theorem Selector.trim_line (level : Nat) (s : Selector) :
  trim (s.line level) = s.text ++ [' '] ++ ['\x7b']
  := (trim_append_of_blank isBlank_of_mem_indent _).trans (s.trim_text_brace [' '])

theorem plain_indent (level : Nat) :
  Plain (indent level)
  := Plain.of_blank isBlank_of_mem_indent

end StylePrune.Stylesheet

namespace StylePrune.Prune

open Text Stylesheet

/-! ### Lone lines -/

theorem lone_declaration (level : Nat) (d : Declaration) :
  Lone (d.line level)
  := by
  obtain ⟨t, htext, hends, hline⟩ := d.exists_concat
  have hwritten : d.line level = (indent level ++ t) ++ [';'] := by
    rw [Declaration.line, htext, List.append_assoc]
  rw [hwritten]
  apply Lone.concat
  · rw [← hwritten]
    apply (plain_indent level).append d.plain_text
  · rw [List.mem_append, not_or]
    use notMem_indent (by decide) level, hline
  · exact List.forall_mem_append.mpr ⟨endsStatement_of_mem_indent, hends⟩
  · rfl

theorem lone_selector (level : Nat) (s : Selector) :
  Lone (s.line level)
  := by
  rw [Selector.line, ← List.append_assoc]
  apply Lone.concat
  · apply ((plain_indent level).append (s.plain_text.append _)).append
    · apply Plain.cons (by decide)
      rintro c ⟨⟩
    · apply Plain.of_blank isBlank_of_mem_space
  · simp only [List.mem_append, not_or]
    use notMem_indent (by decide) level, s.notMem_text (by decide)
    decide
  · exact List.forall_mem_append.mpr
      ⟨endsStatement_of_mem_indent, s.endsStatement_of_mem_text_append isBlank_of_mem_space⟩
  · rfl

theorem lone_closing (level : Nat) :
  Lone (closingLine level)
  := by
  apply Lone.concat
  · apply (plain_indent level).append
    apply Plain.cons (by decide)
    rintro c ⟨⟩
  · apply notMem_indent (by decide)
  · exact endsStatement_of_mem_indent
  · rfl

/-- Every line of a tree is one statement. -/
theorem lone_of_mem_linesAt {level : Nat} {items : Items} :
  ∀ l ∈ items.linesAt level, Lone l ∧ l ≠ []
  := by
  induction items generalizing level with
  | nil =>
      rintro l ⟨⟩
  | declaration d rest ih =>
      rw [Items.linesAt, List.forall_mem_cons]
      use ⟨lone_declaration level d, by simp [Declaration.line, Declaration.text]⟩
      exact ih
  | rule s body rest ihbody ihrest =>
      rw [Items.linesAt, List.forall_mem_append, List.forall_mem_cons, List.forall_mem_cons]
      use ⟨⟨lone_selector level s, by simp [Selector.line]⟩, ihbody⟩
      use ⟨lone_closing level, by simp [closingLine]⟩
      exact ihrest

/-! ### Inside a removed rule -/

section Inside

variable {names : List Text} {s : State} {start : Nat}

/-- Inside a block that is being removed a line moves the depth by its braces. -/
theorem step_inside {depth depth' : Nat} {l : Text} (hdepth : depth + opens l - closes l = depth')
    (line : Nat) (following : List Statement) :
  State.step names { s with phase := .inside start depth } ⟨l, l, line⟩ following
    = (.cut, { s with phase := Phase.ofDepth start depth' })
  := by
  rw [step_of_inside (s := { s with phase := .inside start depth }) rfl]
  dsimp only
  rw [opens_trim, closes_trim, hdepth]

theorem braces_declaration (level : Nat) (d : Declaration) :
  opens (d.line level) = 0 ∧ closes (d.line level) = 0
  := by
  have hnotMem : ∀ c, c ≠ ' ' → (c == ':' || c == ';' || isDeclarationChar c) = false →
      (d.line level).count c = 0 := by
    intro c hc hchar
    rw [List.count_eq_zero, Declaration.line, List.mem_append, not_or]
    use notMem_indent hc level, d.notMem_text hchar
  exact ⟨hnotMem _ (by decide) (by decide), hnotMem _ (by decide) (by decide)⟩

theorem braces_selector (level : Nat) (s : Selector) :
  opens (s.line level) = 1 ∧ closes (s.line level) = 0
  := by
  have hcount : ∀ c, c ≠ ' ' → (c == '.' || c == '&' || ClassName.isNameChar c) = false →
      (s.line level).count c = ([' ', '\x7b'] : Text).count c := by
    intro c hc hchar
    have hindent := List.count_eq_zero.mpr (notMem_indent hc level)
    have htext := List.count_eq_zero.mpr (s.notMem_text hchar)
    rw [Selector.line, List.append_assoc, List.count_append, List.count_append, hindent, htext,
      Nat.zero_add, Nat.zero_add]
    rfl
  exact ⟨hcount _ (by decide) (by decide), hcount _ (by decide) (by decide)⟩

theorem braces_closing (level : Nat) :
  opens (closingLine level) = 0 ∧ closes (closingLine level) = 1
  := by
  have hcount : ∀ c, c ≠ ' ' → (closingLine level).count c = (['\x7d'] : Text).count c := by
    intro c hc
    rw [closingLine, List.count_append, List.count_eq_zero.mpr (notMem_indent hc level),
      Nat.zero_add]
  exact ⟨hcount _ (by decide), hcount _ (by decide)⟩

/-- Of a tree inside a block that is being removed no line is kept, and behind it the block is as
open as it was. -/
theorem reads_inside (names : List Text) (s : State) (start : Nat) {depth : Nat}
    (hdepth : depth ≠ 0) (items : Items) (level line : Nat) :
  Reads names { s with phase := .inside start depth } line (items.linesAt level) []
    { s with phase := .inside start depth }
  := by
  have hphase : ∀ d, d ≠ 0 → Phase.ofDepth start d = .inside start d := fun d hd => if_neg hd
  induction items generalizing depth level line with
  | nil => apply Reads.nil
  | declaration d rest ih =>
      obtain ⟨ho, hc⟩ := braces_declaration level d
      have hline : depth + opens (d.line level) - closes (d.line level) = depth := by omega
      apply Reads.cut (step_inside hline line)
      rw [hphase depth hdepth]
      apply ih hdepth
  | rule sel body rest ihbody ihrest =>
      obtain ⟨ho, hc⟩ := braces_selector level sel
      obtain ⟨ho', hc'⟩ := braces_closing level
      have hopen : depth + opens (sel.line level) - closes (sel.line level) = depth + 1 := by omega
      have hclose : depth + 1 + opens (closingLine level) - closes (closingLine level) = depth := by
        omega
      apply Reads.cut (step_inside hopen line)
      rw [hphase _ (Nat.succ_ne_zero depth)]
      apply (ihbody (Nat.succ_ne_zero depth) (level + 1) _).append
      apply Reads.cut (step_inside hclose _)
      rw [hphase depth hdepth]
      apply ihrest hdepth

end Inside

/-! ### Between rules -/

/-- A removal between two lines of a tree that is copied, inside the given blocks and having cut the
rules of the given names. -/
structure Between (s : State) (b : OpenBlocks) (found : List Text) : Prop where
  phase : s.phase = .copying
  scanner : s.scanner = ⟨b, none⟩
  comma : s.lastKept.getLast? ≠ some ','
  removed : s.removed = found.eraseDups
  blocks : s.blocks = found.length

/-- One more name is listed unless it is there. -/
theorem eraseDups_concat (found : List Text) (name : Text) :
  found.eraseDups ++ [name].filter (fun n => !found.eraseDups.contains n)
    = (found ++ [name]).eraseDups
  := by
  rw [List.eraseDups_append]
  congr 1
  by_cases h : name ∈ found
  · simp [List.removeAll, h]
  · simp [List.removeAll, h, List.eraseDups_cons]

/-- The rule of a selector is to go if its name is. -/
theorem targets_selector (names : List Text) {b : OpenBlocks} (hparent : ProperParent b.top)
    (s : Selector) (r : Reading) (hr : r.members = some [Member.ofText b.top s.text]) :
  targets names (some r) = (s.target? names b.top).toList
  := by
  rw [targets, Option.bind_some, hr, s.ofText_text hparent, Selector.target?]
  cases s.resolve b.top with
  | none => rfl
  | some name =>
      by_cases h : name ∈ names
      · simp [hits, Option.filter, h, List.eraseDups_cons]
      · simp [hits, Option.filter, h]

namespace Between

variable (names : List Text) {s : State} {b : OpenBlocks} {found : List Text}
    (h : Between s b found)

include h

/-- A line that starts no removal is kept. -/
theorem keep {l : Text} {r : Reading}
    (hread : ∀ following, (⟨b, none⟩ : Scanner).read l following = some r)
    (htargets : targets names (some r) = []) (hcarry : r.carry = none) (hcomma : ',' ∉ l)
    (line : Nat) :
  ∃ s', (∀ following, s.step names ⟨l, l, line⟩ following = (.kept, s'))
    ∧ Between s' (b.feed r.opener r.text) found
  := by
  use s.keep (trim l) (some r)
  constructor
  · intro following
    have hreading : (⟨s, ⟨l, l, line⟩, following⟩ : Visit).reading = some r := by
      rw [Visit.reading, h.scanner]
      apply hread
    have hbegins : s.begins? names ⟨l, l, line⟩ following (some r) = none := by
      rw [begins?_eq_none_iff]
      intro hne
      exact absurd htargets hne
    rw [Visit.step_of_copying (v := ⟨s, ⟨l, l, line⟩, following⟩) h.phase, hreading, hbegins]
    rfl
  · constructor
    · exact h.phase
    · rw [State.keep, h.scanner, Scanner.advance, hcarry]
    · rw [State.keep]
      dsimp only
      split
      · exact h.comma
      · intro hlast
        exact hcomma (mem_of_mem_trim (List.mem_of_getLast? hlast))
    · exact h.removed
    · exact h.blocks

theorem keep_declaration (level : Nat) (d : Declaration) (line : Nat) :
  ∃ s', (∀ following,
      s.step names ⟨d.line level, d.line level, line⟩ following = (.kept, s'))
    ∧ Between s' b found
  := by
  have htrim : trim (d.line level) = trim d.text := trim_append_of_blank isBlank_of_mem_indent _
  have hkeep := h.keep names (Scanner.read_declaration _ d htrim) rfl rfl
    ((lone_declaration level d).plain.notMem (by decide)) line
  rwa [OpenBlocks.feed_declaration] at hkeep

theorem keep_selector (hparent : ProperParent b.top) (level : Nat) {sel : Selector}
    (htarget : sel.target? names b.top = none) (line : Nat) :
  ∃ s', (∀ following,
      s.step names ⟨sel.line level, sel.line level, line⟩ following = (.kept, s'))
    ∧ Between s' (b.opened (sel.resolve b.top)) found
  := by
  have hkeep := h.keep names
    (Scanner.read_rule hparent sel isBlank_of_mem_space (sel.trim_line level))
    (by rw [targets_selector names hparent sel _ rfl, htarget]; rfl) rfl
    ((lone_selector level sel).plain.notMem (by decide)) line
  rwa [OpenBlocks.feed_rule b _ sel isBlank_of_mem_space] at hkeep

end Between

theorem Between.keep_closing (names : List Text) {s : State} {b : OpenBlocks} {found : List Text}
    {opener : Option Text} (hb : b.Sound) (h : Between s (b.opened opener) found)
    (level line : Nat) :
  ∃ s', (∀ following,
      s.step names ⟨closingLine level, closingLine level, line⟩ following = (.kept, s'))
    ∧ Between s' b found
  := by
  have htrim : trim (closingLine level) = ['\x7d'] := trim_append_of_blank isBlank_of_mem_indent _
  have hkeep := h.keep names (Scanner.read_closing _ htrim) rfl rfl
    ((lone_closing level).plain.notMem (by decide)) line
  have hfeed : (b.opened opener).feed none ['\x7d'] = b := hb.closed_opened opener
  rwa [hfeed] at hkeep

/-- A rule that is to go is cut with all that is in its block. -/
theorem Between.cut {names : List Text} {s : State} {b : OpenBlocks} {found : List Text}
    (h : Between s b found) (hparent : ProperParent b.top) {sel : Selector} {name : Text}
    (htarget : sel.target? names b.top = some name) (body : Items) (level line : Nat) :
  ∃ s', Reads names s line
      (sel.line level :: body.linesAt (level + 1) ++ [closingLine level]) [] s'
    ∧ Between s' b (found ++ [name])
  := by
  obtain ⟨ho, hc⟩ := braces_selector level sel
  obtain ⟨ho', hc'⟩ := braces_closing level
  have hfirst : ∀ following, s.step names ⟨sel.line level, sel.line level, line⟩ following
      = (.cut, { s.start [name] .copying with phase := .inside (line + 1) 1 }) := by
    intro following
    have hread := Scanner.read_rule hparent sel isBlank_of_mem_space (sel.trim_line level)
      (following.map Statement.clean)
    rw [← h.scanner] at hread
    have hreading : (⟨s, ⟨sel.line level, sel.line level, line⟩, following⟩ : Visit).reading = _ :=
      hread
    have hbegins : s.begins? names ⟨sel.line level, sel.line level, line⟩ following
        (⟨s, ⟨sel.line level, sel.line level, line⟩, following⟩ : Visit).reading
        = some ([name], .inside (line + 1) 1) := by
      rw [hreading, begins?_eq_some_iff, targets_selector names hparent sel _ rfl, htarget,
        opens_trim, closes_trim, ho, hc]
      exact ⟨rfl, List.cons_ne_nil _ _, h.comma, .inl ⟨Nat.one_ne_zero, Nat.zero_le 1, rfl⟩⟩
    rw [Visit.step_of_copying (v := ⟨s, ⟨sel.line level, sel.line level, line⟩, following⟩) h.phase,
      hbegins]
    rfl
  have hlast : 1 + opens (closingLine level) - closes (closingLine level) = 0 := by omega
  use s.start [name] .copying
  constructor
  · apply Reads.cut hfirst
    apply (reads_inside names (s.start [name] .copying) (line + 1) Nat.one_ne_zero body _ _).append
    apply Reads.cut (step_inside hlast _)
    apply Reads.nil
  · constructor
    · rfl
    · rw [State.start, h.scanner]
    · exact h.comma
    · rw [State.start, h.removed]
      apply eraseDups_concat
    · rw [State.start, h.blocks, List.length_append]
      rfl

/-- Over the lines of a tree a removal keeps those of the pruned tree and cuts a block for each rule
that is cut from it. -/
theorem Between.reads_linesAt {s : State} {b : OpenBlocks} {found : List Text}
    (h : Between s b found) (names : List Text) (items : Items) (hb : b.Sound)
    (hparent : ProperParent b.top) (level line : Nat) :
  ∃ s', Reads names s line (items.linesAt level) ((items.prune names b.top).linesAt level) s'
    ∧ Between s' b (found ++ items.cutNames names b.top)
  := by
  induction items generalizing s b found level line with
  | nil =>
      use s, .nil s line
      rw [Items.cutNames, List.append_nil]
      exact h
  | declaration d rest ih =>
      obtain ⟨s', hstep, hs'⟩ := h.keep_declaration names level d line
      obtain ⟨s'', hreads, hs''⟩ := ih hs' hb hparent level (line + 1)
      exact ⟨s'', .keep hstep hreads, hs''⟩
  | rule sel body rest ihbody ihrest =>
      rw [Items.prune, Items.cutNames]
      cases htarget : sel.target? names b.top with
      | some name =>
          -- the whole rule goes, and the scanner sees none of it
          obtain ⟨s', hcut, hs'⟩ := h.cut hparent htarget body level line
          obtain ⟨s'', hreads, hs''⟩ := ihrest hs' hb hparent level _
          use s''
          constructor
          · have happend := hcut.append hreads
            rwa [List.append_assoc] at happend
          · rwa [List.append_assoc] at hs''
      | none =>
          -- the selector stays, and so does what is left of its body up to the closing brace
          have htop : (b.opened (sel.resolve b.top)).top = sel.resolve b.top := sel.top_opened b
          obtain ⟨s₁, hopen, hs₁⟩ := h.keep_selector names hparent level htarget line
          obtain ⟨s₂, hbody, hs₂⟩ := ihbody hs₁ (hb.opened _)
            (by rw [htop]; exact sel.properParent_resolve hparent) (level + 1) (line + 1)
          obtain ⟨s₃, hclose, hs₃⟩ := Between.keep_closing names hb hs₂ level
            (line + 1 + (body.linesAt (level + 1)).length)
          obtain ⟨s₄, hrest, hs₄⟩ := ihrest hs₃ hb hparent level _
          rw [htop] at hbody hs₄
          use s₄
          constructor
          · exact .keep hopen (hbody.append (.keep hclose hrest))
          · rwa [List.append_assoc] at hs₄

/-! ### Whole stylesheets -/

/-- Behind the last line feed nothing is left to do. -/
theorem reads_last (names : List Text) {s : State} (h : s.phase = .copying) (lineFeed : Bool)
    (line : Nat) :
  Reads names s line (if lineFeed then [[]] else []) (if lineFeed then [[]] else []) s
  := by
  cases lineFeed with
  | false => apply Reads.nil
  | true =>
      have hstep : ∀ following, s.step names ⟨[], [], line⟩ following = (.kept, s) := by
        intro following
        rw [Visit.step_of_copying (v := ⟨s, ⟨[], [], line⟩, following⟩) h]
        rfl
      exact .keep hstep (.nil s _)

theorem reads_lines (names : List Text) (items : Items) (lineFeed : Bool) :
  ∃ s, Reads names {} 0 (items.lines lineFeed) ((items.prune names none).lines lineFeed) s
    ∧ Between s {} (items.cutNames names none)
  := by
  have hstart : Between {} {} [] := ⟨rfl, rfl, by rintro ⟨⟩, rfl, rfl⟩
  obtain ⟨s, hreads, hs⟩ := hstart.reads_linesAt names items OpenBlocks.sound_empty
    (by rintro name ⟨⟩) 0 0
  exact ⟨s, hreads.append (reads_last names hs.phase lineFeed _), hs⟩

theorem lone_of_mem_lines {lineFeed : Bool} {items : Items} :
  ∀ l ∈ items.lines lineFeed, Lone l
  := by
  intro l hl
  rcases List.mem_append.mp hl with hl | hl
  · exact (lone_of_mem_linesAt l hl).1
  · cases lineFeed with
    | false => cases hl
    | true =>
        obtain rfl := List.mem_singleton.mp hl
        exact Lone.nil

/-- There are no runs of blank lines. -/
theorem collapseBlanks_lines (lineFeed : Bool) (items : Items) :
  collapseBlanks maxBlankRun (items.lines lineFeed) = items.lines lineFeed
  := by
  apply collapseAfter_of_forall_not (by decide)
  · intro l hl
    obtain ⟨hlone, hne⟩ := lone_of_mem_linesAt l hl
    apply hlone.blank_eq_false hne
  · cases lineFeed with
    | false => exact .inl rfl
    | true => exact .inr rfl

/-- Only a stylesheet without rules and without a line feed has no lines. -/
theorem lines_eq_nil {lineFeed : Bool} {items : Items} (h : items.lines lineFeed = []) :
  lineFeed = false ∧ items = .nil
  := by
  obtain ⟨hlines, hlast⟩ := List.append_eq_nil_iff.mp h
  constructor
  · cases lineFeed with
    | false => rfl
    | true => cases hlast
  · cases items with
    | nil => rfl
    | declaration d rest => cases hlines
    | rule sel body rest => cases hlines

/-- On a stylesheet of nested rules a removal is pruning: the new text is the pruned tree as it is
written by itself, the names removed are those of the rules that are cut, in their order, each is
cut as one block, and nothing is reported. -/
theorem remove_render (items : Items) (lineFeed : Bool) (names : List Text) :
  remove (items.render lineFeed) names
    = { text := (items.prune names none).render lineFeed
        removed := (items.cutNames names none).eraseDups
        blocks := (items.cutNames names none).length
        anomalies := [] }
  := by
  by_cases hnames : names = []
  · rw [hnames, remove, if_pos rfl, Items.cutNames_nil,
      Items.prune_eq_self (Items.cutNames_nil none items)]
    rfl
  · by_cases hne : items.lines lineFeed = []
    · obtain ⟨rfl, rfl⟩ := lines_eq_nil hne
      rw [remove, if_neg hnames]
      rfl
    · obtain ⟨s, hreads, hs⟩ := reads_lines names items lineFeed
      have hself : s.blocks = 0 → (items.prune names none).lines lineFeed = items.lines lineFeed
          ∧ s.removed = [] := by
        intro hzero
        have hnil : items.cutNames names none = [] := by
          rw [← List.length_eq_zero_iff, ← hs.blocks, hzero]
        rw [Items.prune_eq_self hnil, hs.removed, hnil]
        exact ⟨rfl, rfl⟩
      have hremove := hreads.remove_eq lone_of_mem_lines hne hnames hs.phase
        (collapseBlanks_lines lineFeed _) hself
      rw [hs.removed, hs.blocks] at hremove
      exact hremove

/-- An element goes with the modifier in its block. -/
example :
    let a := Selector.direct ['a'] ⟨by decide, by decide⟩
    let b := Selector.suffix .element ['b'] (by decide) (by decide) (List.all_eq_true.mp rfl)
    let c := Selector.suffix .modifier ['c'] (by decide) (by decide) (List.all_eq_true.mp rfl)
    let d : Declaration := ⟨['x'], ['y'], List.all_eq_true.mp rfl, List.all_eq_true.mp rfl⟩
    let items := Items.rule a (.rule b (.rule c .nil .nil) (.declaration d .nil)) .nil
    (items.prune ["a__b".toList] none).render true = ".a \x7b\n  x: y;\n\x7d\n".toList
  := by
  rfl

end StylePrune.Prune
