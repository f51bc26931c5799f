import StylePrune.Proofs.Stylesheet.Enclosing
import StylePrune.Proofs.Stylesheet.Member
import StylePrune.Proofs.Stylesheet.Rows
import StylePrune.Proofs.Stylesheet.Statements

/-!
# Selector lists over several lines

On one line all members of a selector list belong to the enclosing rule.  Over several lines each
row is read on its own: the last name of a row that ends with a comma is handed on, a suffix in a
later row extends it rather than the enclosing name, and the block that the last row opens takes its
name from that row alone.  `definedIn_overLines_iff` says when this makes no difference to what a
stylesheet defines.
-/

namespace StylePrune.Stylesheet

open Text

/-- Whether a row has a suffix. -/
def HasSuffix (row : List Entry) : Prop := ∃ e ∈ row, (suffix? e.selector).isSome = true

/-- A selector list in rows, in front of the brace of a block. -/
structure SelectorList where
  rows : List (List Entry)
  rows_ne : rows ≠ []
  row_ne : ∀ row ∈ rows, row ≠ []
  brace : ∀ e ∈ rows.flatten.getLast?, e.member.getLast? ≠ some '#'

namespace SelectorList

/-- The entries of all rows. -/
def entries (l : SelectorList) : List Entry := l.rows.flatten

/-- The list on one line. -/
def onOneLine (l : SelectorList) : Text := rowText l.entries

/-- The list with each row on a line of its own. -/
def overLines (l : SelectorList) : Text := rowsText l.rows

/-- The name that rules nested in the block of the list extend, if the list stands on one line
inside a rule with the given name. -/
def enclosed (l : SelectorList) (parent : Option Text) : Option Text :=
  Scanner.primary (membersOf parent l.entries) <|> parent

/-- Whether rows come to the same as one line inside a rule with the given name.  A row with a
suffix stands behind rows that give no other name than the enclosing one, and the last row gives the
same name to nested rules as all of them. -/
def Faithful (l : SelectorList) (parent : Option Text) : Prop :=
  (∀ before row after, l.rows = before ++ row :: after →
    HasSuffix row → (Scanner.primary (membersOf parent before.flatten) <|> parent) = parent)
    ∧ (Scanner.primary (membersOf parent (l.rows.getLast?.getD [])) <|> parent) = l.enclosed parent

theorem entries_ne_nil (l : SelectorList) :
  l.entries ≠ []
  := by
  obtain ⟨row, rows, hrows⟩ := List.exists_cons_of_ne_nil l.rows_ne
  have hrow : row ≠ [] := l.row_ne row (by rw [hrows]; apply List.mem_cons_self)
  rw [entries, hrows, List.flatten_cons]
  apply List.append_ne_nil_of_left_ne_nil hrow

end SelectorList

/-- The openings of blocks one inside the other, each with its selector list on one line. -/
def openings (chain : List SelectorList) : Text :=
  chain.flatMap fun l => l.onOneLine ++ ['\x7b', '\n']

/-- The name of the innermost of blocks one inside the other. -/
def enclosingName (chain : List SelectorList) : Option Text :=
  chain.foldl (fun parent l => l.enclosed parent) none

theorem enclosingName_concat (chain : List SelectorList) (l : SelectorList) :
  enclosingName (chain ++ [l]) = l.enclosed (enclosingName chain)
  := by
  rw [enclosingName, List.foldl_append]
  rfl

/-! ### What rows define -/

/-- The members of rows, each resolved as the scanner does with a name pending. -/
def resolve (parent : Option Text) (pending : Option Text) : List (List Entry) → List (List Member)
  | [] => []
  | row :: rows =>
    let members := membersOf (pending <|> parent) row
    members :: resolve parent (Scanner.primary members <|> pending) rows

/-- The name that the block behind rows takes. -/
def openerOf (resolved : List (List Member)) : Option Text :=
  Scanner.primary (resolved.getLast?.getD [])

namespace Scanner

theorem endsStatement_rowText (row : List Entry) :
  ∀ c ∈ rowText row, endsStatement c = false
  := by
  intro c hc
  apply Bool.eq_false_iff.mpr
  intro hends
  have hmark : c ∈ listMarks ∧ c ≠ ',' := by
    simp only [endsStatement, Bool.or_eq_true, beq_iff_eq] at hends
    rcases hends with (rfl | rfl) | rfl <;> decide
  exact mark_notMem_rowText row hmark.1 hmark.2 hc

theorem lineFeed_notMem_rowText (row : List Entry) :
  '\n' ∉ rowText row
  := mark_notMem_rowText row (by decide) (by decide)

/-- Rows in front of a block define what their members define, and the block takes the name of the
last row. -/
theorem finds_rowsText (b : OpenBlocks) (pending : Option Text) {rows : List (List Entry)}
    (hrows : rows ≠ []) (hrow : ∀ row ∈ rows, row ≠ []) (t : Text) :
  (⟨b, pending⟩ : Scanner).finds (statementsOf (rowsText rows ++ '\x7b' :: t))
    = (resolve b.top pending rows).flatten.flatMap Member.names
      ++ (⟨b.opened (openerOf (resolve b.top pending rows)), none⟩ : Scanner).finds
          (statementsOf t)
  := by
  induction rows generalizing pending with
  | nil => exact absurd rfl hrows
  | cons row rows ih =>
      obtain ⟨hne, hothers⟩ := List.forall_mem_cons.mp hrow
      cases rows with
      | nil =>
          rw [rowsText, statementsOf_append_end (endsStatement_rowText row)
            (lineFeed_notMem_rowText row) rfl, finds_rowText_brace b pending hne, resolve, resolve,
            List.flatten_singleton]
          rfl
      | cons next rows =>
          -- the row ends with its comma, and hands its last name on to the rows behind it
          have hcut : statementsOf (rowsText (row :: next :: rows) ++ '\x7b' :: t)
              = (rowText row ++ [','])
                :: statementsOf (rowsText (next :: rows) ++ '\x7b' :: t) := by
            rw [← statementsOf_append_lineFeed, rowsText_cons_cons, List.append_assoc,
              List.append_assoc]
            · rfl
            · intro c hc
              rcases List.mem_append.mp hc with hc | hc
              · apply endsStatement_rowText row c hc
              · obtain rfl := List.mem_singleton.mp hc
                rfl
            · rw [List.mem_append, not_or]
              use lineFeed_notMem_rowText row
              decide
          have hresolve : resolve b.top pending (row :: next :: rows)
              = membersOf (pending <|> b.top) row :: resolve b.top
                (primary (membersOf (pending <|> b.top) row) <|> pending) (next :: rows) := rfl
          rw [hcut, finds_rowText_comma b pending hne, ih _ (List.cons_ne_nil next rows) hothers,
            hresolve, List.flatten_cons, List.flatMap_append, List.append_assoc]
          rfl

/-- Blocks whose lists stand on one line each are open behind their braces, and what they define does
not depend on what follows. -/
theorem finds_openings (chain : List SelectorList) :
  ∃ b : OpenBlocks, ∃ definitions, b.Sound ∧ b.top = enclosingName chain ∧ ∀ t,
    ({} : Scanner).finds (statementsOf (openings chain ++ t))
      = definitions ++ (⟨b, none⟩ : Scanner).finds (statementsOf t)
  := by
  induction chain using List.reverseRecOn with
  | nil => exact ⟨{}, [], OpenBlocks.sound_empty, rfl, fun t => rfl⟩
  | append_singleton chain l ih =>
      obtain ⟨b, definitions, hsound, htop, hfinds⟩ := ih
      have hline := l.entries_ne_nil
      use b.opened (primary (membersOf b.top l.entries))
      use definitions ++ (membersOf b.top l.entries).flatMap Member.names
      constructor
      · apply hsound.opened
      · constructor
        · rw [OpenBlocks.top_opened, htop, enclosingName_concat]
          rfl
        · intro t
          have hopenings : openings (chain ++ [l]) ++ t
              = openings chain ++ (rowsText [l.entries] ++ '\x7b' :: '\n' :: t) := by
            simp [openings, SelectorList.onOneLine, rowsText]
          have hblank : statementsOf ('\n' :: t) = [] :: statementsOf t := by
            apply statementsOf_append_lineFeed (p := [])
            · rintro c ⟨⟩
            · rintro ⟨⟩
          rw [hopenings, hfinds,
            finds_rowsText b none (List.cons_ne_nil _ _) (by simpa using hline),
            hblank, finds_cons_of_blank rfl, List.append_assoc]
          simp only [resolve, List.flatten_singleton]
          rfl

end Scanner

/-! ### Cleaning rows -/

/-- A text with another one at its end ends as this does. -/
theorem getLast?_of_suffix {t u : Text} (hne : t ≠ []) (h : t <:+ u) :
  u.getLast? = t.getLast?
  := by
  obtain ⟨v, rfl⟩ := h
  apply List.getLast?_append_of_ne_nil v hne

/-- Rows in front of a brace do not end with the start of an interpolation. -/
theorem SelectorList.getLast?_ne {l : SelectorList} {t : Text}
    (h : ∀ e ∈ l.entries.getLast?, e.member <:+ t) :
  t.getLast? ≠ some '#'
  := by
  have he := List.getLast?_eq_some_getLast l.entries_ne_nil
  obtain ⟨e, he⟩ : ∃ e, l.entries.getLast? = some e := ⟨_, he⟩
  rw [getLast?_of_suffix e.member_ne_nil (h e he)]
  apply l.brace e he

theorem calm_openings_append (chain : List SelectorList) {t : Text} (ht : Calm t) :
  Calm (openings chain ++ t)
  := by
  induction chain with
  | nil => exact ht
  | cons l chain ih =>
      have hopenings : openings (l :: chain) ++ t
          = l.onOneLine ++ '\x7b' :: ([] ++ '\n' :: (openings chain ++ t)) := by
        simp [openings]
      rw [hopenings]
      apply (calm_rowText l.entries).append_cons _ separator_brace
      · intro _
        exact l.getLast?_ne fun e => member_suffix_rowText
      · apply Calm.nil.append_cons ih (separator_of_isBlank rfl)
        rintro ⟨⟩

/-- Rows in open blocks, in front of a block of their own, are not touched by cleaning. -/
theorem strip_openings_append (chain : List SelectorList) {l : SelectorList}
    {rows : List (List Entry)} (hrows : rows.flatten = l.entries) (hrow : ∀ row ∈ rows, row ≠ []) (rest : Text) :
  strip (openings chain ++ rowsText rows ++ '\x7b' :: rest)
    = openings chain ++ rowsText rows ++ '\x7b' :: strip rest
  := by
  have hcalm := calm_openings_append chain (calm_rowsText rows)
  refine (hcalm.passes_strip (.inr rfl) fun _ => ?_).2 rest
  apply l.getLast?_ne
  intro e he
  apply List.suffix_append_of_suffix
  apply member_suffix_rowsText hrow
  rw [hrows]
  exact he

/-- What a stylesheet defines that has a list in open blocks, over several lines or on one, in front
of a block of its own. -/
theorem definedIn_openings_append (chain : List SelectorList) :
  ∃ b : OpenBlocks, ∃ definitions, b.Sound ∧ b.top = enclosingName chain ∧
    ∀ (l : SelectorList) (rest : Text),
      definedIn (openings chain ++ l.overLines ++ '\x7b' :: rest)
          = definitions ++ ((resolve b.top none l.rows).flatten.flatMap Member.names
            ++ (⟨b.opened (openerOf (resolve b.top none l.rows)), none⟩ : Scanner).finds
                (statementsOf (strip rest)))
        ∧ definedIn (openings chain ++ l.onOneLine ++ '\x7b' :: rest)
          = definitions ++ ((membersOf b.top l.entries).flatMap Member.names
            ++ (⟨b.opened (Scanner.primary (membersOf b.top l.entries)), none⟩ : Scanner).finds
                (statementsOf (strip rest)))
  := by
  obtain ⟨b, definitions, hsound, htop, hfinds⟩ := Scanner.finds_openings chain
  use b, definitions, hsound, htop
  intro l rest
  have hrows : ∀ rows : List (List Entry), rows.flatten = l.entries → rows ≠ [] →
      (∀ row ∈ rows, row ≠ []) →
      definedIn (openings chain ++ rowsText rows ++ '\x7b' :: rest)
        = definitions ++ ((resolve b.top none rows).flatten.flatMap Member.names
          ++ (⟨b.opened (openerOf (resolve b.top none rows)), none⟩ : Scanner).finds
              (statementsOf (strip rest))) := by
    intro rows hflatten hne hrow
    rw [definedIn_eq_finds, strip_openings_append chain hflatten hrow, List.append_assoc, hfinds,
      Scanner.finds_rowsText b none hne hrow]
  constructor
  · exact hrows l.rows rfl l.rows_ne l.row_ne
  · have hline := hrows [l.entries] List.flatten_singleton (List.cons_ne_nil _ _)
      (by simpa using l.entries_ne_nil)
    rw [resolve, resolve, List.flatten_singleton] at hline
    exact hline

/-! ### Names handed on -/

theorem orElse_assoc (first second third : Option Text) :
  ((first <|> second) <|> third) = (first <|> (second <|> third))
  := by
  cases first with
  | none => rfl
  | some name => rfl

theorem orElse_none (name : Option Text) :
  (name <|> none) = name
  := by
  cases name with
  | none => rfl
  | some name => rfl

theorem primary_append (first second : List Member) :
  Scanner.primary (first ++ second) = (Scanner.primary second <|> Scanner.primary first)
  := by
  rw [Scanner.primary, List.filterMap_append, List.getLast?_append]
  simp [Scanner.primary]

/-- The last name of members inside a rule with a proper name is proper. -/
theorem properParent_primary {parent : Option Text} (h : ProperParent parent) (row : List Entry) :
  ProperParent (Scanner.primary (membersOf parent row))
  := by
  intro name hname
  obtain ⟨m, hm, hprimary⟩ := List.mem_filterMap.mp (List.mem_of_getLast? hname)
  obtain ⟨e, -, rfl⟩ := List.mem_map.mp hm
  exact Member.properParent_primary h e.selector name hprimary

theorem ProperParent.orElse {first second : Option Text} (hfirst : ProperParent first)
    (hsecond : ProperParent second) :
  ProperParent (first <|> second)
  := by
  cases first with
  | none => exact hsecond
  | some name => exact hfirst

theorem properParent_enclosingName (chain : List SelectorList) :
  ProperParent (enclosingName chain)
  := by
  induction chain using List.reverseRecOn with
  | nil => rintro name ⟨⟩
  | append_singleton chain l ih =>
      rw [enclosingName_concat]
      exact (properParent_primary ih l.entries).orElse ih

/-- A row without suffixes does not look at the enclosing name. -/
theorem membersOf_of_not_hasSuffix {row : List Entry} (h : ¬ HasSuffix row)
    (parent other : Option Text) :
  membersOf parent row = membersOf other row
  := by
  apply List.map_congr_left
  intro e he
  have hnone : suffix? e.selector = none := by
    apply Option.not_isSome_iff_eq_none.mp
    intro hsome
    exact h ⟨e, he, hsome⟩
  rw [Member.ofText_of_suffix?_eq_none hnone, Member.ofText_of_suffix?_eq_none hnone]

/-- Whether no row with a suffix stands behind rows that hand on another name than the enclosing
one, the given name being pending. -/
def Undisturbed (parent pending : Option Text) (rows : List (List Entry)) : Prop :=
  ∀ before row after, rows = before ++ row :: after → HasSuffix row →
    ((Scanner.primary (membersOf parent before.flatten) <|> pending) <|> parent) = parent

theorem undisturbed_cons_iff {parent pending : Option Text} {row : List Entry}
    {rows : List (List Entry)} :
  Undisturbed parent pending (row :: rows)
    ↔ (HasSuffix row → (pending <|> parent) = parent)
      ∧ Undisturbed parent (Scanner.primary (membersOf parent row) <|> pending) rows
  := by
  have hnext : ∀ before : List (List Entry),
      (Scanner.primary (membersOf parent (row :: before).flatten) <|> pending)
        = (Scanner.primary (membersOf parent before.flatten)
          <|> (Scanner.primary (membersOf parent row) <|> pending)) := by
    intro before
    rw [List.flatten_cons, membersOf, List.map_append, primary_append]
    exact orElse_assoc _ _ pending
  constructor
  · intro h
    constructor
    · intro hsuffix
      exact h [] row rows rfl hsuffix
    · rintro before next after rfl hsuffix
      rw [← hnext]
      exact h (row :: before) next after rfl hsuffix
  · rintro ⟨hrow, hrows⟩ before next after heq hsuffix
    cases before with
    | nil =>
        obtain ⟨rfl, -⟩ := List.cons.inj heq
        exact hrow hsuffix
    | cons first before =>
        obtain ⟨rfl, rfl⟩ := List.cons.inj heq
        rw [hnext]
        exact hrows before next after rfl hsuffix

/-- Where the enclosing name is not disturbed, a row is resolved as it would be on its own. -/
theorem membersOf_of_undisturbed {parent pending : Option Text} {row : List Entry}
    (h : HasSuffix row → (pending <|> parent) = parent) :
  membersOf (pending <|> parent) row = membersOf parent row
  := by
  rcases Classical.em (HasSuffix row) with hsuffix | hsuffix
  · rw [h hsuffix]
  · apply membersOf_of_not_hasSuffix hsuffix

/-- Undisturbed rows are resolved as they would be on one line. -/
theorem resolve_of_undisturbed {parent pending : Option Text} {rows : List (List Entry)}
    (h : Undisturbed parent pending rows) :
  resolve parent pending rows = rows.map (membersOf parent)
  := by
  induction rows generalizing pending with
  | nil => rfl
  | cons row rows ih =>
      obtain ⟨hrow, hrows⟩ := undisturbed_cons_iff.mp h
      rw [resolve, membersOf_of_undisturbed hrow, ih hrows, List.map_cons]

/-! ### What suffixes give away -/

/-- Lists that are the same in sequence, and none of which is longer than its counterpart, are the
same. -/
theorem append_inj_of_length_le {α : Type} {a b c d : List α} (h : a ++ b = c ++ d)
    (hac : a.length ≤ c.length) (hbd : b.length ≤ d.length) :
  a = c ∧ b = d
  := by
  apply List.append_inj h
  have hlength := congrArg List.length h
  rw [List.length_append, List.length_append] at hlength
  omega

/-- With a name pending the members of a row define no fewer names. -/
theorem length_names_membersOf_le {parent pending : Option Text} (hparent : ProperParent parent)
    (hpending : ProperParent pending) (row : List Entry) :
  ((membersOf parent row).flatMap Member.names).length
    ≤ ((membersOf (pending <|> parent) row).flatMap Member.names).length
  := by
  induction row with
  | nil => apply Nat.le_refl
  | cons e row ih =>
      rw [membersOf, membersOf, List.map_cons, List.map_cons, List.flatMap_cons, List.flatMap_cons,
        List.length_append, List.length_append]
      apply Nat.add_le_add _ ih
      apply Member.length_names_le hpending parent hparent

/-- A row with a suffix that defines the same with a name pending has the enclosing name
pending. -/
theorem pending_of_names_eq {parent pending : Option Text} (hparent : ProperParent parent)
    (hpending : ProperParent pending) {row : List Entry}
    (h : (membersOf parent row).flatMap Member.names
      = (membersOf (pending <|> parent) row).flatMap Member.names) (hsuffix : HasSuffix row) :
  (pending <|> parent) = parent
  := by
  induction row with
  | nil =>
      obtain ⟨e, he, -⟩ := hsuffix
      cases he
  | cons e row ih =>
      rw [membersOf, membersOf, List.map_cons, List.map_cons, List.flatMap_cons,
        List.flatMap_cons] at h
      obtain ⟨hhead, htail⟩ := append_inj_of_length_le h
        (Member.length_names_le hpending parent hparent e.selector)
        (length_names_membersOf_le hparent hpending row)
      obtain ⟨f, hf, hsome⟩ := hsuffix
      rcases List.mem_cons.mp hf with rfl | hf
      · exact (Member.parent_eq_of_names_eq hsome hparent (hpending.orElse hparent) hhead).symm
      · exact ih htail ⟨f, hf, hsome⟩

/-- Rows define no fewer names than they would on one line. -/
theorem length_names_resolve_le {parent pending : Option Text} (hparent : ProperParent parent)
    (hpending : ProperParent pending) (rows : List (List Entry)) :
  ((rows.map (membersOf parent)).flatten.flatMap Member.names).length
    ≤ ((resolve parent pending rows).flatten.flatMap Member.names).length
  := by
  induction rows generalizing pending with
  | nil => apply Nat.le_refl
  | cons row rows ih =>
      rw [resolve, List.map_cons, List.flatten_cons, List.flatten_cons, List.flatMap_append,
        List.flatMap_append, List.length_append, List.length_append]
      apply Nat.add_le_add
      · apply length_names_membersOf_le hparent hpending
      · apply ih
        apply ProperParent.orElse _ hpending
        apply properParent_primary (hpending.orElse hparent)

/-- Rows that define the same as they would on one line are not disturbed. -/
theorem undisturbed_of_names_eq {parent pending : Option Text} (hparent : ProperParent parent)
    (hpending : ProperParent pending) {rows : List (List Entry)}
    (h : (rows.map (membersOf parent)).flatten.flatMap Member.names
      = (resolve parent pending rows).flatten.flatMap Member.names) :
  Undisturbed parent pending rows
  := by
  induction rows generalizing pending with
  | nil =>
      intro before row after hrows
      cases before <;> cases hrows
  | cons row rows ih =>
      have hnext : ProperParent
          (Scanner.primary (membersOf (pending <|> parent) row) <|> pending) :=
        (properParent_primary (hpending.orElse hparent) row).orElse hpending
      rw [resolve, List.map_cons, List.flatten_cons, List.flatten_cons, List.flatMap_append,
        List.flatMap_append] at h
      obtain ⟨hhead, htail⟩ := append_inj_of_length_le h
        (length_names_membersOf_le hparent hpending row)
        (length_names_resolve_le hparent hnext rows)
      have hrow := pending_of_names_eq hparent hpending hhead
      rw [undisturbed_cons_iff]
      use hrow
      rw [membersOf_of_undisturbed hrow] at htail hnext
      exact ih hnext htail

/-! ### Rows and one line -/

theorem membersOf_flatten (parent : Option Text) (rows : List (List Entry)) :
  membersOf parent rows.flatten = (rows.map (membersOf parent)).flatten
  := List.map_flatten

/-- The block behind undisturbed rows takes the last name of the last row. -/
theorem openerOf_map (parent : Option Text) (rows : List (List Entry)) :
  openerOf (rows.map (membersOf parent))
    = Scanner.primary (membersOf parent (rows.getLast?.getD []))
  := by
  rw [openerOf, List.getLast?_map]
  cases rows.getLast? with
  | none => rfl
  | some row => rfl

theorem SelectorList.faithful_iff (l : SelectorList) (parent : Option Text) :
  l.Faithful parent ↔ Undisturbed parent none l.rows
    ∧ (openerOf (l.rows.map (membersOf parent)) <|> parent) = l.enclosed parent
  := by
  rw [Faithful, Undisturbed, openerOf_map]
  simp only [orElse_none]

/-- An element without an enclosing name of its own, by which the enclosing name can be told. -/
def probe : Entry where
  indent := []
  member := ['&', '_', '_', 'x']
  blank := by rintro c ⟨⟩
  starts := .inr (.inl ⟨['x'], rfl⟩)
  marks := by simp [listMarks]
  words := by decide

/-- A list of the probe alone. -/
def probeList : SelectorList where
  rows := [[probe]]
  rows_ne := by simp
  row_ne := by simp
  brace := by decide

/-- Behind open blocks the probe finds the name of the innermost one. -/
theorem finds_probe (b : OpenBlocks) :
  (⟨b, none⟩ : Scanner).finds (statementsOf (strip (probeList.onOneLine ++ ['\x7b'])))
    = (Member.ofText b.top probe.selector).names
  := by
  have hstrip : strip (probeList.onOneLine ++ ['\x7b']) = rowsText [[probe]] ++ ['\x7b'] :=
    strip_openings_append [] (l := probeList) rfl probeList.row_ne []
  have hfinds : (⟨b, none⟩ : Scanner).finds (statementsOf (rowsText [[probe]] ++ ['\x7b']))
      = (resolve b.top none [[probe]]).flatten.flatMap Member.names ++ [] :=
    Scanner.finds_rowsText b none probeList.rows_ne probeList.row_ne []
  rw [hstrip, hfinds, List.append_nil, resolve, resolve, List.flatten_singleton, membersOf,
    List.map_cons, List.map_nil, List.flatMap_cons, List.flatMap_nil, List.append_nil]
  rfl

/-- Rows define the same as one line, whatever follows, exactly if they come to the same as one
line; then the same class names are found. -/
theorem definedIn_overLines_iff (chain : List SelectorList) (l : SelectorList) :
  ((∀ rest, definedIn (openings chain ++ l.overLines ++ '\x7b' :: rest)
      = definedIn (openings chain ++ l.onOneLine ++ '\x7b' :: rest))
    ↔ l.Faithful (enclosingName chain))
  ∧ (l.Faithful (enclosingName chain) → ∀ rest file place,
      definitionsOf (openings chain ++ l.overLines ++ '\x7b' :: rest) file place
        = definitionsOf (openings chain ++ l.onOneLine ++ '\x7b' :: rest) file place)
  := by
  obtain ⟨b, definitions, hsound, htop, hdefined⟩ := definedIn_openings_append chain
  have hparent : ProperParent b.top := htop ▸ properParent_enclosingName chain
  have hiff : (∀ rest, definedIn (openings chain ++ l.overLines ++ '\x7b' :: rest)
      = definedIn (openings chain ++ l.onOneLine ++ '\x7b' :: rest))
      ↔ l.Faithful (enclosingName chain) := by
    rw [← htop, l.faithful_iff]
    constructor
    · intro h
      have hempty : ∀ b : OpenBlocks, (⟨b, none⟩ : Scanner).finds (statementsOf (strip [])) = [] :=
        fun _ => rfl
      have hnames := h []
      rw [(hdefined l []).1, (hdefined l []).2, List.append_cancel_left_eq, hempty, hempty,
        List.append_nil, List.append_nil, SelectorList.entries, membersOf_flatten] at hnames
      have hundisturbed := undisturbed_of_names_eq hparent (by rintro name ⟨⟩) hnames.symm
      use hundisturbed
      have hprobe := h (probeList.onOneLine ++ ['\x7b'])
      rw [(hdefined l _).1, (hdefined l _).2, hnames, SelectorList.entries, membersOf_flatten,
        List.append_cancel_left_eq, List.append_cancel_left_eq, finds_probe, finds_probe,
        OpenBlocks.top_opened, OpenBlocks.top_opened, resolve_of_undisturbed hundisturbed,
        ← membersOf_flatten, ← SelectorList.entries] at hprobe
      apply Member.parent_eq_of_names_eq _ _ _ hprobe
      · decide
      · rw [openerOf_map]
        exact (properParent_primary hparent _).orElse hparent
      · exact (properParent_primary hparent _).orElse hparent
    · rintro ⟨hundisturbed, hopener⟩ rest
      rw [(hdefined l rest).1, (hdefined l rest).2, resolve_of_undisturbed hundisturbed,
        ← membersOf_flatten, ← SelectorList.entries, List.append_cancel_left_eq,
        List.append_cancel_left_eq]
      apply Scanner.finds_congr_of_sameNames
      exact OpenBlocks.SameNames.of_top_opened hsound hopener
  use hiff
  intro hfaithful rest file place
  rw [definitionsOf, definitionsOf, hiff.mpr hfaithful]

/-- In a rule a name handed on takes the place of the enclosing one, and a last row without a name
gives none to nested rules.  A semicolon ends a list, and the words of noise take a comma or the next
member with them unless a line feed stands between. -/
theorem definedIn_overLines_ne :
  (definedIn ".p \x7b\n.a, &__b \x7b \x7d\n\x7d".toList
      = [("p".toList, .direct), ("a".toList, .direct), ("p__b".toList, .element)]
    ∧ definedIn ".p \x7b\n.a,\n&__b \x7b \x7d\n\x7d".toList
      = [("p".toList, .direct), ("a".toList, .direct), ("a__b".toList, .element)])
  ∧ definedIn ".a, .png \x7b\n&__b \x7b \x7d\n\x7d".toList
    ≠ definedIn ".a,\n.png \x7b\n&__b \x7b \x7d\n\x7d".toList
  ∧ definedIn ".a;x, .b \x7b \x7d".toList ≠ definedIn ".a;x,\n.b \x7b \x7d".toList
  ∧ definedIn ".a data:x,.b \x7b \x7d".toList ≠ definedIn ".a data:x,\n.b \x7b \x7d".toList
  ∧ definedIn ".a xmlns=x,.b \x7b \x7d".toList ≠ definedIn ".a xmlns=x,\n.b \x7b \x7d".toList
  ∧ definedIn ".a xmlns:x=,.b \x7b \x7d".toList ≠ definedIn ".a xmlns:x=,\n.b \x7b \x7d".toList
  := by
  refine ⟨?_, ?_, ?_, ?_, ?_, ?_⟩
  all_goals decide +kernel

/-- A list comes to the same on one line and over several if suffixes stand in the first row only and
the last row gives a name. -/
theorem faithful_of_forall_not_hasSuffix {l : SelectorList} {parent : Option Text}
    {first : List Entry} {others : List (List Entry)} (hrows : l.rows = first :: others)
    (hothers : ∀ row ∈ others, ¬ HasSuffix row)
    (hlast : Scanner.primary (membersOf parent (l.rows.getLast?.getD [])) ≠ none) :
  l.Faithful parent
  := by
  constructor
  · rintro before row after heq hsuffix
    cases before with
    | nil => rfl
    | cons next before =>
        rw [hrows] at heq
        obtain ⟨-, rfl⟩ := List.cons.inj heq
        exact absurd hsuffix (hothers row (List.mem_append_right _ List.mem_cons_self))
  · obtain ⟨name, hname⟩ := Option.ne_none_iff_exists'.mp hlast
    have hlastRow := List.getLast?_eq_some_getLast l.rows_ne
    obtain ⟨init, hinit⟩ := List.getLast?_eq_some_iff.mp hlastRow
    have hentries : membersOf parent l.entries = membersOf parent init.flatten
        ++ membersOf parent (l.rows.getLast l.rows_ne) := by
      rw [SelectorList.entries, congrArg List.flatten hinit, List.flatten_append,
        List.flatten_singleton, membersOf, List.map_append]
      rfl
    rw [hlastRow, Option.getD_some] at hname ⊢
    rw [SelectorList.enclosed, hentries, primary_append, hname]
    rfl

end StylePrune.Stylesheet

