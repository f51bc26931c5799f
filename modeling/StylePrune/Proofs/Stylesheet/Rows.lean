import Mathlib.Data.List.Infix
import StylePrune.Proofs.Stylesheet.Calm
import StylePrune.Proofs.Stylesheet.Enclosing
import StylePrune.Proofs.Stylesheet.Member
import StylePrune.Proofs.Stylesheet.Statements

/-!
# Rows of members

The members of a selector list stand between commas, on one line or over several.  An `Entry` is a
member as it is written, and a list over several lines is a list of rows of entries.  Nothing in
rows is noise, and a row is read as the members that its entries write.
-/

namespace StylePrune.Stylesheet

open Text

/-- The characters that a member of a list does not have. -/
def listMarks : Text :=
  [',', '\x7b', '\x7d', '[', ']', '"', '\'', '/', '(', ')', ';', '\n']

/-- A member of a selector list as it is written, with the blanks in front of it. -/
structure Entry where
  indent : Text
  member : Text
  blank : ∀ c ∈ indent, isBlank c = true ∧ c ≠ '\n'
  starts : ['.'] <+: member ∨ ['&', '_', '_'] <+: member ∨ ['&', '-', '-'] <+: member
  marks : ∀ c ∈ member, c ∉ listMarks
  words : ∀ u ∈ member.tails, ∀ word ∈ noiseWords, afterAnyCase? word u = none

namespace Entry

/-- The entry as it is written. -/
def text (e : Entry) : Text := e.indent ++ e.member

/-- The member without the blanks around it. -/
def selector (e : Entry) : Text := trim e.member

/-- A member starts with a full stop or an ampersand. -/
theorem exists_cons (e : Entry) :
  ∃ c t, e.member = c :: t ∧ (c = '.' ∨ c = '&')
  := by
  rcases e.starts with ⟨t, h⟩ | ⟨t, h⟩ | ⟨t, h⟩
  · exact ⟨'.', t, h.symm, .inl rfl⟩
  · exact ⟨'&', _, h.symm, .inr rfl⟩
  · exact ⟨'&', _, h.symm, .inr rfl⟩

theorem member_ne_nil (e : Entry) :
  e.member ≠ []
  := by
  obtain ⟨c, t, h, -⟩ := e.exists_cons
  rw [h]
  apply List.cons_ne_nil

theorem trim_text (e : Entry) :
  trim e.text = e.selector
  := trim_append_of_blank (fun c hc => (e.blank c hc).1) e.member

theorem selector_ne_nil (e : Entry) :
  e.selector ≠ []
  := by
  obtain ⟨c, t, h, hc⟩ := e.exists_cons
  have hblank : isBlank c = false := by
    rcases hc with rfl | rfl <;> rfl
  rw [selector, h, trim_eq_trimStart_trimEnd, trimEnd_cons, if_neg, trimStart,
    List.dropWhile_cons_of_neg (by simp [hblank])]
  · apply List.cons_ne_nil
  · rintro ⟨-, h⟩
    rw [hblank] at h
    cases h

/-- An entry has none of the marks but blanks. -/
theorem mark_notMem_text (e : Entry) {c : Char} (hc : c ∈ listMarks) :
  c ∉ e.text
  := by
  intro hmem
  rcases List.mem_append.mp hmem with hmem | hmem
  · obtain ⟨hblank, hline⟩ := e.blank c hmem
    simp only [listMarks, List.mem_cons, List.not_mem_nil, or_false] at hc
    rcases hc with rfl | rfl | rfl | rfl | rfl | rfl | rfl | rfl | rfl | rfl | rfl | rfl
    all_goals first
      | exact hline rfl
      | cases hblank
  · exact e.marks c hmem hc

end Entry

/-! ### Rows -/

/-- Entries on one line. -/
def rowText (row : List Entry) : Text := joinWith ',' (row.map Entry.text)

/-- Rows of entries, each row but the last with a comma and a line feed behind it. -/
def rowsText : List (List Entry) → Text
  | [] => []
  | [row] => rowText row
  | row :: rows => rowText row ++ ',' :: '\n' :: rowsText rows

theorem rowText_cons_cons (e f : Entry) (row : List Entry) :
  rowText (e :: f :: row) = e.text ++ ',' :: rowText (f :: row)
  := rfl

theorem rowsText_cons_cons (row next : List Entry) (rows : List (List Entry)) :
  rowsText (row :: next :: rows) = rowText row ++ ',' :: '\n' :: rowsText (next :: rows)
  := rfl

/-- A row has none of the marks but commas. -/
theorem mark_notMem_rowText (row : List Entry) {c : Char} (hc : c ∈ listMarks) (hcomma : c ≠ ',') :
  c ∉ rowText row
  := by
  induction row with
  | nil => apply List.not_mem_nil
  | cons e row ih =>
      cases row with
      | nil => exact e.mark_notMem_text hc
      | cons f row =>
          rw [rowText_cons_cons, List.mem_append, List.mem_cons, not_or, not_or]
          exact ⟨e.mark_notMem_text hc, hcomma, ih⟩

/-- A row ends with the member of its last entry. -/
theorem member_suffix_rowText {row : List Entry} {e : Entry} (h : e ∈ row.getLast?) :
  e.member <:+ rowText row
  := by
  induction row with
  | nil => cases h
  | cons f row ih =>
      cases row with
      | nil =>
          obtain rfl := Option.mem_some_iff.mp h
          apply List.suffix_append
      | cons g row =>
          rw [rowText_cons_cons]
          apply List.suffix_append_of_suffix
          apply (ih h).trans (List.suffix_cons _ _)

/-- Rows end with the member of their last entry. -/
theorem member_suffix_rowsText {rows : List (List Entry)} (hne : ∀ row ∈ rows, row ≠ [])
    {e : Entry} (h : e ∈ rows.flatten.getLast?) :
  e.member <:+ rowsText rows
  := by
  induction rows with
  | nil => cases h
  | cons row rows ih =>
      cases rows with
      | nil =>
          rw [List.flatten_cons, List.flatten_nil, List.append_nil] at h
          apply member_suffix_rowText h
      | cons next rows =>
          have hrows := (List.forall_mem_cons.mp hne).2
          have hflatten : (next :: rows).flatten ≠ [] := by
            rw [List.flatten_cons]
            apply List.append_ne_nil_of_left_ne_nil
            apply hrows next List.mem_cons_self
          rw [List.flatten_cons, List.getLast?_append_of_ne_nil _ hflatten] at h
          rw [rowsText_cons_cons]
          apply List.suffix_append_of_suffix
          apply (ih hrows h).trans
          apply (List.suffix_cons _ _).trans (List.suffix_cons _ _)

/-! ### Rows are calm -/

theorem separator_comma :
  Separator ','
  := by
  constructor
  · decide
  · decide
  · decide

theorem separator_brace :
  Separator '\x7b'
  := by
  constructor
  · decide
  · decide
  · decide

/-- No mark that noise starts with is in a text without list marks. -/
theorem mem_listMarks_of_mem_noiseMarks {c : Char} (h : c ∈ noiseMarks) :
  c ∈ listMarks
  := by
  have hmarks : noiseMarks.all (fun d => listMarks.contains d) = true := rfl
  exact List.contains_iff_mem.mp (List.all_eq_true.mp hmarks c h)

theorem Entry.calm_member (e : Entry) :
  Calm e.member
  := by
  constructor
  · intro c hc hmark
    exact e.marks c hc (mem_listMarks_of_mem_noiseMarks hmark)
  · intro u hu
    apply e.words u ((List.mem_tails u e.member).mpr hu)
  · intro u hu
    cases hafter : after? ['#', '\x7b'] u with
    | none => rfl
    | some rest =>
        have hmem : '\x7b' ∈ u := mem_of_after? hafter (by decide)
        exact absurd (by decide) (e.marks _ (hu.subset hmem))

theorem Entry.calm_text (e : Entry) :
  Calm e.text
  := e.calm_member.append_of_blank fun c hc => (e.blank c hc).1

theorem calm_rowText (row : List Entry) :
  Calm (rowText row)
  := by
  induction row with
  | nil => exact Calm.nil
  | cons e row ih =>
      cases row with
      | nil => exact e.calm_text
      | cons f row =>
          apply e.calm_text.append_cons ih separator_comma
          rintro ⟨⟩

theorem calm_rowsText (rows : List (List Entry)) :
  Calm (rowsText rows)
  := by
  induction rows with
  | nil => exact Calm.nil
  | cons row rows ih =>
      cases rows with
      | nil => exact calm_rowText row
      | cons next rows =>
          have hrest : Calm ('\n' :: rowsText (next :: rows)) := by
            apply Calm.append_cons Calm.nil ih (separator_of_isBlank rfl)
            rintro ⟨⟩
          apply (calm_rowText row).append_cons hrest separator_comma
          rintro ⟨⟩

/-! ### How a row is read -/

/-- The members that a row writes inside a rule with the given name. -/
def membersOf (parent : Option Text) (row : List Entry) : List Member :=
  row.map fun e => Member.ofText parent e.selector

/-- Behind the blanks a row starts with a full stop or an ampersand. -/
theorem trimStart_rowText {row : List Entry} (hne : row ≠ []) :
  ∃ c t, trimStart (rowText row) = c :: t ∧ (c = '.' ∨ c = '&')
  := by
  cases row with
  | nil => exact absurd rfl hne
  | cons e row =>
      obtain ⟨c, t, hmember, hc⟩ := e.exists_cons
      have htext : ∃ rest, rowText (e :: row) = e.indent ++ c :: rest := by
        cases row with
        | nil => exact ⟨t, congrArg _ hmember⟩
        | cons f row =>
            use t ++ ',' :: rowText (f :: row)
            rw [rowText_cons_cons, Entry.text, hmember, List.append_assoc]
            rfl
      obtain ⟨rest, hrest⟩ := htext
      use c, rest
      constructor
      · rw [hrest, trimStart, List.dropWhile_append_of_pos, List.dropWhile_cons_of_neg]
        · rcases hc with rfl | rfl <;> decide
        · intro d hd
          exact (e.blank d hd).1
      · exact hc

/-- Attribute tests take nothing out of a text without brackets. -/
theorem replace_attributeTest {t : Text} (h : '[' ∉ t) (f : Text → Text) :
  attributeTest.replace f t = t
  := by
  apply Shape.replace_of_idle
  intro u hu before
  rw [List.append_nil]
  unfold attributeTest
  split
  · exact absurd (hu.subset List.mem_cons_self) h
  · rfl

/-- The pieces of a row between commas are its entries. -/
theorem splitOn_rowText {row : List Entry} (hne : row ≠ []) :
  splitOn ',' (rowText row) = row.map Entry.text
  := by
  apply splitOn_joinWith
  · simpa using hne
  · intro p hp
    obtain ⟨e, -, rfl⟩ := List.mem_map.mp hp
    apply e.mark_notMem_text (by decide)

/-- Behind a comma that ends a row one more piece begins. -/
theorem splitOn_rowText_comma {row : List Entry} (hne : row ≠ []) :
  splitOn ',' (rowText row ++ [',']) = row.map Entry.text ++ [[]]
  := by
  induction row with
  | nil => exact absurd rfl hne
  | cons e row ih =>
      have he : ',' ∉ e.text := e.mark_notMem_text (by decide)
      cases row with
      | nil => exact splitOn_append_cons he []
      | cons f row =>
          rw [rowText_cons_cons, List.append_assoc, List.cons_append, splitOn_append_cons he,
            ih (List.cons_ne_nil f row)]
          rfl

/-- The two ways in which a row ends: it goes on with another one, or a block opens. -/
def RowEnd (d : Char) : Prop := d = ',' ∨ d = '\x7b'

theorem RowEnd.isBlank_eq_false {d : Char} (hd : RowEnd d) :
  isBlank d = false
  := by
  rcases hd with rfl | rfl <;> rfl

theorem trim_rowText_concat (row : List Entry) {d : Char} (hd : RowEnd d) :
  trim (rowText row ++ [d]) = trimStart (rowText row) ++ [d]
  := trim_concat _ hd.isBlank_eq_false

/-- The members of a row, empty ones left out, are those of its entries. -/
theorem selectors_of_rowText {row : List Entry} (hne : row ≠ []) {d : Char} (hd : RowEnd d) :
  ((splitOn ',' (Member.selectorOf (trim (rowText row ++ [d])))).map trim).filter (· != [])
    = row.map Entry.selector
  := by
  have htexts : (row.map Entry.text).map trim = row.map Entry.selector := by
    rw [List.map_map]
    apply List.map_congr_left
    intro e _
    exact e.trim_text
  have hselectors : (row.map Entry.selector).filter (· != []) = row.map Entry.selector := by
    rw [List.filter_eq_self]
    intro p hp
    obtain ⟨e, -, rfl⟩ := List.mem_map.mp hp
    simpa using e.selector_ne_nil
  have htrimStart : ∀ {c t}, c ∈ trimStart t → c ∈ t := fun h =>
    (List.dropWhile_sublist isBlank).subset h
  have hbrace : ∀ c ∈ trimStart (rowText row), (c != '\x7b') = true := by
    intro c hc
    rw [bne_iff_ne]
    rintro rfl
    exact mark_notMem_rowText row (by decide) (by decide) (htrimStart hc)
  have hbracket : '[' ∉ rowText row := mark_notMem_rowText row (by decide) (by decide)
  rw [Member.selectorOf, trim_rowText_concat row hd]
  rcases hd with rfl | rfl
  · have htake : (trimStart (rowText row) ++ [',']).takeWhile (· != '\x7b')
        = trimStart (rowText row ++ [',']) := by
      rw [trimStart_concat _ rfl, List.takeWhile_append_of_pos hbrace]
      rfl
    rw [htake, replace_attributeTest, map_trim_splitOn_trim rfl, map_trim_splitOn_trimStart rfl,
      splitOn_rowText_comma hne, List.map_append, htexts, List.filter_append, hselectors]
    · simp
    · intro hmem
      rcases List.mem_append.mp (htrimStart (mem_of_mem_trim hmem)) with hmem | hmem
      · exact hbracket hmem
      · cases List.mem_singleton.mp hmem
  · have htake : (trimStart (rowText row) ++ ['\x7b']).takeWhile (· != '\x7b')
        = trimStart (rowText row) := by
      rw [List.takeWhile_append_of_pos hbrace]
      apply List.append_nil
    rw [htake, replace_attributeTest, map_trim_splitOn_trim rfl, map_trim_splitOn_trimStart rfl,
      splitOn_rowText hne, htexts, hselectors]
    intro hmem
    exact hbracket (htrimStart (mem_of_mem_trim hmem))

/-- A row is a selector line, and its members are those that its entries write. -/
theorem ofLine?_rowText {row : List Entry} (hne : row ≠ []) {d : Char} (hd : RowEnd d)
    (parent : Option Text) :
  Member.ofLine? (trim (rowText row ++ [d])) parent = some (membersOf parent row)
  := by
  obtain ⟨c, t, hstart, hc⟩ := trimStart_rowText hne
  have hselectors := selectors_of_rowText hne hd
  have hend : (trim (trim (rowText row ++ [d]))).getLast? ≠ some ';' := by
    rw [trim_trim, trim_rowText_concat row hd, List.getLast?_concat]
    rcases hd with rfl | rfl <;> decide
  rw [trim_rowText_concat row hd, hstart, List.cons_append] at hselectors hend ⊢
  rw [Member.ofLine?, if_neg, if_neg]
  · simp only [hselectors, List.map_map]
    rfl
  · simp [hend]
  · rcases hc with rfl | rfl <;> decide

/-- The only brace of a row is the one that it ends with. -/
theorem feed_rowText (b : OpenBlocks) (opener : Option Text) (row : List Entry) {d : Char}
    (hd : RowEnd d) :
  b.feed opener (trim (rowText row ++ [d])) = if d = '\x7b' then b.opened opener else b
  := by
  have hsubset : ∀ c, c ∈ trimStart (rowText row) → c ∈ rowText row := fun c hc =>
    (List.dropWhile_sublist isBlank).subset hc
  have hopen : '\x7b' ∉ trimStart (rowText row) :=
    mt (hsubset _) (mark_notMem_rowText row (by decide) (by decide))
  have hclose : '\x7d' ∉ trimStart (rowText row) :=
    mt (hsubset _) (mark_notMem_rowText row (by decide) (by decide))
  rw [trim_rowText_concat row hd, OpenBlocks.feed_append hopen hclose]
  rcases hd with rfl | rfl <;> rfl

namespace Scanner

/-- A row is read as a selector line; what it opens or hands on depends on how it ends. -/
theorem read_rowText (s : Scanner) {row : List Entry} (hne : row ≠ []) {d : Char} (hd : RowEnd d)
    (following : List Text) :
  s.read (rowText row ++ [d]) following
    = let text := trim (rowText row ++ [d])
      let members := membersOf s.parent row
      if d = '\x7b' then some { text, members, opener := primary members }
      else some { text, members, carry := primary members <|> s.pending }
  := by
  obtain ⟨c, t, hstart, hc⟩ := trimStart_rowText hne
  have hat : c ≠ '@' := by
    rcases hc with rfl | rfl <;> decide
  have hmembers := ofLine?_rowText hne hd s.parent
  have hbrace : '\x7b' ∉ trimStart (rowText row) := by
    intro hmem
    exact mark_notMem_rowText row (by decide) (by decide)
      ((List.dropWhile_sublist isBlank).subset hmem)
  have htext := trim_rowText_concat row hd
  rw [hstart] at htext hbrace
  rw [htext] at hmembers
  simp only [read, htext, List.cons_append, if_neg hat] at hmembers ⊢
  simp only [hmembers]
  rcases hd with rfl | rfl
  · have hcontains : ¬ (c :: (t ++ [','])).contains '\x7b' = true := by
      rw [List.contains_iff_mem, ← List.cons_append, List.mem_append, not_or]
      use hbrace
      decide
    have hlast : (c :: (t ++ [','])).getLast? = some ',' := List.getLast?_concat (l := c :: t)
    rw [if_neg hcontains, if_pos (by rw [hlast]; rfl), if_neg (by decide)]
  · have hcontains : (c :: (t ++ ['\x7b'])).contains '\x7b' = true := by
      rw [List.contains_iff_mem, ← List.cons_append, List.mem_append]
      exact .inr List.mem_cons_self
    rw [if_pos hcontains, if_pos rfl]

/-- Behind a row that opens a block the row's last name is that of the innermost block. -/
theorem finds_rowText_brace (b : OpenBlocks) (pending : Option Text) {row : List Entry}
    (hne : row ≠ []) (statements : List Text) :
  (⟨b, pending⟩ : Scanner).finds ((rowText row ++ ['\x7b']) :: statements)
    = (membersOf (pending <|> b.top) row).flatMap Member.names
      ++ (⟨b.opened (primary (membersOf (pending <|> b.top) row)), none⟩ : Scanner).finds statements
  := by
  have hread := read_rowText ⟨b, pending⟩ hne (.inr rfl) statements
  rw [finds_cons_of_some hread, advance, feed_rowText b _ row (.inr rfl)]
  rfl

/-- Behind a row that goes on the row's last name is pending. -/
theorem finds_rowText_comma (b : OpenBlocks) (pending : Option Text) {row : List Entry}
    (hne : row ≠ []) (statements : List Text) :
  (⟨b, pending⟩ : Scanner).finds ((rowText row ++ [',']) :: statements)
    = (membersOf (pending <|> b.top) row).flatMap Member.names
      ++ (⟨b, primary (membersOf (pending <|> b.top) row) <|> pending⟩ : Scanner).finds statements
  := by
  have hread := read_rowText ⟨b, pending⟩ hne (.inl rfl) statements
  rw [finds_cons_of_some hread, advance, feed_rowText b _ row (.inl rfl)]
  rfl

end Scanner

end StylePrune.Stylesheet
