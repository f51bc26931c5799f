import StylePrune.Proofs.Stylesheet.Reading
import StylePrune.Proofs.Stylesheet.Statements
import StylePrune.Proofs.Stylesheet.Tidy

/-!
# Statements that stand apart

A statement stands apart if it is cleaned and masked by itself as in any stylesheet: no comment,
string or call reaches over its ends.  Lines that are made of such statements can be put one under
the other as one likes; the stylesheet that they make has their statements, as they were.
-/

namespace StylePrune.Prune

open Text Stylesheet

/-! ### Statements -/

/-- Whether a text may follow a statement: the end of the line, and anything if the statement has
an end of its own. -/
def MayFollow (st : Statement) (rest : Text) : Prop :=
  Terminated st.clean ∨ ∀ c ∈ rest.head?, c = '\n'

/-- A statement that is cleaned and masked by itself as it is where a text follows that may, and
that ends in its mask where it does when it is cleaned. -/
structure Apart (st : Statement) : Prop where
  cleaned : ∀ rest, MayFollow st rest → strip (st.raw ++ rest) = st.clean ++ strip rest
  masked : ∀ rest, MayFollow st rest → mask (st.raw ++ rest) = mask st.raw ++ mask rest
  single : Single (mask st.raw)
  terminated : Terminated (mask st.raw) ↔ Terminated st.clean

theorem passes_strip_lineFeed :
  Passes strip [] [] '\n'
  := by
  apply Calm.nil.passes_strip (.inl rfl)
  rintro ⟨⟩

theorem passes_mask_lineFeed :
  Passes mask [] [] '\n'
  := by
  apply Calm.nil.passes_mask (.inl rfl)
  rintro ⟨⟩

namespace Apart

variable {st : Statement}

theorem strip_raw (h : Apart st) :
  strip st.raw = st.clean
  := by
  have hend : MayFollow st [] := by
    right
    rintro c ⟨⟩
  have hclean := h.cleaned [] hend
  rwa [passes_strip_lineFeed.1, List.append_nil, List.append_nil] at hclean

/-- A rewriting that passes over a text up to the end of its line goes on behind a statement that is
written so. -/
theorem append_of_passes {f : Text → Text} {t t' rest : Text} (hfeed : Passes f [] [] '\n')
    (h : Passes f t t' '\n') (hrest : ∀ c ∈ rest.head?, c = '\n') :
  f (t ++ rest) = t' ++ f rest
  := by
  cases rest with
  | nil => rw [List.append_nil, h.1, hfeed.1, List.append_nil]
  | cons c rest =>
      obtain rfl := hrest c rfl
      rw [h.2, ← List.nil_append ('\n' :: rest), hfeed.2]
      rfl

/-- A tidy text that holds no end of a statement when it is cleaned holds none when it is masked. -/
theorem endsStatement_of_mem_spaced {t : Text}
    (h : ∀ c ∈ commentOrString.replace emptied t, endsStatement c = false) :
  ∀ c ∈ commentOrString.replace spaced t, endsStatement c = false
  := by
  intro c hc
  apply Bool.eq_false_iff.mpr
  intro he
  have hblank : c ≠ ' ' ∧ c ≠ '\n' := by
    constructor
    · rintro rfl
      cases he
    · rintro rfl
      cases he
  rw [h c (mem_replace_of_mem_replace_spaced hc hblank emptied)] at he
  cases he

theorem not_terminated_of_forall {t : Text} (h : ∀ c ∈ t, endsStatement c = false) :
  ¬ Terminated t
  := by
  rintro ⟨d, hd, he⟩
  rw [h d (List.mem_of_getLast? hd)] at he
  cases he

/-- A statement without an end of its own stands apart if it is written as a tidy text. -/
theorem of_tidy (h : Tidy st.raw '\n') (hclean : st.clean = commentOrString.replace emptied st.raw)
    (hends : ∀ c ∈ st.clean, endsStatement c = false) :
  Apart st
  := by
  have hspaced := endsStatement_of_mem_spaced (hclean ▸ hends)
  have hmask := h.passes_mask (.inl rfl)
  have hopen : ¬ Terminated st.clean := not_terminated_of_forall hends
  constructor
  · intro rest hrest
    rw [hclean]
    apply append_of_passes (f := strip) passes_strip_lineFeed (h.passes_strip (.inl rfl))
    exact hrest.resolve_left hopen
  · intro rest hrest
    rw [hmask.1]
    apply append_of_passes (f := mask) passes_mask_lineFeed hmask
    exact hrest.resolve_left hopen
  · rw [hmask.1]
    intro c hc
    exact hspaced c ((List.dropLast_sublist _).subset hc)
  · rw [hmask.1]
    exact iff_of_false (not_terminated_of_forall hspaced) hopen

/-- A statement with an end of its own stands apart if it is written as a tidy text and that end. -/
theorem of_tidy_concat {init : Text} {d : Char} (hd : endsStatement d = true) (h : Tidy init d)
    (hraw : st.raw = init ++ [d]) (hclean : st.clean = commentOrString.replace emptied init ++ [d])
    (hends : ∀ c ∈ commentOrString.replace emptied init, endsStatement c = false) :
  Apart st
  := by
  have hspaced := endsStatement_of_mem_spaced hends
  have hmask := h.passes_mask (.inr hd)
  have hmaskraw : mask st.raw = commentOrString.replace spaced init ++ [d] := by
    rw [hraw, hmask.2, passes_mask_lineFeed.1]
  constructor
  · intro rest _
    rw [hraw, hclean, List.append_assoc, List.append_assoc, List.singleton_append,
      List.singleton_append, (h.passes_strip (.inr hd)).2]
  · intro rest _
    rw [hmaskraw, hraw, List.append_assoc, List.append_assoc, List.singleton_append,
      List.singleton_append, hmask.2]
  · rw [hmaskraw, Single, List.dropLast_concat]
    exact hspaced
  · rw [hmaskraw, hclean]
    apply iff_of_true
    · exact ⟨d, List.getLast?_concat, hd⟩
    · exact ⟨d, List.getLast?_concat, hd⟩

end Apart

/-- Whether a statement is written as a tidy text, with no end of its own. -/
def NeatOpen (st : Statement) : Prop :=
  Tidy st.raw '\n' ∧ st.clean = commentOrString.replace emptied st.raw
    ∧ st.clean.any endsStatement = false

/-- Whether a statement is written as a tidy text and the end given. -/
def NeatUpTo (st : Statement) (d : Char) : Prop :=
  endsStatement d = true ∧ Tidy st.raw.dropLast d
    ∧ st.clean = commentOrString.replace emptied st.raw.dropLast ++ [d]
    ∧ (commentOrString.replace emptied st.raw.dropLast).any endsStatement = false

/-- Whether a statement is written as a tidy text and cleaned of its comments and strings only. -/
def Neat (st : Statement) : Prop := NeatOpen st ∨ ∃ d ∈ st.raw.getLast?, NeatUpTo st d

instance : DecidablePred NeatOpen := fun _ => inferInstanceAs (Decidable (_ ∧ _ ∧ _))

instance (st : Statement) : DecidablePred (NeatUpTo st) :=
  fun _ => inferInstanceAs (Decidable (_ ∧ _ ∧ _ ∧ _))

instance : DecidablePred Neat := fun st =>
  match h : st.raw.getLast? with
  | none => decidable_of_iff (NeatOpen st) (by simp [Neat, h])
  | some d => decidable_of_iff (NeatOpen st ∨ NeatUpTo st d) (by simp [Neat, h])

theorem Neat.apart {st : Statement} (h : Neat st) :
  Apart st
  := by
  rcases h with ⟨htidy, hclean, hends⟩ | ⟨d, hd, he, htidy, hclean, hends⟩
  · apply Apart.of_tidy htidy hclean
    simpa using hends
  · apply Apart.of_tidy_concat he htidy _ hclean
    · simpa using hends
    · obtain ⟨init, hraw⟩ := List.getLast?_eq_some_iff.mp hd
      rw [hraw, List.dropLast_concat]

/-! ### Rows of statements -/

/-- Nothing follows on its line a statement that has no end of its own. -/
theorem eq_nil_of_not_terminated {st : Statement} {row : List Statement}
    (h : ∀ next ∈ row, Terminated st.clean) (ht : ¬ Terminated st.clean) :
  row = []
  := by
  apply List.eq_nil_iff_forall_not_mem.mpr
  intro next hnext
  exact ht (h next hnext)

section Row

variable {row : List Statement} (hrow : row.Pairwise fun a _ => Terminated a.clean)

include hrow

/-- What is done to each statement of a row as it is done to a text that goes on is done to the row
so. -/
theorem append_row {f : Text → Text} {g : Statement → Text}
    (h : ∀ st ∈ row, ∀ rest, MayFollow st rest → f (st.raw ++ rest) = g st ++ f rest) {rest : Text}
    (hrest : ∀ c ∈ rest.head?, c = '\n') :
  f (row.flatMap Statement.raw ++ rest) = row.flatMap g ++ f rest
  := by
  induction row with
  | nil => rfl
  | cons st row ih =>
      obtain ⟨hterminated, hbehind⟩ := List.pairwise_cons.mp hrow
      obtain ⟨hst, hothers⟩ := List.forall_mem_cons.mp h
      have hfollow : MayFollow st (row.flatMap Statement.raw ++ rest) := by
        cases row with
        | nil => exact .inr hrest
        | cons next row => exact .inl (hterminated next List.mem_cons_self)
      rw [List.flatMap_cons, List.flatMap_cons, List.append_assoc, List.append_assoc,
        hst _ hfollow, ih hbehind hothers]

/-- A cleaned row falls into its statements. -/
theorem solids_cut_row (hsingle : ∀ st ∈ row, Single st.clean) :
  solids (cut (row.flatMap Statement.clean)) = solids (row.map Statement.clean)
  := by
  induction row with
  | nil => rfl
  | cons st row ih =>
      obtain ⟨hterminated, hbehind⟩ := List.pairwise_cons.mp hrow
      obtain ⟨hst, hothers⟩ := List.forall_mem_cons.mp hsingle
      rw [List.flatMap_cons, List.map_cons]
      by_cases ht : Terminated st.clean
      · rw [hst.cut_append ht, ← List.singleton_append, solids_append, ih hbehind hothers,
          ← solids_append]
        rfl
      · obtain rfl := eq_nil_of_not_terminated hterminated ht
        rw [List.flatMap_nil, List.append_nil, cut_of_forall_not (hst.forall_not ht)]
        rfl

/-- A row of statements that stand apart is written in as many pieces as it has when it is cleaned,
and where the last one is empty so is the last cleaned one. -/
theorem pieces_row (happart : ∀ st ∈ row, Apart st) (hsingle : ∀ st ∈ row, Single st.clean) :
  (cutAlong (row.flatMap fun st => mask st.raw) (row.flatMap Statement.raw)).length
      = (cut (row.flatMap Statement.clean)).length
    ∧ ((cutAlong (row.flatMap fun st => mask st.raw) (row.flatMap Statement.raw)).getLast? = some []
      → (cut (row.flatMap Statement.clean)).getLast? = some [])
  := by
  induction row with
  | nil =>
      constructor
      · rfl
      · intro _
        rfl
  | cons st row ih =>
      obtain ⟨hterminated, hbehind⟩ := List.pairwise_cons.mp hrow
      obtain ⟨hst, hothers⟩ := List.forall_mem_cons.mp happart
      obtain ⟨hclean, hcleans⟩ := List.forall_mem_cons.mp hsingle
      rw [List.flatMap_cons, List.flatMap_cons, List.flatMap_cons]
      -- only the last statement of a row may be without an end
      by_cases ht : Terminated st.clean
      · obtain ⟨hpieces, hlast⟩ := ih hbehind hothers hcleans
        have hne : cut (row.flatMap Statement.clean) ≠ [] := cutAlong_ne_nil _ _
        rw [hclean.cut_append ht,
          hst.single.cutAlong_append (hst.terminated.mpr ht) (length_mask st.raw)]
        constructor
        · rw [List.length_cons, List.length_cons, hpieces]
        · rw [List.getLast?_cons_of_ne_nil (cutAlong_ne_nil _ _), List.getLast?_cons_of_ne_nil hne]
          exact hlast
      · obtain rfl := eq_nil_of_not_terminated hterminated ht
        have hmask := hst.single.forall_not (mt hst.terminated.mp ht)
        rw [List.flatMap_nil, List.flatMap_nil, List.flatMap_nil, List.append_nil, List.append_nil,
          List.append_nil, cut_of_forall_not (hclean.forall_not ht),
          cutAlong_of_forall_not hmask (length_mask st.raw)]
        constructor
        · rfl
        · intro hempty
          have hraw : st.raw = [] := Option.some.inj hempty
          rw [← hst.strip_raw, hraw, passes_strip_lineFeed.1]
          rfl

end Row

/-! ### Lines -/

/-- A line that is cleaned and masked by itself as it is on top of other lines, and that is written
in as many pieces as it has when it is cleaned. -/
structure ApartLine (line : Text) : Prop where
  cleaned : ∀ rest : Text, (∀ c ∈ rest.head?, c = '\n') →
    strip (line ++ rest) = strip line ++ strip rest
  masked : ∀ rest : Text, (∀ c ∈ rest.head?, c = '\n') →
    mask (line ++ rest) = mask line ++ mask rest
  lineFeed_written : '\n' ∉ line
  lineFeed_cleaned : '\n' ∉ strip line
  pieces : (cutAlong (mask line) line).length = (cut (strip line)).length
  last : (cutAlong (mask line) line).getLast? = some [] → (cut (strip line)).getLast? = some []

section Row

variable {row : List Statement} (hrow : row.Pairwise fun a _ => Terminated a.clean)
    (happart : ∀ st ∈ row, Apart st)

include hrow happart

theorem strip_row :
  strip (row.flatMap Statement.raw) = row.flatMap Statement.clean
  := by
  have hend : ∀ c ∈ ([] : Text).head?, c = '\n' := by
    rintro c ⟨⟩
  have happend := append_row hrow (fun st hst => (happart st hst).cleaned) hend
  rwa [passes_strip_lineFeed.1, List.append_nil, List.append_nil] at happend

theorem mask_row :
  mask (row.flatMap Statement.raw) = row.flatMap fun st => mask st.raw
  := by
  have hend : ∀ c ∈ ([] : Text).head?, c = '\n' := by
    rintro c ⟨⟩
  have happend := append_row hrow (fun st hst => (happart st hst).masked) hend
  rwa [passes_mask_lineFeed.1, List.append_nil, List.append_nil] at happend

/-- Statements that stand apart make a line that does. -/
theorem apartLine_row (hsingle : ∀ st ∈ row, Single st.clean) (hraw : ∀ st ∈ row, '\n' ∉ st.raw)
    (hclean : ∀ st ∈ row, '\n' ∉ st.clean) :
  ApartLine (row.flatMap Statement.raw)
  := by
  have hpieces := pieces_row hrow happart hsingle
  rw [← strip_row hrow happart, ← mask_row hrow happart] at hpieces
  constructor
  · intro rest hrest
    rw [strip_row hrow happart]
    apply append_row hrow (fun st hst => (happart st hst).cleaned) hrest
  · intro rest hrest
    rw [mask_row hrow happart]
    apply append_row hrow (fun st hst => (happart st hst).masked) hrest
  · intro hmem
    obtain ⟨st, hst, hfeed⟩ := List.mem_flatMap.mp hmem
    exact hraw st hst hfeed
  · rw [strip_row hrow happart]
    intro hmem
    obtain ⟨st, hst, hfeed⟩ := List.mem_flatMap.mp hmem
    exact hclean st hst hfeed
  · exact hpieces.1
  · exact hpieces.2

end Row

/-- What is done to each line as it is on top of others is done to lines under one another so. -/
theorem map_ofLines {f : Text → Text} (hfeed : Passes f [] [] '\n') {ls : List Text}
    (h : ∀ l ∈ ls, ∀ rest : Text, (∀ c ∈ rest.head?, c = '\n') → f (l ++ rest) = f l ++ f rest) :
  f (ofLines ls) = ofLines (ls.map f)
  := by
  induction ls with
  | nil => exact hfeed.1
  | cons l ls ih =>
      obtain ⟨hl, hls⟩ := List.forall_mem_cons.mp h
      cases ls with
      | nil => rfl
      | cons m ls =>
          have hhead : ∀ c ∈ ('\n' :: ofLines (m :: ls)).head?, c = '\n' := by
            rintro c ⟨⟩
            rfl
          have hbehind : f ('\n' :: ofLines (m :: ls)) = '\n' :: ofLines ((m :: ls).map f) := by
            rw [← ih hls]
            exact hfeed.2 _
          calc f (ofLines (l :: m :: ls))
            _ = f (l ++ '\n' :: ofLines (m :: ls)) := rfl
            _ = f l ++ '\n' :: ofLines ((m :: ls).map f) := by rw [hl _ hhead, hbehind]
            _ = ofLines ((l :: m :: ls).map f) := rfl

theorem lines_ofLines {ls : List Text} (hne : ls ≠ []) (h : ∀ l ∈ ls, '\n' ∉ l) :
  lines (ofLines ls) = ls
  := splitOn_joinWith hne h

/-- Cleaned statements that are paired with what is written are all that are more than blanks. -/
theorem solids_map_clean_pairUp {line : Nat} {raws cleans : List Text}
    (hlength : raws.length = cleans.length)
    (hlast : raws.getLast? = some [] → cleans.getLast? = some []) :
  solids ((Statement.pairUp line raws cleans).map Statement.clean) = solids cleans
  := by
  fun_induction Statement.pairUp line raws cleans with
  | case1 => rfl
  | case2 raw clean last =>
      obtain rfl : last = [] := Option.some.inj (hlast rfl)
      calc solids [clean]
        _ = solids [clean] ++ solids [[]] := (List.append_nil _).symm
        _ = solids [clean, []] := (solids_append [clean] [[]]).symm
  | case3 raw raws clean cleans hone htwo ih =>
      have hbehind := Nat.succ.inj hlength
      rw [List.map_cons, ← List.singleton_append, solids_append, ih hbehind, ← solids_append]
      · rfl
      · cases raws with
        | nil =>
            rintro ⟨⟩
        | cons r raws =>
            obtain ⟨c, cleans, rfl⟩ := List.exists_cons_of_length_eq_add_one hbehind.symm
            exact hlast
  | case4 raws cleans hone htwo hboth =>
      cases raws with
      | nil =>
          obtain rfl := List.length_eq_zero_iff.mp hlength.symm
          rfl
      | cons raw raws =>
          obtain ⟨clean, cleans, rfl⟩ := List.exists_cons_of_length_eq_add_one hlength.symm
          exact absurd rfl (hboth raw raws clean cleans rfl)

section Lines

variable {ls : List Text} (h : ∀ l ∈ ls, ApartLine l)

include h

theorem strip_ofLines :
  strip (ofLines ls) = ofLines (ls.map strip)
  := map_ofLines (f := strip) passes_strip_lineFeed fun l hl => (h l hl).cleaned

theorem lines_strip_ofLines (hne : ls ≠ []) :
  lines (strip (ofLines ls)) = ls.map strip
  := by
  rw [strip_ofLines h]
  apply lines_ofLines
  · exact mt List.map_eq_nil_iff.mp hne
  · intro p hp
    obtain ⟨l, hl, rfl⟩ := List.mem_map.mp hp
    exact (h l hl).lineFeed_cleaned

/-- The cleaned statements of lines that stand apart are those of each line. -/
theorem solids_statementsOf_ofLines :
  solids (statementsOf (strip (ofLines ls))) = ls.flatMap fun l => solids (cut (strip l))
  := by
  cases ls with
  | nil =>
      rw [strip_ofLines h]
      rfl
  | cons l ls =>
      rw [statementsOf, lines_strip_ofLines h (List.cons_ne_nil l ls), ← flatMap_solids,
        List.flatMap_map]

theorem exists_pairLines (line : Nat) :
  ∃ statements, Statement.pairLines line ls (ls.map strip) (ls.map mask) = .ok statements
    ∧ solids (statements.map Statement.clean) = ls.flatMap fun l => solids (cut (strip l))
  := by
  induction ls generalizing line with
  | nil => exact ⟨[], rfl, rfl⟩
  | cons l ls ih =>
      obtain ⟨hl, hls⟩ := List.forall_mem_cons.mp h
      obtain ⟨others, hothers, hsolids⟩ := ih hls (line + 1)
      have hrow : Statement.pairLine line l (strip l) (mask l)
          = .ok (Statement.pairUp line (cutAlong (mask l) l) (cut (strip l))) := by
        rw [Statement.pairLine, if_pos hl.pieces]
      use Statement.pairUp line (cutAlong (mask l) l) (cut (strip l)) ++ others
      constructor
      · rw [List.map_cons, List.map_cons, Statement.pairLines, hrow, hothers]
        rfl
      · rw [List.map_append, solids_append, solids_map_clean_pairUp hl.pieces hl.last, hsolids,
          List.flatMap_cons]

/-- The statements of lines that stand apart are those of each line. -/
theorem exists_split_ofLines :
  ∃ statements, Statement.split (ofLines ls) = .ok statements
    ∧ solids (statements.map Statement.clean) = ls.flatMap fun l => solids (cut (strip l))
  := by
  cases ls with
  | nil => exact ⟨[⟨[], [], 0⟩], rfl, rfl⟩
  | cons l rest =>
      have hne : l :: rest ≠ [] := List.cons_ne_nil _ _
      have hwritten : lines (ofLines (l :: rest)) = l :: rest :=
        lines_ofLines hne fun l hl => (h l hl).lineFeed_written
      have hcleaned := lines_strip_ofLines h hne
      have hmasked : lines (mask (ofLines (l :: rest))) = (l :: rest).map mask := by
        rw [map_ofLines (f := mask) passes_mask_lineFeed fun l hl => (h l hl).masked]
        apply lines_ofLines
        · apply List.cons_ne_nil
        · intro p hp
          obtain ⟨l', hl', rfl⟩ := List.mem_map.mp hp
          apply lineFeed_notMem_mask (h l' hl').lineFeed_written
      obtain ⟨statements, hpairs, hsolids⟩ := exists_pairLines h 0
      use statements
      constructor
      · rw [Statement.split, hwritten, hcleaned, hmasked, if_pos (List.length_map _).symm, hpairs]
      · exact hsolids

end Lines

end StylePrune.Prune
