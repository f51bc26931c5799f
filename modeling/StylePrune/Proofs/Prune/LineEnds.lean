import Mathlib.Data.List.Nodup
import StylePrune.Proofs.Prune.Pairing
import StylePrune.Proofs.Prune.Rows
import StylePrune.Proofs.Stylesheet.LineEnds

/-!
# Removing from a stylesheet with carriage returns

In a stylesheet whose lines end with a carriage return and a line feed every line but the last has
one more character, which belongs to its last statement or is a statement of its own
(`split_crlf`).  Neither changes the verdict on another statement (`run_of_returnedRows`).  So the
same is removed as from the stylesheet without the carriage returns, and a line keeps its carriage
return exactly if it does not end inside of a removed block (`remove_crlf`).
-/

namespace StylePrune.Statement

open Text Stylesheet

/-! ### Statements with a carriage return behind them -/

/-- Whether a row of statements is another one with a carriage return behind it: within its last
statement, which then has no brace and no semicolon, or as a statement that is blank. -/
inductive Returned : List Statement → List Statement → Prop
  | within (before : List Statement) {st st' : Statement} (raw_eq : st'.raw = st.raw ++ ['\r'])
      (tailed : Tailed st.clean st'.clean) (line_eq : st'.line = st.line)
      (free : ∀ c ∈ st.clean, endsStatement c = false) :
      Returned (before ++ [st]) (before ++ [st'])
  | behind (row : List Statement) {st : Statement} (raw_eq : st.raw = ['\r'])
      (blank : trim st.clean = []) :
      Returned row (row ++ [st])

/-- Rows of statements on the lines from a number on, without carriage returns and with a carriage
return behind every row but the last one. -/
inductive ReturnedRows : Nat → List (List Statement) → List (List Statement) → Prop
  | last {line : Nat} {row : List Statement} (row_ne : row ≠ [])
      (line_eq : ∀ st ∈ row, st.line = line) :
      ReturnedRows line [row] [row]
  | cons {line : Nat} {row row' : List Statement} {rows rows' : List (List Statement)}
      (row_ne : row ≠ []) (line_eq : ∀ st ∈ row, st.line = line)
      (line_eq' : ∀ st ∈ row', st.line = line) (returned : Returned row row')
      (behind : ReturnedRows (line + 1) rows rows') :
      ReturnedRows line (row :: rows) (row' :: rows')

/-- The last piece of a line has no end of a statement. -/
theorem exists_cut_concat (line : Text) :
  ∃ ps p, cut line = ps ++ [p] ∧ ∀ c ∈ p, endsStatement c = false
  := by
  induction line with
  | nil => exact ⟨[], [], rfl, List.forall_mem_nil _⟩
  | cons c line ih =>
      obtain ⟨ps, p, hp, hfree⟩ := ih
      rw [cut] at hp
      rw [cut, cutAlong, hp]
      split
      · exact ⟨[c] :: ps, p, rfl, hfree⟩
      · next hc =>
        cases ps with
        | nil =>
            exact ⟨[], c :: p, rfl, List.forall_mem_cons.mpr ⟨Bool.eq_false_iff.mpr hc, hfree⟩⟩
        | cons q ps => exact ⟨(c :: q) :: ps, p, rfl, hfree⟩

/-- The last pair is left out if its text is empty and it is not the only one. -/
theorem pairUp_concat (line : Nat) {raws cleans : List Text} (hlength : raws.length = cleans.length)
    (raw clean : Text) :
  pairUp line (raws ++ [raw]) (cleans ++ [clean])
    = ((raws.zip cleans).map fun pair => ⟨pair.1, pair.2, line⟩)
      ++ if raws ≠ [] ∧ raw = [] then [] else [⟨raw, clean, line⟩]
  := by
  induction raws generalizing cleans with
  | nil =>
      obtain rfl := List.length_eq_zero_iff.mp hlength.symm
      rfl
  | cons r raws ih =>
      obtain ⟨c, cleans, rfl⟩ := List.exists_cons_of_length_eq_add_one hlength.symm
      have hbehind := ih (Nat.succ.inj hlength)
      rw [List.cons_append, List.cons_append, List.zip_cons_cons, List.map_cons]
      by_cases hone : raws = []
      · subst hone
        obtain rfl := List.length_eq_zero_iff.mp (Nat.succ.inj hlength).symm
        cases raw with
        | nil => rfl
        | cons d raw => rfl
      · rw [pairUp, hbehind]
        · simp [hone]
        · intro hnil
          exact absurd hnil (List.append_ne_nil_of_right_ne_nil raws (List.cons_ne_nil raw []))
        · intro last hlast
          have hlengths := congrArg List.length hlast
          rw [List.length_append, List.length_singleton, List.length_singleton] at hlengths
          exact absurd (List.length_eq_zero_iff.mp (Nat.succ.inj hlengths)) hone

/-- A line that is cut into statements has some, on it, and cleaned they begin the pieces of the
cleaned line. -/
theorem of_pairLine {line : Nat} {raw clean masked : Text} {row : List Statement}
    (h : pairLine line raw clean masked = .ok row) :
  row ≠ [] ∧ (∀ st ∈ row, st.line = line) ∧ row.map Statement.clean <+: cut clean
  := by
  rw [pairLine] at h
  split at h
  · next hlength =>
    obtain rfl := Except.ok.inj h
    refine ⟨pairUp_ne_nil (cutAlong_ne_nil masked raw) hlength, ?_, isPrefix_map_clean_pairUp _ _ _⟩
    intro st hst
    exact line_of_mem_pairUp hst
  · cases h

/-- With a carriage return behind it a line is cut into the same statements, or into one more. -/
theorem pairLine_returned {raw clean masked clean' masked' : Text} (hclean : Tailed clean clean')
    (hmasked : Tailed masked masked') (hlength : masked.length = raw.length)
    (hlength' : masked'.length = (raw ++ ['\r']).length) (line : Nat) :
  (∃ anomaly, pairLine line raw clean masked = .error anomaly
      ∧ pairLine line (raw ++ ['\r']) clean' masked' = .error anomaly)
    ∨ ∃ row row', pairLine line raw clean masked = .ok row
      ∧ pairLine line (raw ++ ['\r']) clean' masked' = .ok row'
      ∧ (solids (row.map Statement.clean) = solids (cut clean) → Returned row row')
  := by
  obtain ⟨pads, hpads, rfl⟩ := hclean
  obtain ⟨pads', hpads', rfl⟩ := hmasked
  have hreturn : pads'.length = ['\r'].length := by
    rw [List.length_append, List.length_append, hlength] at hlength'
    exact Nat.add_left_cancel hlength'
  obtain ⟨ps, p, hp, hpp⟩ := cutAlong_append hlength
    (fun b hb => endsStatement_of_isPad (hpads' b hb)) hreturn
  obtain ⟨cs, c, hc, hcc⟩ := @cutAlong_append clean clean pads pads rfl
    (fun b hb => endsStatement_of_isPad (hpads b hb)) rfl
  rw [pairLine, pairLine, cut, cut, hp, hpp, hc, hcc]
  simp only [List.length_append, List.length_singleton, Nat.add_right_cancel_iff]
  by_cases hcount : ps.length = cs.length
  · right
    have hclean : ((ps.zip cs).map fun pair => (⟨pair.1, pair.2, line⟩ : Statement)).map
        Statement.clean = cs := by
      rw [List.map_map]
      exact List.map_snd_zip (Nat.le_of_eq hcount.symm)
    have hne : p ++ ['\r'] ≠ [] := List.append_ne_nil_of_right_ne_nil p (List.cons_ne_nil _ [])
    rw [if_pos hcount, if_pos hcount, pairUp_concat line hcount, pairUp_concat line hcount,
      if_neg fun h : _ ∧ p ++ ['\r'] = [] => hne h.2]
    refine ⟨_, _, rfl, rfl, ?_⟩
    split
    · next hdropped =>
      intro hsolids
      rw [List.append_nil, hclean, solids_append] at hsolids
      rw [hdropped.2, List.append_nil]
      apply Returned.behind _ rfl
      have hblank : trim c = [] := by
        by_contra hsolid
        rw [solids_cons_of_ne hsolid] at hsolids
        simp at hsolids
      rw [Tailed.trim_eq ⟨pads, hpads, rfl⟩, hblank]
    · intro _
      obtain ⟨qs, q, hq, hfree⟩ := exists_cut_concat clean
      obtain ⟨-, hqc⟩ := List.append_inj' (hq.symm.trans hc) rfl
      obtain rfl := List.singleton_inj.mp hqc
      exact Returned.within _ rfl ⟨pads, hpads, rfl⟩ rfl hfree
  · left
    rw [if_neg hcount, if_neg hcount]
    exact ⟨_, rfl, rfl⟩

/-- The cleaned statements of lines are pieces of the cleaned lines, in their order. -/
theorem Rows.sublist_clean {line : Nat} {raws cleans : List Text} {rows : List (List Statement)}
    (h : Rows line raws cleans rows) :
  (rows.flatten.map Statement.clean).Sublist (cleans.flatMap cut)
  := by
  induction h with
  | nil => exact List.Sublist.refl []
  | cons _ _ hclean _ _ ih =>
      rw [List.flatten_cons, List.map_append, List.flatMap_cons]
      exact hclean.sublist.append ih

theorem solids_sublist {ps qs : List Text} (h : ps.Sublist qs) :
  (solids ps).Sublist (solids qs)
  := (h.map trim).filter _

/-- Parts that together are all there is are all there is each. -/
theorem eq_of_sublist_of_append_eq {α : Type} {a b a' b' : List α} (ha : a.Sublist a')
    (hb : b.Sublist b') (h : a ++ b = a' ++ b') :
  a = a' ∧ b = b'
  := by
  have hlength := congrArg List.length h
  rw [List.length_append, List.length_append] at hlength
  have hle := ha.length_le
  have hle' := hb.length_le
  exact ⟨ha.eq_of_length (by omega), hb.eq_of_length (by omega)⟩

/-- What is cut from lines is cut from the first line and from the others. -/
theorem pairLines_cons (line : Nat) (raw clean masked : Text) (raws cleans maskeds : List Text) :
  pairLines line (raw :: raws) (clean :: cleans) (masked :: maskeds)
    = pairLine line raw clean masked >>= fun first =>
      pairLines (line + 1) raws cleans maskeds >>= fun others => .ok (first ++ others)
  := rfl

/-- With carriage returns behind them, but for the last one, lines are cut into the same statements,
but for carriage returns, if no statement is left out but blank ones; or they cannot be cut, for the
same reason. -/
theorem pairLines_returned {raws cleans maskeds cleans' maskeds' : List Text} (hne : raws ≠ [])
    (hcleans : List.Forall₂ Tailed cleans cleans') (hlast : cleans'.getLast? = cleans.getLast?)
    (hmaskeds : List.Forall₂ Tailed maskeds maskeds')
    (hlast' : maskeds'.getLast? = maskeds.getLast?) (hcount : raws.length = cleans.length)
    (hlengths : List.Forall₂ (fun raw masked => masked.length = raw.length) raws maskeds)
    (hlengths' : List.Forall₂ (fun raw masked => masked.length = raw.length)
      (returned raws) maskeds')
    (line : Nat) :
  (∃ anomaly, pairLines line raws cleans maskeds = .error anomaly
      ∧ pairLines line (returned raws) cleans' maskeds' = .error anomaly)
    ∨ ∃ rows rows', pairLines line raws cleans maskeds = .ok rows.flatten
      ∧ pairLines line (returned raws) cleans' maskeds' = .ok rows'.flatten
      ∧ (solids (rows.flatten.map Statement.clean) = solids (cleans.flatMap cut) →
        ReturnedRows line rows rows')
  := by
  induction raws generalizing cleans maskeds cleans' maskeds' line with
  | nil => exact absurd rfl hne
  | cons raw raws ih =>
      obtain ⟨clean, cleans, rfl⟩ := List.exists_cons_of_length_eq_add_one hcount.symm
      obtain ⟨clean', cleans', hclean, htaileds, rfl⟩ := List.forall₂_cons_left_iff.mp hcleans
      obtain ⟨masked, maskeds, hlength, hsizes, rfl⟩ := List.forall₂_cons_left_iff.mp hlengths
      obtain ⟨masked', maskeds', hmasked, htaileds', rfl⟩ := List.forall₂_cons_left_iff.mp hmaskeds
      replace hcount := Nat.succ.inj hcount
      by_cases hone : raws = []
      · -- the last line is the same
        subst hone
        obtain rfl := List.length_eq_zero_iff.mp hcount.symm
        obtain rfl := List.forall₂_nil_left_iff.mp hsizes
        obtain rfl := List.forall₂_nil_left_iff.mp htaileds
        obtain rfl := List.forall₂_nil_left_iff.mp htaileds'
        obtain rfl : clean' = clean := Option.some.inj hlast
        obtain rfl : masked' = masked := Option.some.inj hlast'
        rw [returned, pairLines_cons]
        cases hrow : pairLine line raw clean' masked' with
        | error anomaly => exact .inl ⟨anomaly, rfl, rfl⟩
        | ok row =>
            obtain ⟨hrowne, hline, -⟩ := of_pairLine hrow
            refine .inr ⟨[row], [row], ?_, ?_, fun _ => .last hrowne hline⟩
            · rw [List.flatten_singleton]
              exact congrArg Except.ok (List.append_nil row)
            · rw [List.flatten_singleton]
              exact congrArg Except.ok (List.append_nil row)
      · have hmany : ∀ {ls : List Text}, raws.length = ls.length → ls ≠ [] := by
          rintro ls hls rfl
          exact hone (List.length_eq_zero_iff.mp hls)
        have hmaskcount := hsizes.length_eq
        rw [List.getLast?_cons_of_ne_nil (hmany (hcount.trans htaileds.length_eq)),
          List.getLast?_cons_of_ne_nil (hmany hcount)] at hlast
        rw [List.getLast?_cons_of_ne_nil (hmany (hmaskcount.trans htaileds'.length_eq)),
          List.getLast?_cons_of_ne_nil (hmany hmaskcount)] at hlast'
        rw [returned_cons hone] at hlengths' ⊢
        obtain ⟨hlength', hsizes'⟩ := List.forall₂_cons.mp hlengths'
        rw [pairLines_cons, pairLines_cons]
        rcases pairLine_returned hclean hmasked hlength hlength' line with
          ⟨anomaly, hrow, hrow'⟩ | ⟨row, row', hrow, hrow', hreturned⟩
        · rw [hrow, hrow']
          exact .inl ⟨anomaly, rfl, rfl⟩
        · rw [hrow, hrow']
          rcases ih hone htaileds hlast htaileds' hlast' hcount hsizes hsizes' (line + 1) with
            ⟨anomaly, hrows, hrows'⟩ | ⟨rows, rows', hrows, hrows', hbehind⟩
          · rw [hrows, hrows']
            exact .inl ⟨anomaly, rfl, rfl⟩
          · rw [hrows, hrows']
            refine .inr ⟨row :: rows, row' :: rows', rfl, rfl, fun hsolids => ?_⟩
            obtain ⟨hrowne, hline, hstarts⟩ := of_pairLine hrow
            obtain ⟨rows₀, hlies, hflatten⟩ := exists_rows_of_pairLines hcount hmaskcount hrows
            have hsublist := hlies.sublist_clean
            rw [hflatten] at hsublist
            rw [List.flatten_cons, List.map_append, List.flatMap_cons, solids_append,
              solids_append] at hsolids
            obtain ⟨hfirst, hothers⟩ := eq_of_sublist_of_append_eq
              (solids_sublist hstarts.sublist) (solids_sublist hsublist) hsolids
            exact .cons hrowne hline (of_pairLine hrow').2.1 (hreturned hfirst) (hbehind hothers)

/-- With a carriage return in front of every line feed a stylesheet is cut into the same statements,
but for carriage returns, if none of its strings goes on over the end of a line and no statement is
left out but blank ones; or it cannot be cut, for the same reason. -/
theorem split_crlf {t : Text} (hstrings : '\n' ∉ stringsIn (withoutAddresses t)) :
  (∃ anomaly, split t = .error anomaly ∧ split (crlf t) = .error anomaly)
    ∨ ∃ rows rows', split t = .ok rows.flatten ∧ split (crlf t) = .ok rows'.flatten
      ∧ (Prune.Whole t → ReturnedRows 0 rows rows')
  := by
  have hpadded := padded_crlf t
  obtain ⟨hcleans, hlast⟩ := (padded_strip hpadded hstrings).lines
  have hraws := hpadded.lines.1.length_eq
  have hstripped := hcleans.length_eq
  rw [split, split]
  by_cases hcount : (lines t).length = (lines (strip t)).length
  · have hlost := lineFeed_notMem_lost hcount
    rw [lost, List.mem_append, List.mem_append, not_or, not_or] at hlost
    obtain ⟨hmaskeds, hlast'⟩ := (padded_mask hpadded hlost.1.1 hstrings).lines
    have hlengths := forall₂_length_lines_mask (crlf t)
    rw [lines_crlf] at hlengths
    rw [if_pos hcount, if_pos (by omega), lines_crlf]
    rcases pairLines_returned (splitOn_ne_nil '\n' t) hcleans hlast hmaskeds hlast' hcount
      (forall₂_length_lines_mask t) hlengths 0 with hsame | ⟨rows, rows', hrows, hrows', hreturned⟩
    · exact .inl hsame
    · refine .inr ⟨rows, rows', hrows, hrows', fun hwhole => hreturned ?_⟩
      rw [Prune.Whole, Prune.statementsIn, split, if_pos hcount] at hwhole
      have hlines : pairLines 0 (lines t) (lines (strip t)) (lines (mask t)) = .ok rows.flatten :=
        hrows
      rw [hlines] at hwhole
      exact hwhole
  · rw [if_neg hcount, if_neg (by omega)]
    exact .inl ⟨_, rfl, rfl⟩

/-! ### Rows with a carriage return behind them -/

open Prune in
theorem cores_singleton_congr {st st' : Statement} (htailed : Tailed st.clean st'.clean)
    (hline : st'.line = st.line) :
  cores [st'] = cores [st]
  := by
  have htrim := htailed.trim_eq
  by_cases h : trim st.clean = []
  · rw [cores_cons_of_blank h, cores_cons_of_blank (htrim.trans h)]
  · rw [cores_cons_of_ne h, cores_cons_of_ne (htrim ▸ h), htrim, hline]

/-- But for blanks, and for what it is written as, a row stays the same. -/
theorem Returned.cores_eq {row row' : List Statement} (h : Returned row row') :
  Prune.cores row' = Prune.cores row
  := by
  cases h with
  | within before _ htailed hline _ =>
      rw [Prune.cores_append, Prune.cores_append, cores_singleton_congr htailed hline]
  | behind row _ hblank =>
      rw [Prune.cores_append, Prune.cores_cons_of_blank hblank]
      exact List.append_nil _

theorem Returned.ne_nil {row row' : List Statement} (h : Returned row row') :
  row' ≠ []
  := by
  cases h with
  | within before => exact List.append_ne_nil_of_right_ne_nil before (List.cons_ne_nil _ [])
  | behind row => exact List.append_ne_nil_of_right_ne_nil row (List.cons_ne_nil _ [])

namespace ReturnedRows

variable {line : Nat} {rows rows' : List (List Statement)}

theorem cores_eq (h : ReturnedRows line rows rows') :
  Prune.cores rows'.flatten = Prune.cores rows.flatten
  := by
  induction h with
  | last => rfl
  | cons _ _ _ hreturned _ ih =>
      rw [List.flatten_cons, List.flatten_cons, Prune.cores_append, Prune.cores_append, ih,
        hreturned.cores_eq]

theorem le_line (h : ReturnedRows line rows rows') :
  (∀ st ∈ rows.flatten, line ≤ st.line) ∧ ∀ st ∈ rows'.flatten, line ≤ st.line
  := by
  induction h with
  | @last line row _ hrow =>
      have hle : ∀ st ∈ [row].flatten, line ≤ st.line := by
        intro st hst
        rw [List.flatten_singleton] at hst
        exact Nat.le_of_eq (hrow st hst).symm
      exact ⟨hle, hle⟩
  | @cons line row row' rows rows' _ hrow hrow' _ _ ih =>
      rw [List.flatten_cons, List.flatten_cons, List.forall_mem_append, List.forall_mem_append]
      refine ⟨⟨fun st hst => ?_, fun st hst => ?_⟩, fun st hst => ?_, fun st hst => ?_⟩
      · exact Nat.le_of_eq (hrow st hst).symm
      · exact Nat.le_of_succ_le (ih.1 st hst)
      · exact Nat.le_of_eq (hrow' st hst).symm
      · exact Nat.le_of_succ_le (ih.2 st hst)

end ReturnedRows

/-- Statements on a line are in order, in front of others that are on later lines. -/
theorem inOrder_append {line : Nat} {row rest : List Statement} (hrow : ∀ st ∈ row, st.line = line)
    (hrest : ∀ st ∈ rest, line < st.line) (h : Prune.InOrder rest) :
  Prune.InOrder (row ++ rest)
  := by
  rw [Prune.InOrder, List.pairwise_append]
  refine ⟨?_, h, ?_⟩
  · apply List.pairwise_of_forall_mem_list
    intro a ha b hb
    rw [hrow a ha, hrow b hb]
  · intro a ha b hb
    rw [hrow a ha]
    exact Nat.le_of_lt (hrest b hb)

theorem ReturnedRows.inOrder {line : Nat} {rows rows' : List (List Statement)}
    (h : ReturnedRows line rows rows') :
  Prune.InOrder rows.flatten ∧ Prune.InOrder rows'.flatten
  := by
  induction h with
  | @last line row _ hrow =>
      have horder : Prune.InOrder [row].flatten :=
        inOrder_append hrow (fun st hst => absurd hst List.not_mem_nil) List.Pairwise.nil
      exact ⟨horder, horder⟩
  | cons _ hrow hrow' _ hbehind ih =>
      exact ⟨inOrder_append hrow hbehind.le_line.1 ih.1,
        inOrder_append hrow' hbehind.le_line.2 ih.2⟩

end StylePrune.Statement

namespace StylePrune.Prune

open Text Stylesheet Statement

/-! ### What is kept of a row with a carriage return -/

variable {names : List Text}

/-- Whether of a row the same is kept as of another one, and the carriage return behind it if that
does not end inside of a removed block. -/
structure Ended (names : List Text) (row row' : List Visit) : Prop where
  kept : keptText names row'
    = keptText names row ++ if EndsOutside names row then ['\r'] else []
  stays : stays names row' = stays names row

theorem Visit.judged_eq (v : Visit) :
  v.judged names = (v.statement, if v.Kept names then .kept else .cut)
  := by
  by_cases hk : v.Kept names
  · rw [if_pos hk, judged, hk]
  · have hcut : v.verdict names = .cut := by
      cases hv : v.verdict names with
      | kept => exact absurd hv hk
      | cut => rfl
    rw [if_neg hk, judged, hcut]

theorem keptText_congr {row row' : List Visit}
    (h : row'.map (Visit.judged names) = row.map (Visit.judged names)) :
  keptText names row' = keptText names row
  := congrArg keptOf h

theorem keptText_concat (row : List Visit) (v : Visit) :
  keptText names (row ++ [v])
    = keptText names row ++ if v.Kept names then v.statement.raw else []
  := by
  rw [keptText, keptText, List.map_append, keptOf, List.filter_append, List.flatMap_append,
    List.map_singleton, Visit.judged_eq]
  congr 1
  split
  · exact List.append_nil _
  · rfl

/-- Whether a statement of a row is cut. -/
def isCut (names : List Text) (row : List Visit) : Bool :=
  (row.map (Visit.judged names)).any (·.2 == .cut)

theorem isCut_congr {row row' : List Visit}
    (h : row'.map (Visit.judged names) = row.map (Visit.judged names)) :
  isCut names row' = isCut names row
  := by
  rw [isCut, h, isCut]

theorem isCut_concat (row : List Visit) (v : Visit) :
  isCut names (row ++ [v]) = (isCut names row || !decide (v.Kept names))
  := by
  rw [isCut, List.map_append, List.any_append, List.map_singleton, Visit.judged_eq]
  congr 1
  by_cases hk : v.Kept names
  · rw [if_pos hk, decide_eq_true hk]
    rfl
  · rw [if_neg hk, decide_eq_false hk]
    rfl

theorem stays_eq (row : List Visit) :
  stays names row = !(isCut names row && blank (keptText names row))
  := rfl

theorem blank_append_return (t : Text) (p : Prop) [Decidable p] :
  blank (t ++ if p then ['\r'] else []) = blank t
  := by
  split
  · rw [blank, List.all_append]
    exact Bool.and_true _
  · rw [List.append_nil]

/-- Something is cut from a row that ends inside of a removed block. -/
theorem isCut_of_not_endsOutside {row : List Visit} (h : ¬ EndsOutside names row) :
  isCut names row = true
  := by
  rcases List.eq_nil_or_concat row with rfl | ⟨before, v, rfl⟩
  · exact absurd (fun _ hv => absurd hv (Option.not_mem_none _)) h
  · rw [List.concat_eq_append] at h ⊢
    rw [endsOutside_concat] at h
    have hk : ¬ v.Kept names := mt Visit.phase_next_of_kept h
    simp [isCut_concat, hk]

/-- A carriage return within the last statement of a row changes nothing behind the row. -/
theorem ended_of_within {s : State} {before rest rest' : List Statement} {st st' : Statement}
    (hraw : st'.raw = st.raw ++ ['\r']) (htailed : Tailed st.clean st'.clean)
    (hline : st'.line = st.line) (hfree : ∀ c ∈ st.clean, endsStatement c = false)
    (hs : s.phase.Sound) (hcores : cores rest' = cores rest)
    (horder : InOrder (before ++ [st] ++ rest)) (horder' : InOrder (before ++ [st'] ++ rest')) :
  stateBehind names s (before ++ [st']) rest' = stateBehind names s (before ++ [st]) rest
    ∧ Ended names (visitsTo names s (before ++ [st]) rest) (visitsTo names s (before ++ [st']) rest')
  := by
  rw [List.append_assoc] at horder horder'
  have hlast : cores (st' :: rest') = cores (st :: rest) := by
    rw [← List.singleton_append, cores_append, cores_singleton_congr htailed hline, hcores]
    exact (cores_append [st] rest).symm
  obtain ⟨hjudged, hstate⟩ := @visitsTo_congr names s before (st :: rest) (st' :: rest') hlast
    horder horder'
  rw [visitsTo_concat, visitsTo_concat, stateBehind_concat, stateBehind_concat, hstate]
  have hrest := (List.pairwise_cons.mp (List.pairwise_append.mp horder).2.1).2
  have hrest' := (List.pairwise_cons.mp (List.pairwise_append.mp horder').2.1).2
  have hstep : (stateBehind names s before (st :: rest)).step names st' rest'
      = (stateBehind names s before (st :: rest)).step names st rest :=
    step_congr htailed.trim_eq hline hcores hrest hrest'
  have hsound : (stateBehind names s before (st :: rest)).phase.Sound := sound_stateBehind hs
  generalize stateBehind names s before (st :: rest) = s₁ at hstep hsound
  have hnext : (⟨s₁, st', rest'⟩ : Visit).next names = (⟨s₁, st, rest⟩ : Visit).next names :=
    congrArg Prod.snd hstep
  have hverdict : (⟨s₁, st', rest'⟩ : Visit).Kept names
      ↔ (⟨s₁, st, rest⟩ : Visit).Kept names := by
    rw [Visit.Kept, Visit.verdict, hstep]
    rfl
  have hkept : (⟨s₁, st, rest⟩ : Visit).Kept names
      ↔ ((⟨s₁, st, rest⟩ : Visit).next names).phase = .copying :=
    Visit.kept_iff_copying_of_unended hfree hsound
  have htext : keptText names (visitsTo names s before (st' :: rest') ++ [⟨s₁, st', rest'⟩])
      = keptText names (visitsTo names s before (st :: rest) ++ [⟨s₁, st, rest⟩])
        ++ if EndsOutside names (visitsTo names s before (st :: rest) ++ [⟨s₁, st, rest⟩])
          then ['\r'] else [] := by
    simp only [keptText_concat, endsOutside_concat, ← hkept, hverdict, hraw,
      keptText_congr hjudged]
    split
    · rw [List.append_assoc]
    · rw [List.append_nil, List.append_nil]
  refine ⟨hnext, htext, ?_⟩
  rw [stays_eq, stays_eq, htext, blank_append_return, isCut_concat, isCut_concat,
    isCut_congr hjudged]
  simp only [hverdict]

/-- A carriage return behind the last statement of a row changes nothing behind the row. -/
theorem ended_of_behind {s : State} {row rest rest' : List Statement} {st : Statement}
    (hraw : st.raw = ['\r']) (hblank : trim st.clean = []) (hne : row ≠ []) (hs : s.phase.Sound)
    (hcores : cores rest' = cores rest) (horder : InOrder (row ++ rest))
    (horder' : InOrder (row ++ [st] ++ rest')) :
  stateBehind names s (row ++ [st]) rest' = stateBehind names s row rest
    ∧ Ended names (visitsTo names s row rest) (visitsTo names s (row ++ [st]) rest')
  := by
  rw [List.append_assoc] at horder'
  have hrest : cores (st :: rest') = cores rest :=
    (cores_cons_of_blank hblank rest').trans hcores
  obtain ⟨hjudged, hstate⟩ :=
    @visitsTo_congr names s row rest (st :: rest') hrest horder horder'
  have hsound : (stateBehind names s row rest).phase.Sound := sound_stateBehind hs
  have hends := @endsOutside_visitsTo names s row rest hne
  rw [visitsTo_concat, stateBehind_concat, hstate]
  generalize stateBehind names s row rest = s₁ at hsound hends
  have hnext : (⟨s₁, st, rest'⟩ : Visit).next names = s₁ := Visit.next_of_blank hblank hsound
  have hkept : (⟨s₁, st, rest'⟩ : Visit).Kept names
      ↔ EndsOutside names (visitsTo names s row rest) := by
    rw [hends, Visit.kept_iff_copying _ _ hsound, hnext]
    · rw [Visit.text, hblank]
      rfl
    · rw [Visit.text, hblank]
      rfl
  have htext : keptText names (visitsTo names s row (st :: rest') ++ [⟨s₁, st, rest'⟩])
      = keptText names (visitsTo names s row rest)
        ++ if EndsOutside names (visitsTo names s row rest) then ['\r'] else [] := by
    simp only [keptText_concat, hkept, hraw, keptText_congr hjudged]
  refine ⟨hnext, htext, ?_⟩
  rw [stays_eq, stays_eq, htext, blank_append_return, isCut_concat, isCut_congr hjudged]
  by_cases hout : EndsOutside names (visitsTo names s row rest)
  · simp [hkept, hout]
  · simp [isCut_of_not_endsOutside hout]

/-- A carriage return behind a row changes nothing behind it. -/
theorem ended_of_returned {s : State} {row row' rest rest' : List Statement} (h : Returned row row')
    (hne : row ≠ []) (hs : s.phase.Sound) (hcores : cores rest' = cores rest)
    (horder : InOrder (row ++ rest)) (horder' : InOrder (row' ++ rest')) :
  stateBehind names s row' rest' = stateBehind names s row rest
    ∧ Ended names (visitsTo names s row rest) (visitsTo names s row' rest')
  := by
  cases h with
  | within before hraw htailed hline hfree =>
      exact ended_of_within hraw htailed hline hfree hs hcores horder horder'
  | behind row hraw hblank => exact ended_of_behind hraw hblank hne hs hcores horder horder'

/-- With carriage returns behind the lines a removal comes to the same state, and of every line but
the last one the same is kept, and its carriage return if it does not end inside of a removed
block. -/
theorem run_of_returnedRows {line : Nat} {rows rows' : List (List Statement)}
    (h : ReturnedRows line rows rows') {s : State} (hs : s.phase.Sound) :
  (judge names s rows'.flatten).2 = (judge names s rows.flatten).2
    ∧ ∃ init init' last, rowsOf (visits names s rows.flatten) = init ++ [last]
      ∧ rowsOf (visits names s rows'.flatten) = init' ++ [last]
      ∧ List.Forall₂ (Ended names) init init'
  := by
  induction h generalizing s with
  | @last line row hne hrow =>
      have hrows : rowsOf (visits names s [row].flatten) = [visitsTo names s row []] :=
        rowsOf_visits names s hne hrow (fun st hst => absurd hst List.not_mem_nil)
      exact ⟨rfl, [], [], _, hrows, hrows, .nil⟩
  | cons hne hrow hrow' hreturned hbehind ih =>
      obtain ⟨hstate, hended⟩ := @ended_of_returned names s _ _ _ _ hreturned hne hs
        hbehind.cores_eq (inOrder_append hrow hbehind.le_line.1 hbehind.inOrder.1)
        (inOrder_append hrow' hbehind.le_line.2 hbehind.inOrder.2)
      rw [List.flatten_cons, List.flatten_cons, judge_append, judge_append,
        rowsOf_visits names s hne hrow hbehind.le_line.1,
        rowsOf_visits names s hreturned.ne_nil hrow' hbehind.le_line.2, hstate]
      obtain ⟨hfinal, init, init', last, hinit, hinit', hothers⟩ := ih (sound_stateBehind hs)
      exact ⟨hfinal, _ :: init, _ :: init', last, congrArg _ hinit, congrArg _ hinit',
        .cons hended hothers⟩

/-! ### Rows are read once -/

theorem length_following_lt {s : State} {statements : List Statement} {v : Visit}
    (h : v ∈ visits names s statements) :
  v.following.length < statements.length
  := by
  induction statements generalizing s with
  | nil => cases h
  | cons st rest ih =>
      rcases List.mem_cons.mp h with rfl | h
      · exact Nat.lt_succ_self _
      · exact Nat.lt_succ_of_lt (ih h)

theorem nodup_visits (names : List Text) (s : State) (statements : List Statement) :
  (visits names s statements).Nodup
  := by
  induction statements generalizing s with
  | nil => exact List.nodup_nil
  | cons st rest ih =>
      rw [visits_cons, List.nodup_cons]
      exact ⟨fun hmem => absurd (length_following_lt hmem) (Nat.lt_irrefl _), ih _⟩

theorem nodup_rowsOf {vs : List Visit} (h : vs.Nodup) :
  (rowsOf vs).Nodup
  := by
  have hflatten : (rowsOf vs).flatten = vs := List.flatten_splitBy _ vs
  rw [← hflatten, List.nodup_flatten] at h
  apply List.Pairwise.imp_of_mem _ h.2
  rintro row row' hrow - hdisjoint rfl
  obtain ⟨v, hv⟩ := List.exists_mem_of_ne_nil row (List.ne_nil_of_mem_splitBy hrow)
  exact hdisjoint hv hv

/-! ### Removing with carriage returns -/

/-- All but the last one of some of a list's entries are some of all but its last one. -/
theorem dropLast_sublist_of_concat {α : Type} {l init : List α} {last : α}
    (h : l.Sublist (init ++ [last])) :
  l.dropLast.Sublist init
  := by
  obtain ⟨first, rest, rfl, hfirst, hrest⟩ := List.sublist_append_iff.mp h
  rcases List.sublist_singleton.mp hrest with rfl | rfl
  · rw [List.append_nil]
    exact (List.dropLast_sublist first).trans hfirst
  · rwa [List.dropLast_concat]

/-- What is kept of a row, and the carriage return behind it if it does not end inside of a removed
block and is not the last one. -/
def endedText (names : List Text) (last row : List Visit) : Text :=
  keptText names row ++ if EndsOutside names row ∧ row ≠ last then ['\r'] else []

theorem map_keptText_of_ended {init init' : List (List Visit)} {last : List Visit}
    (h : List.Forall₂ (Ended names) init init') (hlast : last ∉ init) :
  ((init' ++ [last]).filter (stays names)).map (keptText names)
    = ((init ++ [last]).filter (stays names)).map (endedText names last)
  := by
  induction h with
  | nil =>
      have hself : endedText names last last = keptText names last := by
        rw [endedText, if_neg fun h => h.2 rfl, List.append_nil]
      cases hstays : stays names last with
      | true => simp [hstays, hself]
      | false => simp [hstays]
  | @cons row row' init init' hrow _ ih =>
      obtain ⟨hne, hlast⟩ := not_or.mp (mt List.mem_cons.mpr hlast)
      have hended : endedText names last row = keptText names row' := by
        rw [endedText, hrow.kept]
        simp [Ne.symm hne]
      rw [List.cons_append, List.cons_append, List.filter_cons, List.filter_cons, hrow.stays]
      split
      · rw [List.map_cons, List.map_cons, ih hlast, hended]
      · exact ih hlast

/-- The new text is made of what is kept of the rows that are left. -/
theorem rebuild_judge {t : Text} {statements : List Statement}
    (h : Statement.split t = .ok statements) :
  rebuild (judge names {} statements).1 = ofLines ((leftRows names t).map (keptText names))
  := by
  rw [leftRows, course, h, ← collapseAfter_map fun _ => rfl]
  exact congrArg ofLines (leftLines_judge names {} statements)

theorem lineFeed_notMem_keptText {t : Text} {row : List Visit} (h : row ∈ rowsOf (course names t)) :
  '\n' ∉ keptText names row
  := by
  intro hmem
  rw [keptText, keptOf] at hmem
  obtain ⟨judged, hjudged, hraw⟩ := List.mem_flatMap.mp hmem
  obtain ⟨v, hv, rfl⟩ := List.mem_map.mp (List.mem_of_mem_filter hjudged)
  have hvisit : v ∈ course names t := by
    rw [← List.flatten_splitBy (fun v w => v.statement.line == w.statement.line) (course names t)]
    exact List.mem_flatten.mpr ⟨row, h, hv⟩
  rw [course] at hvisit
  split at hvisit
  · cases hvisit
  · next hsplit =>
    exact Statement.lineFeed_notMem_raw hsplit (statement_mem_of_mem_visits hvisit) hraw

/-- What is left with carriage returns is the new text with carriage returns in front of its line
feeds if each row that is left has one behind it but the last. -/
theorem ofLines_map_endedText_iff {t : Text} {last : List Visit} :
  ofLines ((leftRows names t).map (endedText names last))
      = crlf (ofLines ((leftRows names t).map (keptText names)))
    ↔ (∀ row ∈ (leftRows names t).dropLast, EndsOutside names row ∧ row ≠ last)
      ∧ ∀ row ∈ (leftRows names t).getLast?, ¬ (EndsOutside names row ∧ row ≠ last)
  := by
  have hfed : ∀ row ∈ leftRows names t, '\n' ∉ keptText names row := fun row hrow =>
    lineFeed_notMem_keptText ((leftRows_sublist names t).subset hrow)
  rw [← map_eq_returned_iff (leftRows names t) (keptText names)]
  by_cases hnone : leftRows names t = []
  · rw [hnone]
    exact iff_of_true rfl rfl
  · apply ofLines_eq_crlf_iff
    · simpa using hnone
    · simpa using hnone
    · intro l hl
      obtain ⟨row, hrow, rfl⟩ := List.mem_map.mp hl
      exact hfed row hrow
    · intro l hl
      obtain ⟨row, hrow, rfl⟩ := List.mem_map.mp hl
      rw [endedText, List.mem_append, not_or]
      refine ⟨hfed row hrow, ?_⟩
      split
      · decide
      · exact List.not_mem_nil

/-- Of statements with carriage returns behind them the new text is made of what is kept of the
rows that are left, and of the carriage returns behind those that end outside of removed blocks, but
for the last of all rows. -/
theorem exists_rebuild_of_returnedRows {t : Text} {rows rows' : List (List Statement)}
    (hsplit : Statement.split t = .ok rows.flatten) (h : ReturnedRows 0 rows rows') :
  (judge names {} rows'.flatten).2 = (judge names {} rows.flatten).2
    ∧ ∃ last, (rowsOf (course names t)).getLast? = some last
      ∧ (∀ row ∈ (leftRows names t).dropLast, row ≠ last)
      ∧ rebuild (judge names {} rows'.flatten).1
        = ofLines ((leftRows names t).map (endedText names last))
  := by
  have hsound : ({} : State).phase.Sound := by rintro start depth ⟨⟩
  obtain ⟨hfinal, init, init', last, hinit, hinit', hended⟩ :=
    @run_of_returnedRows names 0 rows rows' h {} hsound
  have hcourse : rowsOf (course names t) = init ++ [last] := by
    rw [course, hsplit, ← hinit]
  have hnodup : (init ++ [last]).Nodup := by
    rw [← hinit]
    exact nodup_rowsOf (nodup_visits names {} rows.flatten)
  have hlast : last ∉ init := fun hmem =>
    (List.nodup_append.mp hnodup).2.2 last hmem last List.mem_cons_self rfl
  refine ⟨hfinal, last, ?_, ?_, ?_⟩
  · rw [hcourse, List.getLast?_concat]
  · rintro row hrow rfl
    have hsublist := leftRows_sublist names t
    rw [hcourse] at hsublist
    exact hlast ((dropLast_sublist_of_concat hsublist).subset hrow)
  · change ofLines (leftLines _) = _
    have hblank : ∀ row, blank (endedText names last row) = blank (keptText names row) :=
      fun row => blank_append_return _ _
    rw [leftLines_judge, hinit', map_keptText_of_ended hended hlast, collapseBlanks,
      collapseAfter_map hblank, leftRows, hcourse]

/-- With a carriage return in front of every line feed of a stylesheet the same is removed, if no
string goes on over the end of a line and no statement is left out but blank ones.  The new text has
a carriage return in front of every line feed, and is the same otherwise, exactly if nothing is
removed, or of the lines that are left none but the last one ends inside of a removed block, and the
last one does if it is not the last of all lines. -/
theorem remove_crlf {t : Text} (hstrings : '\n' ∉ stringsIn (withoutAddresses t))
    (hwhole : (Statement.split t).isOk → Whole t) (names : List Text) :
  (remove (crlf t) names).removed = (remove t names).removed
    ∧ (remove (crlf t) names).blocks = (remove t names).blocks
    ∧ (remove (crlf t) names).anomalies = (remove t names).anomalies
    ∧ ((remove (crlf t) names).text = crlf (remove t names).text
      ↔ (remove t names).blocks = 0
        ∨ (∀ row ∈ (leftRows names t).dropLast, EndsOutside names row)
          ∧ ∀ row ∈ (leftRows names t).getLast?, EndsOutside names row →
            row ∈ (rowsOf (course names t)).getLast?)
  := by
  by_cases hnames : names = []
  · rw [remove, remove, if_pos hnames, if_pos hnames]
    exact ⟨rfl, rfl, rfl, iff_of_true rfl (.inl rfl)⟩
  rw [remove, remove, if_neg hnames, if_neg hnames]
  rcases split_crlf hstrings with
    ⟨anomaly, hsplit, hsplit'⟩ | ⟨rows, rows', hsplit, hsplit', hreturned⟩
  · rw [hsplit, hsplit']
    exact ⟨rfl, rfl, rfl, iff_of_true rfl (.inl rfl)⟩
  · obtain ⟨hfinal, last, hlast, hbefore, htext⟩ :=
      @exists_rebuild_of_returnedRows names t rows rows' hsplit
        (hreturned (hwhole (by rw [hsplit]; rfl)))
    rw [hsplit, hsplit']
    dsimp only
    rw [hfinal]
    by_cases hblocks : (judge names {} rows.flatten).2.blocks = 0
    · rw [if_pos hblocks, if_pos hblocks]
      exact ⟨rfl, rfl, rfl, iff_of_true rfl (.inl rfl)⟩
    rw [if_neg hblocks, if_neg hblocks]
    refine ⟨rfl, rfl, rfl, ?_⟩
    rw [htext, rebuild_judge hsplit, ofLines_map_endedText_iff]
    simp only [hblocks, false_or, hlast]
    refine and_congr ?_ ?_
    · constructor
      · exact fun h row hrow => (h row hrow).1
      · exact fun h row hrow => ⟨h row hrow, hbefore row hrow⟩
    · constructor
      · intro h row hrow hout
        by_contra hne
        exact h row hrow ⟨hout, fun heq => hne (by rw [heq]; rfl)⟩
      · rintro h row hrow ⟨hout, hne⟩
        exact hne (Option.some.inj (h row hrow hout)).symm

/-- A comment and an argument over two lines, a string that holds a quotation mark, an empty line, a
list that is kept, a rule that goes with its brace below it, and one that has another one behind
it. -/
theorem remove_crlf_rules :
  let t := (".k \x7b /* \x7d .a\n */ b: \"c\\\"d\"; \x7d\n\n.a,\n.l \x7b \x7d\n"
    ++ ".a\n\x7b\n  &__e \x7b \x7d\n\x7d\n"
    ++ ".k:not(.a\n) \x7b \x7d\n.a \x7b \x7d .m \x7b \x7d\n").toList;
  let names := ["a".toList];
  '\n' ∉ stringsIn (withoutAddresses t) ∧ (Statement.split t).isOk ∧ Whole t
    ∧ (remove t names).removed = names ∧ (remove t names).blocks = 2
    ∧ (∀ row ∈ (leftRows names t).dropLast, EndsOutside names row)
    ∧ (∀ row ∈ (leftRows names t).getLast?, EndsOutside names row →
      row ∈ (rowsOf (course names t)).getLast?)
    ∧ (remove (crlf t) names).removed = names ∧ (remove (crlf t) names).blocks = 2
    ∧ (remove (crlf t) names).anomalies = (remove t names).anomalies
    ∧ (remove (crlf t) names).text = crlf (remove t names).text
  := by
  intro t names
  have hdecided : '\n' ∉ stringsIn (withoutAddresses t) ∧ (Statement.split t).isOk ∧ Whole t
      ∧ (remove t names).removed = names ∧ (remove t names).blocks = 2
      ∧ (∀ row ∈ (leftRows names t).dropLast, EndsOutside names row)
      ∧ ∀ row ∈ (leftRows names t).getLast?, EndsOutside names row →
        row ∈ (rowsOf (course names t)).getLast? := by
    decide +kernel
  obtain ⟨hstrings, hsplit, hwhole, hlost, hlostBlocks, hends, hlast⟩ := hdecided
  obtain ⟨hremoved, hblocks, hanomalies, htext⟩ := remove_crlf hstrings (fun _ => hwhole) names
  exact ⟨hstrings, hsplit, hwhole, hlost, hlostBlocks, hends, hlast, hremoved.trans hlost,
    hblocks.trans hlostBlocks, hanomalies, htext.mpr (.inr ⟨hends, hlast⟩)⟩

/-- Something else is done with carriage returns in front of the line feeds: where a string goes on
behind a backslash at the end of a line, where the last statement of a line is lost, where a line
that is left ends inside of a removed block, and where the lines behind the last one that is left
have gone.  Each time the other conditions are met. -/
theorem remove_crlf_ne :
  (let t := ".a \x7b \x7d\n\"x\\\ny\"".toList;
    let names := ["a".toList];
    '\r' ∉ t ∧ ((Statement.split t).isOk → Whole t)
      ∧ (remove (crlf t) names).blocks ≠ (remove t names).blocks
      ∧ (remove (crlf t) names).anomalies ≠ (remove t names).anomalies)
    ∧ (let t := ".b xmlns=\"\"#\x7b a\x7d .c xmlns=\"\";\n&__d \x7b \x7d".toList;
      let names := ["b__d".toList];
      '\r' ∉ t ∧ '\n' ∉ stringsIn (withoutAddresses t)
        ∧ (remove (crlf t) names).removed ≠ (remove t names).removed)
    ∧ (let t := ".k \x7b \x7d .a \x7b\n\x7d\n".toList;
      let names := ["a".toList];
      '\r' ∉ t ∧ '\n' ∉ stringsIn (withoutAddresses t) ∧ Whole t
        ∧ (∀ row ∈ (leftRows names t).getLast?, EndsOutside names row →
          row ∈ (rowsOf (course names t)).getLast?)
        ∧ (remove (crlf t) names).text ≠ crlf (remove t names).text)
    ∧ (let t := ".k \x7b \x7d\n.a \x7b \x7d".toList;
      let names := ["a".toList];
      '\r' ∉ t ∧ '\n' ∉ stringsIn (withoutAddresses t) ∧ Whole t
        ∧ (∀ row ∈ (leftRows names t).dropLast, EndsOutside names row)
        ∧ (remove (crlf t) names).text ≠ crlf (remove t names).text)
  := by
  refine ⟨?_, ?_, ?_, ?_⟩
  all_goals decide +kernel

end StylePrune.Prune
