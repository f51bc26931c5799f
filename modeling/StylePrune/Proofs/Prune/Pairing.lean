import StylePrune.Proofs.Prune.Apart
import StylePrune.Proofs.Prune.InStep
import StylePrune.Proofs.Stylesheet.Masking

/-!
# Statements as written and cleaned

A stylesheet is cut into statements where masking leaves their ends, and paired with what cleaning
leaves line by line.  On each line there are as many ends in the one as in the other, and where the
words of the stylesheet are bare they are the same ends, so that nothing that is read is left out
(`corresponds_split`).
-/

namespace StylePrune.Stylesheet

open Text

/-- The ends of statements on a line. -/
def ends (line : Text) : Text := line.filter endsStatement

theorem length_cutAlong {guide t : Text} (hlength : guide.length = t.length) :
  (cutAlong guide t).length = (ends guide).length + 1
  := by
  induction guide generalizing t with
  | nil => rfl
  | cons g guide ih =>
      obtain ⟨c, t, rfl⟩ := List.exists_cons_of_length_eq_add_one hlength.symm
      have hbehind := ih (Nat.succ.inj hlength)
      rw [cutAlong, ends]
      split
      · next hg =>
        rw [List.length_cons, hbehind, List.filter_cons_of_pos hg, List.length_cons, ends]
      · next hg =>
        rw [List.filter_cons_of_neg hg]
        obtain ⟨p, ps, hpieces⟩ := List.exists_cons_of_ne_nil (cutAlong_ne_nil guide t)
        rw [hpieces] at hbehind ⊢
        exact hbehind

/-- The last piece of a line is empty if the guide ends with the end of a statement, or is empty. -/
theorem getLast?_cutAlong {guide t : Text} (hlength : guide.length = t.length) :
  (cutAlong guide t).getLast? = some [] ↔ ∀ c ∈ guide.getLast?, endsStatement c = true
  := by
  induction guide generalizing t with
  | nil =>
      obtain rfl := List.length_eq_zero_iff.mp hlength.symm
      simp [cutAlong]
  | cons g guide ih =>
      obtain ⟨c, t, rfl⟩ := List.exists_cons_of_length_eq_add_one hlength.symm
      have hbehind := ih (Nat.succ.inj hlength)
      cases guide with
      | nil =>
          obtain rfl := List.length_eq_zero_iff.mp (Nat.succ.inj hlength).symm
          rw [cutAlong, cutAlong]
          · cases hg : endsStatement g with
            | true => simp [hg]
            | false => simp [hg]
          · rintro _ _ _ _ ⟨⟩
      | cons g' guide =>
          rw [List.getLast?_cons_cons, ← hbehind, cutAlong]
          obtain ⟨p, ps, hpieces⟩ := List.exists_cons_of_ne_nil (cutAlong_ne_nil (g' :: guide) t)
          rw [hpieces]
          split
          · rw [List.getLast?_cons_cons]
          · cases ps with
            | nil =>
                have hflatten := flatten_cutAlong (g' :: guide) t
                rw [hpieces] at hflatten
                obtain rfl : p = t := by simpa using hflatten
                have hne : p ≠ [] := by
                  rintro rfl
                  cases hlength
                simp [hne]
            | cons q ps => rw [List.getLast?_cons_cons, List.getLast?_cons_cons]

/-- Texts with line feeds in the same places have lines of the same lengths. -/
theorem forall₂_length_lines {t u : Text} (h : u.map (· == '\n') = t.map (· == '\n')) :
  List.Forall₂ (fun l m : Text => m.length = l.length) (lines t) (lines u)
  := by
  induction t generalizing u with
  | nil =>
      obtain rfl := List.map_eq_nil_iff.mp h
      exact .cons rfl .nil
  | cons c t ih =>
      obtain ⟨d, u, rfl, hd, hrest⟩ := List.map_eq_cons_iff.mp h
      have hbehind := ih hrest
      by_cases hc : c = '\n'
      · subst hc
        obtain rfl : d = '\n' := eq_of_beq hd
        exact .cons rfl hbehind
      · have hd' : d ≠ '\n' := by
          rintro rfl
          exact hc (eq_of_beq hd.symm)
        obtain ⟨l, ls, hl, hcl⟩ := splitOn_cons_of_ne hc t
        obtain ⟨m, ms, hm, hdm⟩ := splitOn_cons_of_ne hd' u
        rw [lines, lines, hl, hm] at hbehind
        rw [lines, lines, hcl, hdm]
        obtain ⟨hfirst, hothers⟩ := List.forall₂_cons.mp hbehind
        exact .cons (congrArg Nat.succ hfirst) hothers

theorem forall₂_length_lines_mask (t : Text) :
  List.Forall₂ (fun l m : Text => m.length = l.length) (lines t) (lines (mask t))
  := forall₂_length_lines (map_lineFeed_mask t)

end StylePrune.Stylesheet

namespace StylePrune.Statement

open Text Stylesheet

/-! ### The lines of a stylesheet that is cut into statements -/

/-- On each line masking leaves as many ends of statements as cleaning does. -/
theorem length_ends_of_pairLines {line : Nat} {raws cleans maskeds : List Text}
    {statements : List Statement} (hcleans : raws.length = cleans.length)
    (hmaskeds : List.Forall₂ (fun raw masked => masked.length = raw.length) raws maskeds)
    (h : pairLines line raws cleans maskeds = .ok statements) :
  List.Forall₂ (fun masked clean => (ends masked).length = (ends clean).length) maskeds cleans
  := by
  induction hmaskeds generalizing line cleans statements with
  | nil =>
      obtain rfl := List.length_eq_zero_iff.mp hcleans.symm
      exact .nil
  | cons hlength _ ih =>
      obtain ⟨clean, cleans, rfl⟩ := List.exists_cons_of_length_eq_add_one hcleans.symm
      obtain ⟨row, others, hrow, hothers, -⟩ := pairLines_cons_eq_ok h
      apply List.Forall₂.cons _ (ih (Nat.succ.inj hcleans) hothers)
      rw [pairLine] at hrow
      split at hrow
      · next hpieces =>
        rw [length_cutAlong hlength, cut, length_cutAlong rfl] at hpieces
        exact Nat.succ.inj hpieces
      · cases hrow

/-- Where cleaning thins what masking leaves, no cleaned statement is left out but blank ones. -/
theorem solids_clean_of_pairLines {line : Nat} {raws cleans maskeds : List Text}
    {statements : List Statement} (hcleans : List.Forall₂ (Thins endsStatement) maskeds cleans)
    (hmaskeds : List.Forall₂ (fun raw masked => masked.length = raw.length) raws maskeds)
    (hends : List.Forall₂ (fun masked clean => (ends masked).length = (ends clean).length)
      maskeds cleans)
    (h : pairLines line raws cleans maskeds = .ok statements) :
  solids (statements.map clean) = solids (cleans.flatMap cut)
  := by
  induction hmaskeds generalizing line cleans statements with
  | nil =>
      obtain rfl := List.forall₂_nil_left_iff.mp hcleans
      obtain rfl := Except.ok.inj h
      rfl
  | @cons raw masked _ _ hlength _ ih =>
      obtain ⟨clean, cleans, hclean, hbehind, rfl⟩ := List.forall₂_cons_left_iff.mp hcleans
      obtain ⟨hend, hendsBehind⟩ := List.forall₂_cons.mp hends
      obtain ⟨row, others, hrow, hothers, rfl⟩ := pairLines_cons_eq_ok h
      rw [List.map_append, solids_append, ih hbehind hendsBehind hothers, List.flatMap_cons,
        solids_append]
      congr 1
      rw [pairLine] at hrow
      split at hrow
      · next hpieces =>
        obtain rfl := Except.ok.inj hrow
        apply Prune.solids_map_clean_pairUp hpieces
        rw [cut, getLast?_cutAlong hlength, getLast?_cutAlong rfl]
        -- where the masked line ends a statement, the cleaned one ends it with the same character
        intro hlast c hc
        cases hm : masked.getLast? with
        | none =>
            obtain rfl := List.getLast?_eq_none_iff.mp hm
            obtain rfl : clean = [] := List.map_eq_nil_iff.mp (List.sublist_nil.mp hclean)
            cases hc
        | some d =>
            have hd := hlast d hm
            have hsame := hclean.getLast? hend.symm hm hd
            obtain rfl : d = c := Option.some.inj (hsame.symm.trans hc)
            exact hd
      · cases hrow

/-- Whatever a statement is written as, the statements of a line spell it. -/
theorem Rows.flatMap_filter {line : Nat} {raws cleans : List Text} {rows : List (List Statement)}
    (h : Rows line raws cleans rows) :
  (List.range' line raws.length).map (fun n => (rows.flatten.filter (·.line = n)).flatMap raw)
    = raws
  := by
  induction h with
  | nil => rfl
  | @cons line raw clean raws cleans row rows hne hraw hclean hline behind ih =>
      have hown : ∀ n, line < n → row.filter (·.line = n) = [] := by
        intro n hn
        apply List.filter_eq_nil_iff.mpr
        intro st hst
        rw [hline st hst, decide_eq_true_iff]
        exact Nat.ne_of_lt hn
      have hothers : rows.flatten.filter (·.line = line) = [] := by
        apply List.filter_eq_nil_iff.mpr
        intro st hst
        rw [decide_eq_true_iff]
        exact Nat.ne_of_gt (behind.le_line st hst)
      have hrow : row.filter (·.line = line) = row := by
        apply List.filter_eq_self.mpr
        intro st hst
        exact decide_eq_true (hline st hst)
      rw [List.length_cons, List.range'_succ, List.map_cons, List.flatten_cons,
        List.filter_append, hrow, hothers, List.append_nil, hraw]
      congr 1
      conv_rhs => rw [← ih]
      apply List.map_congr_left
      intro n hn
      rw [List.filter_append, hown n (List.mem_range'_1.mp hn).1, List.nil_append]

theorem map_ends_eq {maskeds cleans : List Text}
    (hthins : List.Forall₂ (Thins endsStatement) maskeds cleans)
    (hends : List.Forall₂ (fun masked clean => (ends masked).length = (ends clean).length)
      maskeds cleans) :
  maskeds.map ends = cleans.map ends
  := by
  induction hthins with
  | nil => rfl
  | cons hline _ ih =>
      obtain ⟨hlength, hbehind⟩ := List.forall₂_cons.mp hends
      rw [List.map_cons, List.map_cons, ih hbehind]
      congr 1
      exact (hline.filter.eq_of_length hlength.symm).symm

/-- When a stylesheet is cut into statements, the statements of each line spell the line, and
masking leaves as many ends on the line as cleaning does.  Where the words of the stylesheet are
bare these are the same ends, in the same order, and no cleaned statement is left out but blank
ones. -/
theorem corresponds_split {t : Text} {statements : List Statement} (h : split t = .ok statements) :
  (List.range (lines t).length).map (fun n => (statements.filter (·.line = n)).flatMap raw)
      = lines t
    ∧ List.Forall₂ (fun masked clean => (ends masked).length = (ends clean).length)
      (lines (mask t)) (lines (strip t))
    ∧ (Bare t → (lines (mask t)).map ends = (lines (strip t)).map ends ∧ Prune.Whole t)
  := by
  obtain ⟨rows, hrows, hflatten⟩ := exists_rows_of_split h
  have hlines := forall₂_length_lines_mask t
  have hpairs := h
  rw [split] at hpairs
  split at hpairs
  · next hlength =>
    have hends := length_ends_of_pairLines hlength hlines hpairs
    refine ⟨?_, hends, ?_⟩
    · rw [List.range_eq_range', ← hflatten]
      exact hrows.flatMap_filter
    · intro hbare
      have hfeed : '\n' ∉ lost t := lineFeed_notMem_lost hlength
      have hcount : (strip t).count '\n' = (mask t).count '\n' := by
        have hmask := length_lines_mask t
        rw [hlength, length_lines, length_lines] at hmask
        exact (Nat.succ.inj hmask).symm
      have hthins : List.Forall₂ (Thins endsStatement) (lines (mask t)) (lines (strip t)) :=
        ((thins_mask hfeed hbare).forall₂_lines rfl hcount).imp fun l m hlm =>
          hlm.weaken fun c hc => Bool.or_eq_true_iff.mpr (.inr hc)
      constructor
      · exact map_ends_eq hthins hends
      · rw [Prune.Whole, Prune.statementsIn, h]
        exact solids_clean_of_pairLines hthins hlines hends hpairs
  · cases hpairs

/-- A line with braces in a string and in a comment, semicolons in an address and behind an
interpolation, embedded data and a namespace, and another line. -/
theorem corresponds_split_noise :
  let t := (".a \x7b b: #\x7bc\x7d; d: \"e\x7b\"; f: url(g;h) /* \x7d */ data:x,y xmlns=z \x7d\n"
    ++ ".k \x7b \x7d").toList;
  ∃ statements, split t = .ok statements ∧ Bare t
    ∧ (List.range (lines t).length).map (fun n => (statements.filter (·.line = n)).flatMap raw)
      = lines t
    ∧ (lines (mask t)).map ends = (lines (strip t)).map ends ∧ Prune.Whole t
    ∧ (lines (mask t)).map ends = ["\x7b;;\x7d".toList, "\x7b\x7d".toList]
  := by
  intro t
  have hdecided : split t = .ok (Prune.statementsIn t) ∧ Bare t
      ∧ (lines (mask t)).map ends = ["\x7b;;\x7d".toList, "\x7b\x7d".toList] := by
    decide +kernel
  obtain ⟨hsplit, hbare, hmasked⟩ := hdecided
  obtain ⟨hspelled, -, hwhole⟩ := corresponds_split hsplit
  obtain ⟨hends, hall⟩ := hwhole hbare
  exact ⟨_, hsplit, hbare, hspelled, hends, hall, hmasked⟩

/-- Cleaning joins what stands before a comment or a string to what stands behind it, and masking
does not: so one of them may take for embedded data, or for a namespace, what the other one takes
for an interpolation.  Then other ends of statements are left of a line, as many as there were:
where cleaning finds more in embedded data or in a namespace than masking does, and where masking
finds a namespace of its own.  And a cleaned statement may be left out though the ends are the
same. -/
theorem not_corresponds_split :
  (∀ t ∈ ["data:x,/**/#\x7b\"a\"\x7d data:x,/**/;",
        "xmlns=\"\"#\x7b a\x7d .c xmlns=\"\";"].map String.toList,
      (split t).isOk = true
        ∧ (∀ c ∈ words spaced (commentOrString.replace spaced (urlCall.replace spaced t)),
          isJoint c = false)
        ∧ (lines (mask t)).map ends ≠ (lines (strip t)).map ends)
    ∧ (let t := "data:x,/**/xmlns=)\x7b data:x,/**/xmlns=)#\x7b \x7d".toList;
      (split t).isOk = true ∧ (∀ c ∈ words (fun _ => []) (withoutStrings t), isJoint c = false)
        ∧ (lines (mask t)).map ends ≠ (lines (strip t)).map ends)
    ∧ (let t := "data:x,/**/#\x7b\"a\"\x7d .b data:x,/**/\x7d".toList;
      (split t).isOk = true ∧ (lines (mask t)).map ends = (lines (strip t)).map ends
        ∧ ¬ Prune.Whole t)
  := by
  have hplain : ∀ {t : Text}, t.any isJoint = false → ∀ c ∈ t, isJoint c = false := by
    intro t ht c hc
    exact Bool.eq_false_iff.mpr (List.any_eq_false.mp ht c hc)
  refine ⟨List.forall_mem_cons.mpr ⟨⟨?_, hplain ?_, ?_⟩,
    List.forall_mem_singleton.mpr ⟨?_, hplain ?_, ?_⟩⟩, ⟨?_, hplain ?_, ?_⟩, ?_⟩
  all_goals decide +kernel

end StylePrune.Statement
