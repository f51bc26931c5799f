import StylePrune.Proofs.Stylesheet.Naming

/-!
# Where elements and modifiers come from

The name that a suffix extends is that of an open block or of a rule whose block is still to be
opened, so it was defined by a statement further up.  A scanner that has found all names that its
state holds (`Scanner.Knows`) therefore lists every element and every modifier behind the class that
it extends, and this stays so if each name is listed once (`Lineage.firstByName`).
-/

namespace StylePrune.Stylesheet

open Text

/-- Whether the name of an element or a modifier is that of a class with something behind it. -/
def Descends (entry : Text × Context) (parent : Text) : Prop :=
  ∃ suffix, suffix ≠ [] ∧ entry.1 = parent ++ entry.2.mark ++ suffix

/-- Whether entries are class names, of which each element and each modifier descends from a name
that is seen already or stands before it. -/
inductive Lineage : List Text → List (Text × Context) → Prop
  | nil (seen : List Text) : Lineage seen []
  | cons {seen : List Text} {entry : Text × Context} {rest : List (Text × Context)}
      (proper : ClassName.Proper entry.1)
      (descends : entry.2 ≠ .direct → ∃ parent ∈ seen, Descends entry parent)
      (behind : Lineage (entry.1 :: seen) rest) : Lineage seen (entry :: rest)

namespace Lineage

variable {seen more : List Text} {entries others : List (Text × Context)} {entry : Text × Context}

theorem mono (h : Lineage seen entries) (hseen : seen ⊆ more) :
  Lineage more entries
  := by
  induction h generalizing more with
  | nil => exact .nil more
  | cons proper descends _ ih =>
      refine .cons proper ?_ (ih (List.cons_subset_cons _ hseen))
      intro hcontext
      obtain ⟨parent, hparent, hdescends⟩ := descends hcontext
      exact ⟨parent, hseen hparent, hdescends⟩

/-- Entries each of which descends from a name seen before all of them may be followed by others. -/
theorem append (hproper : ∀ entry ∈ entries, ClassName.Proper entry.1)
    (hdescends : ∀ entry ∈ entries, entry.2 ≠ .direct → ∃ parent ∈ seen, Descends entry parent)
    (h : Lineage (entries.map Prod.fst ++ seen) others) :
  Lineage seen (entries ++ others)
  := by
  induction entries generalizing seen with
  | nil => exact h
  | cons entry entries ih =>
      obtain ⟨hentry, hproper⟩ := List.forall_mem_cons.mp hproper
      obtain ⟨hfirst, hdescends⟩ := List.forall_mem_cons.mp hdescends
      refine .cons hentry hfirst (ih hproper ?_ ?_)
      · intro later hlater hcontext
        obtain ⟨parent, hparent, hlater⟩ := hdescends later hlater hcontext
        exact ⟨parent, List.mem_cons_of_mem entry.1 hparent, hlater⟩
      · exact h.mono (by simp)

/-- Listing each name once, and none that is seen already, leaves the lineage as it is. -/
theorem firstByName (h : Lineage seen entries) :
  Lineage seen (firstByName seen entries)
  := by
  induction entries generalizing seen with
  | nil => exact .nil seen
  | cons entry rest ih =>
      obtain ⟨name, context⟩ := entry
      obtain _ | ⟨proper, descends, behind⟩ := h
      rw [Stylesheet.firstByName]
      split
      · next hseen =>
        have hname : name ∈ seen := by simpa using hseen
        exact ih (behind.mono (List.cons_subset.mpr ⟨hname, List.Subset.refl seen⟩))
      · exact .cons proper descends (ih behind)

theorem proper (h : Lineage seen entries) (hentry : entry ∈ entries) :
  ClassName.Proper entry.1
  := by
  induction h with
  | nil => cases hentry
  | cons hproper _ _ ih =>
      rcases List.mem_cons.mp hentry with rfl | hentry
      · exact hproper
      · exact ih hentry

/-- An element or a modifier descends from a name seen before, or from that of an entry before it. -/
theorem exists_parent {back : List (Text × Context)} (h : Lineage seen (entries ++ entry :: back))
    (hcontext : entry.2 ≠ .direct) :
  ∃ parent, (parent ∈ seen ∨ ∃ earlier ∈ entries, earlier.1 = parent) ∧ Descends entry parent
  := by
  induction entries generalizing seen with
  | nil =>
      obtain _ | ⟨-, descends, -⟩ := h
      obtain ⟨parent, hparent, hdescends⟩ := descends hcontext
      exact ⟨parent, .inl hparent, hdescends⟩
  | cons first entries ih =>
      obtain _ | ⟨-, -, behind⟩ := h
      obtain ⟨parent, hparent, hdescends⟩ := ih behind
      refine ⟨parent, ?_, hdescends⟩
      rcases hparent with hseen | ⟨earlier, hearlier, rfl⟩
      · rcases List.mem_cons.mp hseen with rfl | hseen
        · exact .inr ⟨first, List.mem_cons_self, rfl⟩
        · exact .inl hseen
      · exact .inr ⟨earlier, List.mem_cons_of_mem first hearlier, rfl⟩

end Lineage

/-! ### What a statement defines -/

namespace Member

variable {parent : Option Text} {member name : Text} {entry : Text × Context}

/-- In the rule of a proper class name, what a member defines is a proper class name too, and what is
an element or a modifier descends from the class. -/
theorem of_mem_names (hparent : ProperParent parent) (h : entry ∈ (ofText parent member).names) :
  ClassName.Proper entry.1
    ∧ (entry.2 ≠ .direct → ∃ name, parent = some name ∧ Descends entry name)
  := by
  have htokens : ∀ rest, entry ∈ (tokens rest).map (·, Context.direct) →
      ClassName.Proper entry.1
        ∧ (entry.2 ≠ .direct → ∃ name, parent = some name ∧ Descends entry name) := by
    intro rest hmem
    obtain ⟨name, hname, rfl⟩ := List.mem_map.mp hmem
    exact ⟨proper_of_mem_tokens hname, fun hcontext => absurd rfl hcontext⟩
  cases hsuffix : suffix? member with
  | none =>
      rw [ofText_of_suffix?_eq_none hsuffix] at h
      exact htokens member h
  | some found =>
      obtain ⟨context, suffix, rest⟩ := found
      cases parent with
      | none =>
          rw [ofText_none_of_suffix? hsuffix] at h
          exact htokens rest h
      | some name =>
          have hname := hparent name rfl
          rw [ofText_some_of_suffix? hsuffix hname] at h
          rcases List.mem_cons.mp h with rfl | h
          · obtain ⟨hcontext, hchars⟩ := suffix?_eq_some hsuffix
            refine ⟨hname.extend hcontext hchars, fun _ => ⟨name, rfl, suffix, ?_, rfl⟩⟩
            exact (exists_of_suffix? hsuffix).2.1
          · exact htokens rest h

/-- The name that nested rules extend is one that the member defines. -/
theorem primary_mem_names (h : (ofText parent member).primary = some name) :
  name ∈ (ofText parent member).names.map Prod.fst
  := by
  have htokens : ∀ rest, (tokens rest).getLast? = some name →
      name ∈ ((tokens rest).map (·, Context.direct)).map Prod.fst := by
    intro rest hlast
    simpa using List.mem_of_getLast? hlast
  cases hsuffix : suffix? member with
  | none =>
      rw [ofText_of_suffix?_eq_none hsuffix] at h ⊢
      exact htokens member h
  | some found =>
      obtain ⟨context, suffix, rest⟩ := found
      cases parent with
      | none =>
          rw [ofText_none_of_suffix? hsuffix] at h ⊢
          exact htokens rest h
      | some parent =>
          simp only [ofText, hsuffix] at h ⊢
          rw [List.map_append, List.map_map]
          apply List.mem_append_left
          simpa using List.mem_of_mem_head? h

end Member

/-- The name of an open block is that of a block that was open before, or of the one that opens. -/
theorem OpenBlocks.mem_frames_feed {b : OpenBlocks} {opener : Option Text} {t : Text} {f : Frame}
    (h : f ∈ (b.feed opener t).frames) :
  f ∈ b.frames ∨ opener = some f.name
  := by
  induction t generalizing b opener with
  | nil => exact .inl h
  | cons c t ih =>
      rw [feed] at h
      split at h
      · rcases ih h with hopened | hnone
        · cases opener with
          | none => exact .inl hopened
          | some name =>
              rcases List.mem_cons.mp hopened with rfl | hframe
              · exact .inr rfl
              · exact .inl hframe
        · cases hnone
      · split at h
        · refine (ih h).imp_left fun hclosed => ?_
          rw [closed] at hclosed
          split at hclosed
          · exact hclosed
          · exact (List.dropWhile_suffix _).subset hclosed
        · exact ih h

namespace Scanner

/-- Whether the state of a scanner holds no other names than the given ones. -/
structure Knows (s : Scanner) (seen : List Text) : Prop where
  frames : ∀ f ∈ s.blocks.frames, f.name ∈ seen
  pending : ∀ name ∈ s.pending, name ∈ seen

variable {s : Scanner} {line : Text} {following seen : List Text} {r : Reading}

theorem Knows.of_parent (h : s.Knows seen) {name : Text} (hname : s.parent = some name) :
  name ∈ seen
  := by
  rw [parent, Option.orElse_eq_orElse, Option.orElse_eq_or] at hname
  rcases Option.or_eq_some_iff.mp hname with hpending | ⟨-, htop⟩
  · exact h.pending name hpending
  · obtain ⟨f, hf, rfl⟩ := Option.map_eq_some_iff.mp htop
    exact h.frames f (List.mem_of_mem_head? hf)

/-- The name that the members of a line give to nested rules is one that the line defines. -/
theorem mem_definitions_of_primary {members : List Member}
    (hmembers : Member.ofLine? (trim line) s.parent = some members) (hr : r.members = some members)
    {name : Text} (hname : primary members = some name) :
  name ∈ r.definitions.map Prod.fst
  := by
  obtain ⟨m, hm, hprimary⟩ := List.mem_filterMap.mp (List.mem_of_getLast? hname)
  obtain ⟨member, -, rfl⟩ := exists_of_mem_ofLine? hmembers hm
  rw [Reading.definitions, hr, Option.getD_some, List.map_flatMap, List.mem_flatMap]
  exact ⟨_, hm, Member.primary_mem_names hprimary⟩

/-- Behind a statement a scanner holds names that it held before, or that the statement defines. -/
theorem Knows.advance (h : s.Knows seen) (hread : s.read line following = some r) :
  (s.advance (some r)).Knows (r.definitions.map Prod.fst ++ seen)
  := by
  have hhanded : (∀ name ∈ r.opener, name ∈ r.definitions.map Prod.fst ++ seen)
      ∧ ∀ name ∈ r.carry, name ∈ r.definitions.map Prod.fst ++ seen := by
    obtain ⟨-, ⟨-, hcarry, hopener⟩ | ⟨members, hmembers, hr, hopener, hcarry⟩⟩ := read_cases hread
    · constructor
      · intro name hname
        exact List.mem_append_right _ (h.pending name (hopener name hname))
      · rw [hcarry]
        rintro name ⟨⟩
    · constructor
      · intro name hname
        exact List.mem_append_left seen
          (mem_definitions_of_primary hmembers hr (hopener name hname))
      · intro name hname
        have hgiven := hcarry name hname
        rw [Option.orElse_eq_orElse, Option.orElse_eq_or] at hgiven
        rcases Option.or_eq_some_iff.mp hgiven with hprimary | ⟨-, hpending⟩
        · exact List.mem_append_left seen (mem_definitions_of_primary hmembers hr hprimary)
        · exact List.mem_append_right _ (h.pending name hpending)
  constructor
  · intro f hf
    rcases OpenBlocks.mem_frames_feed hf with hframe | hopener
    · exact List.mem_append_right _ (h.frames f hframe)
    · exact hhanded.1 f.name hopener
  · exact hhanded.2

/-- What a scanner finds has its lineage in the names that its state holds. -/
theorem Knows.lineage_finds (h : s.Knows seen) (hseen : ∀ name ∈ seen, ClassName.Proper name)
    (statements : List Text) :
  Lineage seen (s.finds statements)
  := by
  induction statements generalizing s seen with
  | nil => exact .nil seen
  | cons line rest ih =>
      cases hread : s.read line rest with
      | none =>
          rw [finds_cons_of_blank (read_eq_none_iff.mp hread)]
          exact ih h hseen
      | some r =>
          have hparent : ProperParent s.parent := fun name hname => hseen name (h.of_parent hname)
          have hdefinitions : ∀ entry ∈ r.definitions, ClassName.Proper entry.1
              ∧ (entry.2 ≠ .direct → ∃ parent ∈ seen, Descends entry parent) := by
            intro entry hentry
            obtain ⟨member, -, hmember⟩ := of_mem_read hread hentry
            obtain ⟨hproper, hdescends⟩ := Member.of_mem_names hparent hmember
            refine ⟨hproper, fun hcontext => ?_⟩
            obtain ⟨name, hname, hentry⟩ := hdescends hcontext
            exact ⟨name, h.of_parent hname, hentry⟩
          rw [finds_cons_of_some hread]
          apply Lineage.append
          · exact fun entry hentry => (hdefinitions entry hentry).1
          · exact fun entry hentry => (hdefinitions entry hentry).2
          · apply ih (h.advance hread)
            intro name hname
            rcases List.mem_append.mp hname with hname | hname
            · obtain ⟨entry, hentry, rfl⟩ := List.mem_map.mp hname
              exact (hdefinitions entry hentry).1
            · exact hseen name hname

end Scanner

/-! ### Definitions -/

/-- What a stylesheet defines, each name once, has its lineage in itself. -/
theorem lineage_definedIn (t : Text) :
  Lineage [] (firstByName [] (definedIn t))
  := by
  apply Lineage.firstByName
  rw [definedIn_eq_finds]
  apply Scanner.Knows.lineage_finds
  · constructor
    · rintro f ⟨⟩
    · rintro name ⟨⟩
  · rintro name ⟨⟩

/-- Every definition of a stylesheet has a name of its own, which is a letter with letters, digits,
underscores and hyphens behind it and no denied word in any case.  The name of an element or a
modifier is that of a definition before it with the mark and something else behind it. -/
theorem wellFormed_definitionsOf (t : Text) (file : String) (place : Path) :
  ((definitionsOf t file place).map ClassDefinition.name).Nodup
    ∧ (∀ d ∈ definitionsOf t file place,
      (∃ c rest, d.name = c :: rest ∧ c.isAlpha = true
        ∧ ∀ e ∈ rest, ClassName.isNameChar e = true)
      ∧ d.name.map Char.toLower ∉ ClassName.denied)
    ∧ ∀ front d back, definitionsOf t file place = front ++ d :: back → d.context ≠ .direct →
      ∃ p ∈ front, ∃ suffix, suffix ≠ [] ∧ d.name = p.name ++ d.context.mark ++ suffix
  := by
  have hlineage := lineage_definedIn t
  refine ⟨nodup_map_name_definitionsOf t file place, ?_, ?_⟩
  · intro d hd
    obtain ⟨entry, hentry, rfl⟩ := List.mem_map.mp hd
    exact (hlineage.proper hentry).form
  · intro front d back hds hcontext
    obtain ⟨entries, others, hentries, rfl, hothers⟩ := List.map_eq_append_iff.mp hds
    obtain ⟨entry, later, rfl, rfl, rfl⟩ := List.map_eq_cons_iff.mp hothers
    rw [hentries] at hlineage
    obtain ⟨parent, hseen | ⟨earlier, hearlier, rfl⟩, hdescends⟩ :=
      hlineage.exists_parent hcontext
    · cases hseen
    · exact ⟨_, List.mem_map_of_mem hearlier, hdescends⟩

/-- An element of a class, and a modifier of the element. -/
theorem wellFormed_definitionsOf_nested :
  let t := ".p \x7b &__b \x7b &--c \x7b \x7d \x7d\n.p &, &__b \x7b \x7d \x7d".toList;
  let p : ClassDefinition := ⟨"p".toList, .high, .direct, "a.scss"⟩
  let b : ClassDefinition := ⟨"p__b".toList, .medium, .element, "a.scss"⟩
  let c : ClassDefinition := ⟨"p__b--c".toList, .high, .modifier, "a.scss"⟩
  definitionsOf t "a.scss" (Path.ofString "a.scss") = [p, b] ++ c :: [] ∧ c.context ≠ .direct
    ∧ c ∈ definitionsOf t "a.scss" (Path.ofString "a.scss")
    ∧ c.name.map Char.toLower ∉ ClassName.denied
    ∧ ∃ d ∈ [p, b], ∃ suffix, suffix ≠ [] ∧ c.name = d.name ++ c.context.mark ++ suffix
  := by
  intro t p b c
  have hds : definitionsOf t "a.scss" (Path.ofString "a.scss") = [p, b] ++ c :: [] := by
    decide +kernel
  have hc : c ∈ definitionsOf t "a.scss" (Path.ofString "a.scss") := by
    rw [hds]
    exact List.mem_append_right [p, b] List.mem_cons_self
  obtain ⟨-, hname, hparent⟩ := wellFormed_definitionsOf t "a.scss" (Path.ofString "a.scss")
  exact ⟨hds, by decide, hc, (hname c hc).2, hparent [p, b] c [] hds (by decide)⟩

end StylePrune.Stylesheet
