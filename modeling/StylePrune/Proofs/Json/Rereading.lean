import StylePrune.Proofs.Json.Numerals
import StylePrune.Proofs.Json.Reading

/-!
# Reading written values again

What is read has objects that name each member once (`isTidy_of_read?`).  When such a value is written
and read again, the answer has its outline, which is the value but for its numbers
(`outline_of_read?_renderAt`).  That there is an answer is not said: a number may be written in a way
in which it is not read to its end, and then nothing is.
-/

namespace StylePrune.Json

mutual

/-- Whether each object in a value names each member once. -/
def IsTidy : Json → Prop
  | null | bool _ | int _ | real _ | str _ => True
  | arr xs => AreTidyItems xs
  | obj ms => AreTidyMembers ms

/-- Whether the items of a list are tidy. -/
def AreTidyItems : List Json → Prop
  | [] => True
  | x :: xs => IsTidy x ∧ AreTidyItems xs

/-- Whether the members of an object are tidy and have different names. -/
def AreTidyMembers : List (String × Json) → Prop
  | [] => True
  | (name, x) :: ms => name ∉ ms.map (·.1) ∧ IsTidy x ∧ AreTidyMembers ms

end

mutual

/-- A value with zero for each of its numbers. -/
def outline : Json → Json
  | null => null
  | bool b => bool b
  | int _ | real _ => int 0
  | str s => str s
  | arr xs => arr (outlineItems xs)
  | obj ms => obj (outlineMembers ms)

/-- The items of a list with zero for each number. -/
def outlineItems : List Json → List Json
  | [] => []
  | x :: xs => outline x :: outlineItems xs

/-- The members of an object with zero for each number. -/
def outlineMembers : List (String × Json) → List (String × Json)
  | [] => []
  | (name, x) :: ms => (name, outline x) :: outlineMembers ms

end

variable {x y : Json} {xs ys : List Json} {ms before members : Members} {name : String}
    {t rest : Text} {n : Nat}

/-! ### Outlines -/

theorem outlineItems_eq_map (xs : List Json) :
  outlineItems xs = xs.map outline
  := by
  induction xs with
  | nil => rfl
  | cons x xs ih => rw [outlineItems, ih, List.map_cons]

theorem outlineMembers_append (ms ms' : Members) :
  outlineMembers (ms ++ ms') = outlineMembers ms ++ outlineMembers ms'
  := by
  induction ms with
  | nil => rfl
  | cons m ms ih => rw [List.cons_append, outlineMembers, outlineMembers, ih, List.cons_append]

/-- The outline of a member is the member of the outline. -/
theorem member?_outlineMembers (ms : Members) (name : String) :
  member? (outlineMembers ms) name = (member? ms name).map outline
  := by
  induction ms with
  | nil => rfl
  | cons m ms ih =>
      obtain ⟨name', x⟩ := m
      rw [member?] at ih ⊢
      rw [member?] at ih ⊢
      rw [outlineMembers, List.find?_cons, List.find?_cons]
      cases h : name' == name with
      | true => rfl
      | false => exact ih

theorem outline_of_isNumber (h : IsNumber x) :
  outline x = int 0
  := by
  rcases h with ⟨n, rfl⟩ | ⟨r, rfl⟩
  · rfl
  · rfl

/-! ### What is read is tidy -/

theorem mem_map_fst_setMember {other : String} :
  other ∈ (setMember ms name x).map (·.1) ↔ other ∈ ms.map (·.1) ∨ other = name
  := by
  induction ms with
  | nil => simp [setMember]
  | cons m ms ih =>
      obtain ⟨name', y⟩ := m
      rw [setMember]
      split
      · next heq =>
        rw [List.map_cons, List.map_cons, List.mem_cons, beq_iff_eq.mp heq]
        tauto
      · rw [List.map_cons, List.map_cons, List.mem_cons, List.mem_cons, ih, or_assoc]

theorem AreTidyMembers.setMember (h : AreTidyMembers ms) (hx : IsTidy x) :
  AreTidyMembers (Json.setMember ms name x)
  := by
  induction ms with
  | nil => exact ⟨List.not_mem_nil, hx, trivial⟩
  | cons m ms ih =>
      obtain ⟨name', y⟩ := m
      obtain ⟨hname, hy, hms⟩ := h
      rw [Json.setMember]
      split
      · exact ⟨hname, hx, hms⟩
      · next hne =>
        refine ⟨?_, hy, ih hms⟩
        rw [mem_map_fst_setMember, not_or]
        exact ⟨hname, mt beq_iff_eq.mpr hne⟩

/-- How an item is read: its value, and then the end of the list or the other items. -/
theorem exists_of_readItems? (h : readItems? (n + 1) t = some (xs, rest)) :
  ∃ x t₁, readValue? n t = some (x, t₁)
    ∧ (skipSpace t₁ = ']' :: rest ∧ xs = [x]
      ∨ ∃ rest' ys, skipSpace t₁ = ',' :: rest'
        ∧ readItems? n (skipSpace rest') = some (ys, rest) ∧ xs = x :: ys)
  := by
  rw [readItems?.eq_def] at h
  obtain ⟨⟨x, t₁⟩, hx, h⟩ := Option.bind_eq_some_iff.mp h
  refine ⟨x, t₁, hx, ?_⟩
  dsimp only at h
  split at h
  · next rest' hclose =>
    obtain ⟨rfl, rfl⟩ := Prod.mk.inj (Option.some.inj h)
    exact .inl ⟨hclose, rfl⟩
  · next rest' hmore =>
    obtain ⟨⟨ys, rest₁⟩, hitems, h⟩ := Option.bind_eq_some_iff.mp h
    obtain ⟨rfl, rfl⟩ := Prod.mk.inj (Option.some.inj h)
    exact .inr ⟨rest', ys, hmore, hitems, rfl⟩
  · cases h

/-- How a member is read: its name, a colon, its value, and then the end of the object or the other
members. -/
theorem exists_of_readMembers? (h : readMembers? (n + 1) before t = some (ms, rest)) :
  ∃ inner name t₁ t₂ x t₃, t = '"' :: inner
    ∧ readString? (inner.length + 1) inner = some (name, t₁) ∧ skipSpace t₁ = ':' :: t₂
    ∧ readValue? n (skipSpace t₂) = some (x, t₃)
    ∧ (skipSpace t₃ = '\x7d' :: rest ∧ ms = setMember before (String.ofList name) x
      ∨ ∃ rest', skipSpace t₃ = ',' :: rest'
        ∧ readMembers? n (setMember before (String.ofList name) x) (skipSpace rest')
          = some (ms, rest))
  := by
  rw [readMembers?.eq_def] at h
  dsimp only at h
  split at h
  · next inner =>
    obtain ⟨⟨name, t₁⟩, hname, h⟩ := Option.bind_eq_some_iff.mp h
    dsimp only at h
    split at h
    · next t₂ hcolon =>
      obtain ⟨⟨x, t₃⟩, hx, h⟩ := Option.bind_eq_some_iff.mp h
      refine ⟨inner, name, t₁, t₂, x, t₃, rfl, hname, hcolon, hx, ?_⟩
      dsimp only at h
      split at h
      · next rest' hclose =>
        obtain ⟨rfl, rfl⟩ := Prod.mk.inj (Option.some.inj h)
        exact .inl ⟨hclose, rfl⟩
      · next rest' hmore => exact .inr ⟨rest', hmore, h⟩
      · cases h
    · cases h
  · cases h

/-- Whether all that is read with some fuel is tidy. -/
structure ReadsTidily (n : Nat) : Prop where
  value : ∀ {t rest : Text} {x : Json}, readValue? n t = some (x, rest) → IsTidy x
  items : ∀ {t rest : Text} {xs : List Json}, readItems? n t = some (xs, rest) → AreTidyItems xs
  members : ∀ {t rest : Text} {before ms : Members}, AreTidyMembers before →
    readMembers? n before t = some (ms, rest) → AreTidyMembers ms

theorem IsNumber.isTidy (h : IsNumber x) :
  IsTidy x
  := by
  rcases h with ⟨n, rfl⟩ | ⟨r, rfl⟩
  · exact trivial
  · exact trivial

theorem isTidy_of_readWord? (h : readWord? t = some (x, rest)) :
  IsTidy x
  := by
  obtain ⟨⟨word, y⟩, hfind, heq⟩ := Option.map_eq_some_iff.mp h
  obtain ⟨rfl, -⟩ := Prod.mk.inj heq
  have hwords : ∀ p ∈ wordValues, IsTidy p.2 := by
    rintro p hp
    simp only [wordValues, List.mem_cons, List.not_mem_nil, or_false] at hp
    rcases hp with rfl | rfl | rfl | rfl | rfl | rfl <;> exact trivial
  exact hwords _ (List.mem_of_find?_eq_some hfind)

namespace ReadsTidily

theorem zero :
  ReadsTidily 0
  := by
  constructor
  · rintro t rest x ⟨⟩
  · rintro t rest xs ⟨⟩
  · rintro t rest before ms - ⟨⟩

variable (h : ReadsTidily n)

include h

theorem value_succ (hread : readValue? (n + 1) t = some (x, rest)) :
  IsTidy x
  := by
  rw [readValue?.eq_def] at hread
  dsimp only at hread
  split at hread
  · obtain ⟨⟨s, rest'⟩, -, heq⟩ := Option.map_eq_some_iff.mp hread
    obtain ⟨rfl, -⟩ := Prod.mk.inj heq
    exact trivial
  · split at hread
    · obtain ⟨rfl, -⟩ := Prod.mk.inj (Option.some.inj hread)
      exact trivial
    · obtain ⟨⟨xs, rest'⟩, hitems, heq⟩ := Option.map_eq_some_iff.mp hread
      obtain ⟨rfl, -⟩ := Prod.mk.inj heq
      exact h.items hitems
  · split at hread
    · obtain ⟨rfl, -⟩ := Prod.mk.inj (Option.some.inj hread)
      exact trivial
    · obtain ⟨⟨ms, rest'⟩, hmembers, heq⟩ := Option.map_eq_some_iff.mp hread
      obtain ⟨rfl, -⟩ := Prod.mk.inj heq
      have hnil : AreTidyMembers [] := trivial
      exact h.members hnil hmembers
  · cases hword : readWord? t with
    | some answer =>
        rw [hword] at hread
        obtain rfl := Option.some.inj hread
        exact isTidy_of_readWord? hword
    | none =>
        rw [hword] at hread
        exact (of_readNumber? hread).1.isTidy

theorem items_succ (hread : readItems? (n + 1) t = some (xs, rest)) :
  AreTidyItems xs
  := by
  obtain ⟨x, t₁, hx, ⟨-, rfl⟩ | ⟨rest', ys, -, hitems, rfl⟩⟩ := exists_of_readItems? hread
  · exact ⟨h.value hx, trivial⟩
  · exact ⟨h.value hx, h.items hitems⟩

theorem members_succ (hbefore : AreTidyMembers before)
    (hread : readMembers? (n + 1) before t = some (ms, rest)) :
  AreTidyMembers ms
  := by
  obtain ⟨inner, name, t₁, t₂, x, t₃, -, -, -, hx, hread⟩ := exists_of_readMembers? hread
  have hmembers := @AreTidyMembers.setMember x before (String.ofList name) hbefore (h.value hx)
  rcases hread with ⟨-, rfl⟩ | ⟨rest', -, hread⟩
  · exact hmembers
  · exact h.members hmembers hread

theorem succ :
  ReadsTidily (n + 1)
  := ⟨h.value_succ, h.items_succ, h.members_succ⟩

end ReadsTidily

theorem readsTidily (n : Nat) :
  ReadsTidily n
  := by
  induction n with
  | zero => exact .zero
  | succ n ih => exact ih.succ

theorem isTidy_of_read? (h : read? t = some x) :
  IsTidy x
  := by
  rw [read?] at h
  split at h
  · next y rest hread =>
    split at h
    · obtain rfl := Option.some.inj h
      exact (readsTidily _).value hread
    · cases h
  · cases h

/-! ### What is written is read again -/

/-- Where the reader stops within a numeral, neither the value behind it nor the end of its list or
object is found. -/
theorem BeginsInNumeral.skipSpace_ne (h : BeginsInNumeral t) {c : Char}
    (hc : c ∈ [',', ']', '\x7d']) :
  skipSpace t ≠ c :: rest
  := by
  obtain ⟨c', t', rfl, hspace, hmark⟩ := h.exists_cons
  rw [skipSpace_cons hspace]
  rintro heq
  rw [(List.cons.inj heq).1] at hmark
  exact hmark hc

theorem not_beginsInNumeral_cons {c : Char} (hc : isNumeralChar c = false) :
  ¬ BeginsInNumeral (c :: t)
  := by
  rintro ⟨c', rest, heq, hc'⟩
  rw [← (List.cons.inj heq).1, hc] at hc'
  cases hc'

theorem not_beginsInNumeral_renderItems (level outer : Nat) (xs : List Json) (t : Text) :
  ¬ BeginsInNumeral (renderItems .minimal level xs ++ (newLine outer ++ t))
  := by
  cases xs with
  | nil => exact not_beginsInNumeral_cons rfl
  | cons x xs => exact not_beginsInNumeral_cons rfl

theorem not_beginsInNumeral_renderMembers (level outer : Nat) (ms : Members) (t : Text) :
  ¬ BeginsInNumeral (renderMembers .minimal level ms ++ (newLine outer ++ t))
  := by
  cases ms with
  | nil => exact not_beginsInNumeral_cons rfl
  | cons m ms => exact not_beginsInNumeral_cons rfl

/-- Whether what is read with some fuel, where a value was written, has the outline of the value; or
else the reader stops within a numeral. -/
structure Rereads (n : Nat) : Prop where
  value : ∀ {x y : Json} {t rest : Text}, IsTidy x → ¬ BeginsInNumeral t → ∀ level,
    readValue? n (renderAt .minimal level x ++ t) = some (y, rest) →
    outline y = outline x ∧ rest = t ∨ BeginsInNumeral rest
  items : ∀ {x : Json} {xs ys : List Json} {t rest : Text}, IsTidy x → AreTidyItems xs →
    ∀ level outer, readItems? n (renderAt .minimal level x ++ (renderItems .minimal level xs
        ++ (newLine outer ++ ']' :: t))) = some (ys, rest) →
    outlineItems ys = outlineItems (x :: xs) ∧ rest = t
  members : ∀ {before ms ms' : Members} {name : String} {x : Json} {t rest : Text},
    AreTidyMembers ((name, x) :: ms) → (∀ m ∈ (name, x) :: ms, m.1 ∉ before.map (·.1)) →
    ∀ level outer, readMembers? n before (renderString .minimal name ++ ':' :: ' ' ::
        (renderAt .minimal level x ++ (renderMembers .minimal level ms
          ++ (newLine outer ++ '\x7d' :: t)))) = some (ms', rest) →
    outlineMembers ms' = outlineMembers (before ++ (name, x) :: ms) ∧ rest = t

/-- A number is read as one again, or the reader stops within it. -/
theorem readValue?_real {r : Binary64} (ht : ¬ BeginsInNumeral t)
    (h : readValue? (n + 1) ((r.write numberWords).toList ++ t) = some (x, rest)) :
  outline x = int 0 ∧ rest = t ∨ BeginsInNumeral rest
  := by
  rcases write_cases r with hnumeral | hword
  · obtain ⟨hx, hrest⟩ := readValue?_numeral hnumeral ht h
    exact hrest.imp_left fun hrest => ⟨outline_of_isNumber hx, hrest⟩
  · left
    simp only [List.mem_cons, List.not_mem_nil, or_false] at hword
    rcases hword with hword | hword | hword <;>
      (rw [hword, readValue?.eq_def] at h
       obtain ⟨rfl, rfl⟩ := Prod.mk.inj (Option.some.inj h)
       exact ⟨rfl, rfl⟩)

namespace Rereads

theorem zero :
  Rereads 0
  := by
  constructor
  · rintro x y t rest - - level ⟨⟩
  · rintro x xs ys t rest - - level outer ⟨⟩
  · rintro before ms ms' name x t rest - - level outer ⟨⟩

variable (h : Rereads n)

include h

theorem value_succ (hx : IsTidy x) (ht : ¬ BeginsInNumeral t) (level : Nat)
    (hread : readValue? (n + 1) (renderAt .minimal level x ++ t) = some (y, rest)) :
  outline y = outline x ∧ rest = t ∨ BeginsInNumeral rest
  := by
  match x with
  | null =>
      rw [readValue?_word null (.inl rfl)] at hread
      obtain ⟨rfl, rfl⟩ := Prod.mk.inj (Option.some.inj hread)
      exact .inl ⟨rfl, rfl⟩
  | bool b =>
      rw [readValue?_word (bool b) (.inr ⟨b, rfl⟩)] at hread
      obtain ⟨rfl, rfl⟩ := Prod.mk.inj (Option.some.inj hread)
      exact .inl ⟨rfl, rfl⟩
  | int i =>
      obtain ⟨hy, hrest⟩ := readValue?_numeral (isNumeral_toString i) ht hread
      exact hrest.imp_left fun hrest => ⟨outline_of_isNumber hy, hrest⟩
  | real r => exact readValue?_real ht hread
  | str s =>
      rw [renderAt, readValue?_str] at hread
      obtain ⟨rfl, rfl⟩ := Prod.mk.inj (Option.some.inj hread)
      exact .inl ⟨rfl, rfl⟩
  | arr [] =>
      rw [readValue?.eq_def] at hread
      obtain ⟨rfl, rfl⟩ := Prod.mk.inj (Option.some.inj hread)
      exact .inl ⟨rfl, rfl⟩
  | arr (x :: xs) =>
      obtain ⟨c, t', hcons, hspace, hc⟩ := exists_renderAt_eq_cons x (level + 1)
      simp only [renderAt, List.cons_append, List.append_assoc, List.nil_append] at hread
      rw [hcons, List.cons_append, readValue?_bracket n hspace hc] at hread
      obtain ⟨⟨ys, rest'⟩, hitems, heq⟩ := Option.map_eq_some_iff.mp hread
      obtain ⟨rfl, rfl⟩ := Prod.mk.inj heq
      rw [← List.cons_append, ← hcons] at hitems
      obtain ⟨hys, hrest⟩ := h.items hx.1 hx.2 (level + 1) level hitems
      exact .inl ⟨congrArg arr hys, hrest⟩
  | obj [] =>
      rw [readValue?.eq_def] at hread
      obtain ⟨rfl, rfl⟩ := Prod.mk.inj (Option.some.inj hread)
      exact .inl ⟨rfl, rfl⟩
  | obj ((name, x) :: ms) =>
      obtain ⟨inner, hinner, -⟩ := readString?_renderString name
        (':' :: ' ' :: (renderAt .minimal (level + 1) x ++ (renderMembers .minimal (level + 1) ms
          ++ (newLine level ++ '\x7d' :: t))))
      simp only [renderAt, List.cons_append, List.append_assoc, List.nil_append] at hread
      rw [hinner, readValue?_brace, ← hinner] at hread
      obtain ⟨⟨ms', rest'⟩, hmembers, heq⟩ := Option.map_eq_some_iff.mp hread
      obtain ⟨rfl, rfl⟩ := Prod.mk.inj heq
      obtain ⟨hms', hrest⟩ := h.members hx (fun _ _ => List.not_mem_nil) (level + 1) level hmembers
      exact .inl ⟨congrArg obj hms', hrest⟩

theorem items_succ (hx : IsTidy x) (hxs : AreTidyItems xs) (level outer : Nat)
    (hread : readItems? (n + 1) (renderAt .minimal level x ++ (renderItems .minimal level xs
      ++ (newLine outer ++ ']' :: t))) = some (ys, rest)) :
  outlineItems ys = outlineItems (x :: xs) ∧ rest = t
  := by
  obtain ⟨y, t₁, hy, hend⟩ := exists_of_readItems? hread
  rcases h.value hx (not_beginsInNumeral_renderItems level outer xs _) level hy with
    ⟨hyx, rfl⟩ | hwithin
  · cases xs with
    | nil =>
        rw [renderItems, List.nil_append, skipSpace_newLine, skipSpace_cons rfl] at hend
        rcases hend with ⟨hclose, rfl⟩ | ⟨rest', ys', hmore, -⟩
        · refine ⟨?_, (List.cons.inj hclose).2.symm⟩
          rw [outlineItems, hyx]
          rfl
        · exact absurd (List.cons.inj hmore).1 (by decide)
    | cons x' xs =>
        simp only [renderItems, List.cons_append, List.append_assoc] at hend
        rw [skipSpace_cons rfl] at hend
        rcases hend with ⟨hclose, -⟩ | ⟨rest', ys', hmore, hitems, rfl⟩
        · exact absurd (List.cons.inj hclose).1 (by decide)
        · rw [← (List.cons.inj hmore).2, skipSpace_newLine, skipSpace_renderAt] at hitems
          obtain ⟨hys', hrest⟩ := h.items hxs.1 hxs.2 level outer hitems
          refine ⟨?_, hrest⟩
          rw [outlineItems, hyx, hys']
          rfl
  · rcases hend with ⟨hclose, -⟩ | ⟨rest', ys', hmore, -⟩
    · exact absurd hclose (hwithin.skipSpace_ne (by decide))
    · exact absurd hmore (hwithin.skipSpace_ne (by decide))

theorem members_succ {ms' : Members} (hms : AreTidyMembers ((name, x) :: ms))
    (hbefore : ∀ m ∈ (name, x) :: ms, m.1 ∉ before.map (·.1)) (level outer : Nat)
    (hread : readMembers? (n + 1) before (renderString .minimal name ++ ':' :: ' ' ::
      (renderAt .minimal level x ++ (renderMembers .minimal level ms
        ++ (newLine outer ++ '\x7d' :: t)))) = some (ms', rest)) :
  outlineMembers ms' = outlineMembers (before ++ (name, x) :: ms) ∧ rest = t
  := by
  obtain ⟨hfresh, hx, hms⟩ := hms
  obtain ⟨hname, hothers⟩ := List.forall_mem_cons.mp hbefore
  obtain ⟨inner, hinner, hstring⟩ := readString?_renderString name
    (':' :: ' ' :: (renderAt .minimal level x
      ++ (renderMembers .minimal level ms ++ (newLine outer ++ '\x7d' :: t))))
  obtain ⟨inner', name', t₁, t₂, y, t₃, hstart, hstring', hcolon, hy, hend⟩ :=
    exists_of_readMembers? hread
  rw [hinner] at hstart
  obtain rfl := (List.cons.inj hstart).2
  rw [hstring] at hstring'
  obtain ⟨rfl, rfl⟩ := Prod.mk.inj (Option.some.inj hstring')
  rw [skipSpace_cons rfl] at hcolon
  obtain rfl := (List.cons.inj hcolon).2
  rw [skipSpace_space, skipSpace_renderAt] at hy
  have hset : ∀ y, setMember before (String.ofList name.toList) y = before ++ [(name, y)] := by
    intro y
    rw [String.ofList_toList, setMember_of_notMem hname]
  rw [hset] at hend
  rcases h.value hx (not_beginsInNumeral_renderMembers level outer ms _) level hy with
    ⟨hyx, rfl⟩ | hwithin
  · have hone : outlineMembers (before ++ [(name, y)]) = outlineMembers (before ++ [(name, x)]) := by
      rw [outlineMembers_append, outlineMembers_append, outlineMembers, hyx]
      rfl
    cases ms with
    | nil =>
        rw [renderMembers, List.nil_append, skipSpace_newLine, skipSpace_cons rfl] at hend
        rcases hend with ⟨hclose, rfl⟩ | ⟨rest', hmore, -⟩
        · exact ⟨hone, (List.cons.inj hclose).2.symm⟩
        · exact absurd (List.cons.inj hmore).1 (by decide)
    | cons m ms =>
        obtain ⟨next, x'⟩ := m
        simp only [renderMembers, List.cons_append, List.append_assoc] at hend
        rw [skipSpace_cons rfl] at hend
        rcases hend with ⟨hclose, -⟩ | ⟨rest', hmore, hmembers⟩
        · exact absurd (List.cons.inj hclose).1 (by decide)
        · obtain ⟨inner', hinner', -⟩ := readString?_renderString next
            (':' :: ' ' :: (renderAt .minimal level x'
              ++ (renderMembers .minimal level ms ++ (newLine outer ++ '\x7d' :: t))))
          rw [← (List.cons.inj hmore).2, skipSpace_newLine, hinner', skipSpace_cons rfl,
            ← hinner'] at hmembers
          obtain ⟨hms', hrest⟩ := h.members hms (notMem_map_fst_concat y hfresh hothers) level outer
            hmembers
          refine ⟨?_, hrest⟩
          rw [hms', outlineMembers_append, hone, ← outlineMembers_append, List.append_assoc]
          rfl
  · rcases hend with ⟨hclose, -⟩ | ⟨rest', hmore, -⟩
    · exact absurd hclose (hwithin.skipSpace_ne (by decide))
    · exact absurd hmore (hwithin.skipSpace_ne (by decide))

theorem succ :
  Rereads (n + 1)
  := ⟨h.value_succ, h.items_succ, h.members_succ⟩

end Rereads

theorem rereads (n : Nat) :
  Rereads n
  := by
  induction n with
  | zero => exact .zero
  | succ n ih => exact ih.succ

/-- What is read where a tidy value was written has its outline. -/
theorem outline_of_read?_renderAt (hx : IsTidy x) (level : Nat)
    (h : read? (renderAt .minimal level x) = some y) :
  outline y = outline x
  := by
  have hskip := skipSpace_renderAt x level []
  rw [List.append_nil] at hskip
  rw [read?, hskip] at h
  split at h
  · next z rest hread =>
    split at h
    · next hend =>
      obtain rfl := Option.some.inj h
      rw [← List.append_nil (renderAt .minimal level x)] at hread
      have hnil : ¬ BeginsInNumeral [] := by
        rintro ⟨c, rest, heq, -⟩
        cases heq
      rcases (rereads _).value hx hnil level hread with ⟨heq, -⟩ | hwithin
      · exact heq
      · obtain ⟨c, rest', rfl, hspace, -⟩ := hwithin.exists_cons
        rw [skipSpace_cons hspace] at hend
        cases hend
    · cases h
  · cases h

end StylePrune.Json
