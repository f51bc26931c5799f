import Mathlib.Data.List.Nodup
import StylePrune.Proofs.Json.Numerals

/-!
# Reading JSON back

A value without numbers whose objects name each member once is read back from the text that it is
written as.  Each construct is read up to its last character, whatever stands behind it, and the
length of what is written is fuel enough.
-/

namespace StylePrune

namespace Text

theorem hexValue?_hexDigit {n : Nat} (h : n < 16) :
  hexValue? (hexDigit n) = some n
  := by
  have : ∀ n : Fin 16, hexValue? (hexDigit n) = some n.val := by decide
  exact this ⟨n, h⟩

end Text

namespace Json

/-! ### Strings -/

/-- Four hexadecimal digits are read back as the number that they were written for. -/
theorem readUnit?_hex {n : Nat} (h : n < 0x10000) (t : Text) :
  readUnit? (Text.hex 4 n ++ t) = some (n, t)
  := by
  have hhex : Text.hex 4 n
      = [Text.hexDigit (n / 16 / 16 / 16 % 16), Text.hexDigit (n / 16 / 16 % 16),
        Text.hexDigit (n / 16 % 16), Text.hexDigit (n % 16)] := rfl
  have hvalue : (((n / 16 / 16 / 16 % 16) * 16 + n / 16 / 16 % 16) * 16 + n / 16 % 16) * 16
      + n % 16 = n := by omega
  rw [hhex]
  simp only [List.cons_append, List.nil_append, readUnit?]
  rw [Text.hexValue?_hexDigit (Nat.mod_lt _ (by decide)),
    Text.hexValue?_hexDigit (Nat.mod_lt _ (by decide)),
    Text.hexValue?_hexDigit (Nat.mod_lt _ (by decide)),
    Text.hexValue?_hexDigit (Nat.mod_lt _ (by decide))]
  simp only [Option.bind_eq_bind, Option.bind_some]
  rw [hvalue]
  rfl

/-- A character that is written as an escape of one letter. -/
theorem readString?_letter {n : Nat} {e c : Char} (he : e ≠ 'u') (h : escapeOf? e = some c)
    (t : Text) :
  readString? (n + 1) ('\\' :: e :: t) = (readString? n t).map fun (s, rest) => (c :: s, rest)
  := by
  rw [readString?, if_neg (by decide), if_pos rfl, h]
  · cases readString? n t <;> rfl
  · exact fun heq => absurd heq he

theorem readString?_unit {n : Nat} {c : Char} (h : c.toNat < 0xD800) (t : Text) :
  readString? (n + 1) (escapeUnit c.toNat ++ t)
    = (readString? n t).map fun (s, rest) => (c :: s, rest)
  := by
  have hunits : readEscapedUnits? (Text.hex 4 c.toNat ++ t) = some (c, t) := by
    rw [readEscapedUnits?, readUnit?_hex (by omega)]
    simp only [Option.bind_eq_bind, Option.bind_some]
    rw [if_neg (by omega), if_neg (by omega), Char.ofNat_toNat]
    rfl
  rw [escapeUnit, List.cons_append, List.cons_append, readString?, if_neg (by decide), if_pos rfl,
    hunits, Option.bind_eq_bind, Option.bind_some]
  dsimp only
  cases readString? n t <;> rfl

theorem readString?_plain {n : Nat} {c : Char} (hquote : c ≠ '"') (hslash : c ≠ '\\')
    (hcontrol : ¬ c.toNat < 32) (t : Text) :
  readString? (n + 1) (c :: t) = (readString? n t).map fun (s, rest) => (c :: s, rest)
  := by
  rw [readString?.eq_def]
  dsimp only
  rw [if_neg hquote, if_neg hslash, if_neg hcontrol]
  cases readString? n t <;> rfl

theorem readString?_quote (n : Nat) (t : Text) :
  readString? (n + 1) ('"' :: t) = some ([], t)
  := by
  rw [readString?.eq_def]
  exact if_pos rfl

/-- A character is read back from the way it stands in a string. -/
theorem readString?_escapeChar (n : Nat) (c : Char) (t : Text) :
  readString? (n + 1) (escapeChar .minimal c ++ t)
    = (readString? n t).map fun (s, rest) => (c :: s, rest)
  := by
  have hchar := Char.ofNat_toNat c
  rw [escapeChar]
  dsimp only
  by_cases hmark : c = '"' ∨ c = '\\'
  · rw [if_pos hmark]
    rcases hmark with rfl | rfl
    · exact readString?_letter (by decide) rfl t
    · exact readString?_letter (by decide) rfl t
  · rw [if_neg hmark]
    by_cases hfeed : c = '\n'
    · rw [if_pos hfeed, hfeed]
      exact readString?_letter (by decide) rfl t
    · rw [if_neg hfeed]
      by_cases hreturn : c = '\r'
      · rw [if_pos hreturn, hreturn]
        exact readString?_letter (by decide) rfl t
      · rw [if_neg hreturn]
        by_cases htab : c = '\t'
        · rw [if_pos htab, htab]
          exact readString?_letter (by decide) rfl t
        · rw [if_neg htab]
          by_cases hback : c.toNat = 8
          · rw [if_pos hback]
            rw [hback] at hchar
            exact readString?_letter (by decide) (by rw [← hchar]; rfl) t
          · rw [if_neg hback]
            by_cases hform : c.toNat = 12
            · rw [if_pos hform]
              rw [hform] at hchar
              exact readString?_letter (by decide) (by rw [← hchar]; rfl) t
            · rw [if_neg hform]
              by_cases hcontrol : c.toNat < 32
              · rw [if_pos hcontrol]
                exact readString?_unit (by omega) t
              · obtain ⟨hquote, hslash⟩ := not_or.mp hmark
                rw [if_neg hcontrol, if_pos (.inr rfl), List.singleton_append]
                exact readString?_plain hquote hslash hcontrol t

/-- A string is read back up to its closing mark. -/
theorem readString?_flatMap {n : Nat} {s : Text} (h : s.length < n) (t : Text) :
  readString? n (s.flatMap (escapeChar .minimal) ++ '"' :: t) = some (s, t)
  := by
  induction s generalizing n with
  | nil =>
      cases n with
      | zero => cases h
      | succ n =>
          exact readString?_quote n t
  | cons c s ih =>
      cases n with
      | zero => cases h
      | succ n =>
          rw [List.flatMap_cons, List.append_assoc, readString?_escapeChar,
            ih (Nat.lt_of_succ_lt_succ h)]
          rfl

theorem escapeChar_ne_nil (c : Char) :
  escapeChar .minimal c ≠ []
  := by
  simp only [escapeChar]
  split_ifs <;> simp [escapeUnit]

theorem length_le_length_flatMap_escapeChar (s : Text) :
  s.length ≤ (s.flatMap (escapeChar .minimal)).length
  := by
  induction s with
  | nil => exact Nat.le_refl 0
  | cons c s ih =>
      have hpos := List.length_pos_of_ne_nil (escapeChar_ne_nil c)
      rw [List.flatMap_cons, List.length_append, List.length_cons]
      omega

/-- A string behind its opening mark, read with as much fuel as the text is long. -/
theorem readString?_renderString (s : String) (t : Text) :
  ∃ inner, renderString .minimal s ++ t = '"' :: inner
    ∧ readString? (inner.length + 1) inner = some (s.toList, t)
  := by
  refine ⟨s.toList.flatMap (escapeChar .minimal) ++ '"' :: t, ?_, ?_⟩
  · rw [renderString]
    simp
  · apply readString?_flatMap
    have hle := length_le_length_flatMap_escapeChar s.toList
    rw [List.length_append]
    omega

/-! ### Blanks -/

theorem skipSpace_newLine (level : Nat) (t : Text) :
  skipSpace (newLine level ++ t) = skipSpace t
  := by
  rw [skipSpace, newLine, List.cons_append, List.dropWhile_cons_of_pos (by decide), skipSpace]
  apply List.dropWhile_append_of_pos
  intro c hc
  rw [List.eq_of_mem_replicate hc]
  decide

theorem skipSpace_cons {c : Char} (h : isSpace c = false) (t : Text) :
  skipSpace (c :: t) = c :: t
  := by
  rw [skipSpace, List.dropWhile_cons_of_neg]
  rw [h]
  exact Bool.false_ne_true

theorem skipSpace_space (t : Text) :
  skipSpace (' ' :: t) = skipSpace t
  := by
  rw [skipSpace, List.dropWhile_cons_of_pos (by decide), skipSpace]

/-! ### Values -/

mutual

/-- Whether a value is made without numbers, and each of its objects names each member once. -/
def IsPlain : Json → Prop
  | null | bool _ | str _ => True
  | int _ | real _ => False
  | arr xs => ArePlainItems xs
  | obj ms => ArePlainMembers ms

/-- Whether the items of a list are plain. -/
def ArePlainItems : List Json → Prop
  | [] => True
  | x :: xs => IsPlain x ∧ ArePlainItems xs

/-- Whether the members of an object are plain and have different names. -/
def ArePlainMembers : List (String × Json) → Prop
  | [] => True
  | (name, x) :: ms => name ∉ ms.map (·.1) ∧ IsPlain x ∧ ArePlainMembers ms

end

/-- What a value is written as begins with a character that is no blank and closes no list. -/
theorem exists_renderAt_eq_cons (x : Json) (level : Nat) :
  ∃ c t, renderAt .minimal level x = c :: t ∧ isSpace c = false ∧ c ≠ ']'
  := by
  have hnumeral : ∀ {u : Text}, IsNumeral u →
      ∃ c t, u = c :: t ∧ isSpace c = false ∧ c ≠ ']' := by
    intro u hu
    obtain ⟨c, t, heq, hspace, hmark⟩ := hu.beginsInNumeral.exists_cons
    exact ⟨c, t, heq, hspace, fun hc => hmark (by simp [hc])⟩
  cases x with
  | null => exact ⟨'n', _, rfl, rfl, by decide⟩
  | bool b =>
      cases b with
      | true => exact ⟨'t', _, rfl, rfl, by decide⟩
      | false => exact ⟨'f', _, rfl, rfl, by decide⟩
  | int n => exact hnumeral (isNumeral_toString n)
  | real r =>
      rcases write_cases r with h | h
      · exact hnumeral h
      · rw [renderAt]
        simp only [List.mem_cons, List.not_mem_nil, or_false] at h
        rcases h with h | h | h
        · exact ⟨'N', _, by rw [h]; rfl, rfl, by decide⟩
        · exact ⟨'I', _, by rw [h]; rfl, rfl, by decide⟩
        · exact ⟨'-', _, by rw [h]; rfl, rfl, by decide⟩
  | str s => exact ⟨'"', _, rfl, rfl, by decide⟩
  | arr xs =>
      cases xs with
      | nil => exact ⟨'[', _, rfl, rfl, by decide⟩
      | cons x xs => exact ⟨'[', _, rfl, rfl, by decide⟩
  | obj ms =>
      cases ms with
      | nil => exact ⟨'\x7b', _, rfl, rfl, by decide⟩
      | cons m ms => exact ⟨'\x7b', _, rfl, rfl, by decide⟩

theorem length_renderAt_pos (x : Json) (level : Nat) :
  0 < (renderAt .minimal level x).length
  := by
  obtain ⟨c, t, h, -⟩ := exists_renderAt_eq_cons x level
  rw [h]
  exact Nat.succ_pos _

theorem skipSpace_renderAt (x : Json) (level : Nat) (t : Text) :
  skipSpace (renderAt .minimal level x ++ t) = renderAt .minimal level x ++ t
  := by
  obtain ⟨c, t', h, hc, -⟩ := exists_renderAt_eq_cons x level
  rw [h, List.cons_append, skipSpace_cons hc]

theorem setMember_of_notMem {members : Members} {name : String} (h : name ∉ members.map (·.1))
    (value : Json) :
  setMember members name value = members ++ [(name, value)]
  := by
  induction members with
  | nil => rfl
  | cons m members ih =>
      obtain ⟨hm, hmembers⟩ := not_or.mp (mt List.mem_cons.mpr h)
      rw [setMember, if_neg, ih hmembers, List.cons_append]
      rw [beq_iff_eq]
      exact Ne.symm hm

/-- Members with names of their own have names of their own behind one member more. -/
theorem notMem_map_fst_concat {before ms : Members} {name : String} (x : Json)
    (hfresh : name ∉ ms.map (·.1)) (hothers : ∀ m ∈ ms, m.1 ∉ before.map (·.1)) :
  ∀ m ∈ ms, m.1 ∉ (before ++ [(name, x)]).map (·.1)
  := by
  intro m hm
  rw [List.map_append, List.mem_append, not_or]
  refine ⟨hothers m hm, ?_⟩
  rw [List.map_singleton, List.mem_singleton]
  intro heq
  exact hfresh (List.mem_map.mpr ⟨m, hm, heq⟩)

theorem readValue?_word {n : Nat} (word : Json) (hword : word = null ∨ ∃ b, word = bool b)
    (level : Nat) (t : Text) :
  readValue? (n + 1) (renderAt .minimal level word ++ t) = some (word, t)
  := by
  rcases hword with rfl | ⟨b, rfl⟩
  · rw [readValue?.eq_def]
    rfl
  · cases b <;> (rw [readValue?.eq_def]; rfl)

theorem readValue?_str (n : Nat) (s : String) (t : Text) :
  readValue? (n + 1) (renderString .minimal s ++ t) = some (str s, t)
  := by
  obtain ⟨inner, htext, hread⟩ := readString?_renderString s t
  rw [htext, readValue?.eq_def]
  change (readString? (inner.length + 1) inner).map _ = _
  rw [hread, Option.map_some]
  exact congrArg (fun s => some (str s, t)) String.ofList_toList

theorem readValue?_cons_bracket (n : Nat) (t : Text) :
  readValue? (n + 1) ('[' :: t) = match skipSpace t with
    | ']' :: rest => some (arr [], rest)
    | t => (readItems? n t).map fun (xs, rest) => (arr xs, rest)
  := by
  rw [readValue?.eq_def]
  rfl

theorem readValue?_cons_brace (n : Nat) (t : Text) :
  readValue? (n + 1) ('\x7b' :: t) = match skipSpace t with
    | '\x7d' :: rest => some (obj [], rest)
    | t => (readMembers? n [] t).map fun (ms, rest) => (obj ms, rest)
  := by
  rw [readValue?.eq_def]
  rfl

/-- A list is read item by item if no bracket closes it at once. -/
theorem readValue?_bracket (n : Nat) {c : Char} (hspace : isSpace c = false) (hc : c ≠ ']')
    (level : Nat) (t : Text) :
  readValue? (n + 1) ('[' :: (newLine level ++ c :: t))
    = (readItems? n (c :: t)).map fun (xs, rest) => (arr xs, rest)
  := by
  rw [readValue?_cons_bracket, skipSpace_newLine, skipSpace_cons hspace]
  split
  · next heq => exact absurd (List.cons.inj heq).1 hc
  · rfl

/-- An object is read member by member if it begins with a name. -/
theorem readValue?_brace (n level : Nat) (t : Text) :
  readValue? (n + 1) ('\x7b' :: (newLine level ++ '"' :: t))
    = (readMembers? n [] ('"' :: t)).map fun (ms, rest) => (obj ms, rest)
  := by
  rw [readValue?_cons_brace, skipSpace_newLine, skipSpace_cons rfl]
  rfl

section Steps

variable {n : Nat} {text t rest rest' : Text} {x : Json} {xs : List Json}

theorem readItems?_last (hx : readValue? n text = some (x, t)) (ht : skipSpace t = ']' :: rest) :
  readItems? (n + 1) text = some ([x], rest)
  := by
  rw [readItems?.eq_def]
  simp only [hx, ht, Option.bind_eq_bind, Option.bind_some]
  rfl

theorem readItems?_more (hx : readValue? n text = some (x, t)) (ht : skipSpace t = ',' :: rest)
    (hxs : readItems? n (skipSpace rest) = some (xs, rest')) :
  readItems? (n + 1) text = some (x :: xs, rest')
  := by
  rw [readItems?.eq_def]
  simp only [hx, ht, hxs, Option.bind_eq_bind, Option.bind_some]
  rfl

variable {before members : Members} {name : Text} {inner t₁ t₂ : Text}

theorem readMembers?_last (hname : readString? (inner.length + 1) inner = some (name, t₁))
    (hcolon : skipSpace t₁ = ':' :: t₂) (hx : readValue? n (skipSpace t₂) = some (x, t))
    (ht : skipSpace t = '\x7d' :: rest) :
  readMembers? (n + 1) before ('"' :: inner)
    = some (setMember before (String.ofList name) x, rest)
  := by
  rw [readMembers?.eq_def]
  simp only [hname, hcolon, hx, ht, Option.bind_eq_bind, Option.bind_some]
  rfl

theorem readMembers?_more (hname : readString? (inner.length + 1) inner = some (name, t₁))
    (hcolon : skipSpace t₁ = ':' :: t₂) (hx : readValue? n (skipSpace t₂) = some (x, t))
    (ht : skipSpace t = ',' :: rest)
    (hmembers : readMembers? n (setMember before (String.ofList name) x) (skipSpace rest)
      = some (members, rest')) :
  readMembers? (n + 1) before ('"' :: inner) = some (members, rest')
  := by
  rw [readMembers?.eq_def]
  simp only [hname, hcolon, hx, ht, hmembers, Option.bind_eq_bind, Option.bind_some]

end Steps

/-- Whether some fuel is enough for all that is written with no more characters. -/
structure ReadsBack (n : Nat) : Prop where
  value : ∀ {x : Json}, IsPlain x → ∀ level, (renderAt .minimal level x).length ≤ n → ∀ t,
    readValue? n (renderAt .minimal level x ++ t) = some (x, t)
  items : ∀ {x : Json} {xs : List Json}, IsPlain x → ArePlainItems xs → ∀ level outer,
    (renderAt .minimal level x).length + (renderItems .minimal level xs).length < n → ∀ t,
    readItems? n (renderAt .minimal level x ++ (renderItems .minimal level xs
        ++ (newLine outer ++ ']' :: t)))
      = some (x :: xs, t)
  members : ∀ {before ms : Members} {name : String} {x : Json},
    ArePlainMembers ((name, x) :: ms) → (∀ m ∈ (name, x) :: ms, m.1 ∉ before.map (·.1)) →
    ∀ level outer,
    (renderAt .minimal level x).length + (renderMembers .minimal level ms).length < n → ∀ t,
    readMembers? n before (renderString .minimal name ++ ':' :: ' ' :: (renderAt .minimal level x
        ++ (renderMembers .minimal level ms ++ (newLine outer ++ '\x7d' :: t))))
      = some (before ++ (name, x) :: ms, t)

namespace ReadsBack

theorem zero :
  ReadsBack 0
  := by
  constructor
  · intro x hx level hn
    exact absurd (length_renderAt_pos x level) (Nat.not_lt.mpr hn)
  · intro x xs _ _ level outer hn
    exact absurd hn (Nat.not_lt_zero _)
  · intro before ms name x _ _ level outer hn
    exact absurd hn (Nat.not_lt_zero _)

variable {n : Nat} (h : ReadsBack n)

include h

theorem value_succ {x : Json} (hx : IsPlain x) (level : Nat)
    (hn : (renderAt .minimal level x).length ≤ n + 1) (t : Text) :
  readValue? (n + 1) (renderAt .minimal level x ++ t) = some (x, t)
  := by
  match x with
  | null => exact readValue?_word null (.inl rfl) level t
  | bool b => exact readValue?_word (bool b) (.inr ⟨b, rfl⟩) level t
  | int i => exact absurd hx id
  | real r => exact absurd hx id
  | str s => exact readValue?_str n s t
  | arr [] =>
      rw [readValue?.eq_def]
      rfl
  | arr (x :: xs) =>
      obtain ⟨c, t', hcons, hspace, hc⟩ := exists_renderAt_eq_cons x (level + 1)
      simp only [renderAt, List.cons_append, List.append_assoc, List.nil_append, List.length_cons,
        List.length_append] at hn ⊢
      have hitems := h.items hx.1 hx.2 (level + 1) level (by omega) t
      rw [hcons] at hitems ⊢
      rw [List.cons_append] at hitems ⊢
      rw [readValue?_bracket n hspace hc, hitems]
      rfl
  | obj [] =>
      rw [readValue?.eq_def]
      rfl
  | obj ((name, x) :: ms) =>
      simp only [renderAt, List.cons_append, List.append_assoc, List.nil_append, List.length_cons,
        List.length_append] at hn ⊢
      have hmembers := @members n h [] _ _ _ hx (fun _ _ => List.not_mem_nil) (level + 1) level
        (by omega) t
      obtain ⟨inner, hinner, -⟩ := readString?_renderString name
        (':' :: ' ' :: (renderAt .minimal (level + 1) x ++ (renderMembers .minimal (level + 1) ms
          ++ (newLine level ++ '\x7d' :: t))))
      rw [hinner] at hmembers ⊢
      rw [readValue?_brace, hmembers]
      rfl

theorem items_succ {x : Json} {xs : List Json} (hx : IsPlain x) (hxs : ArePlainItems xs)
    (level outer : Nat)
    (hn : (renderAt .minimal level x).length + (renderItems .minimal level xs).length < n + 1)
    (t : Text) :
  readItems? (n + 1) (renderAt .minimal level x ++ (renderItems .minimal level xs
      ++ (newLine outer ++ ']' :: t)))
    = some (x :: xs, t)
  := by
  cases xs with
  | nil =>
      apply readItems?_last (h.value hx level (by omega) _)
      rw [renderItems, List.nil_append, skipSpace_newLine, skipSpace_cons rfl]
  | cons y ys =>
      simp only [renderItems, List.cons_append, List.append_assoc, List.length_cons,
        List.length_append] at hn ⊢
      apply readItems?_more (h.value hx level (by omega) _) (skipSpace_cons rfl _)
      rw [skipSpace_newLine, skipSpace_renderAt]
      exact h.items hxs.1 hxs.2 level outer (by omega) t

theorem members_succ {before ms : Members} {name : String} {x : Json}
    (hms : ArePlainMembers ((name, x) :: ms))
    (hbefore : ∀ m ∈ (name, x) :: ms, m.1 ∉ before.map (·.1)) (level outer : Nat)
    (hn : (renderAt .minimal level x).length + (renderMembers .minimal level ms).length < n + 1)
    (t : Text) :
  readMembers? (n + 1) before (renderString .minimal name ++ ':' :: ' ' ::
      (renderAt .minimal level x ++ (renderMembers .minimal level ms
        ++ (newLine outer ++ '\x7d' :: t))))
    = some (before ++ (name, x) :: ms, t)
  := by
  obtain ⟨hfresh, hx, hms⟩ := hms
  obtain ⟨hname, hrest⟩ := List.forall_mem_cons.mp hbefore
  obtain ⟨inner, hinner, hread⟩ := readString?_renderString name
    (':' :: ' ' :: (renderAt .minimal level x
      ++ (renderMembers .minimal level ms ++ (newLine outer ++ '\x7d' :: t))))
  have hset : setMember before (String.ofList name.toList) x = before ++ [(name, x)] := by
    rw [String.ofList_toList, setMember_of_notMem hname]
  have hvalue := h.value hx level (by omega)
    (renderMembers .minimal level ms ++ (newLine outer ++ '\x7d' :: t))
  rw [← skipSpace_renderAt, ← skipSpace_space] at hvalue
  rw [hinner]
  cases ms with
  | nil =>
      rw [readMembers?_last hread (skipSpace_cons rfl _) hvalue, hset]
      rw [renderMembers, List.nil_append, skipSpace_newLine, skipSpace_cons rfl]
  | cons m ms =>
      obtain ⟨next, y⟩ := m
      have hbefore' := notMem_map_fst_concat x hfresh hrest
      simp only [renderMembers, List.cons_append, List.append_assoc, List.length_cons,
        List.length_append] at hn hvalue hread ⊢
      have hmembers := h.members hms hbefore' level outer (by omega) t
      rw [List.append_assoc, List.singleton_append] at hmembers
      apply readMembers?_more hread (skipSpace_cons rfl _) hvalue (skipSpace_cons rfl _)
      obtain ⟨inner', hinner', -⟩ := readString?_renderString next
        (':' :: ' ' :: (renderAt .minimal level y
          ++ (renderMembers .minimal level ms ++ (newLine outer ++ '\x7d' :: t))))
      rw [hset, skipSpace_newLine]
      rw [hinner'] at hmembers ⊢
      rw [skipSpace_cons rfl, hmembers]

theorem succ :
  ReadsBack (n + 1)
  := ⟨h.value_succ, h.items_succ, h.members_succ⟩

end ReadsBack

theorem readsBack (n : Nat) :
  ReadsBack n
  := by
  induction n with
  | zero => exact .zero
  | succ n ih => exact ih.succ

/-- A plain value is read back from the text that it is written as. -/
theorem read?_renderAt {x : Json} (hx : IsPlain x) (level : Nat) :
  read? (renderAt .minimal level x) = some x
  := by
  have hread := (readsBack (2 * (renderAt .minimal level x).length + 2)).value hx level
    (by omega) []
  have hskip := skipSpace_renderAt x level []
  rw [List.append_nil] at hread hskip
  rw [read?, hskip, hread]
  rfl

end Json

end StylePrune
