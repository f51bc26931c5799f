import Mathlib.Data.List.Basic
import Mathlib.Data.List.TakeWhile
import StylePrune.Json.Printer
import StylePrune.Json.Reader

/-!
# Numerals

What a number is written as, a word apart, is a numeral: digits with points, signs and letters among
them, a digit first (`isNumeral_toString`, `isNumeral_write`).  Where a numeral stands in front of
something else, the reader takes it for a number and reads to its end, or it stops within it
(`readValue?_numeral`).
-/

namespace StylePrune.Json

/-- Whether a character stands in numerals. -/
def isNumeralChar (c : Char) : Bool :=
  c.isDigit || c == '.' || c == 'e' || c == 'E' || c == '+' || c == '-'

theorem isNumeralChar_of_isDigit {c : Char} (h : c.isDigit) :
  isNumeralChar c
  := by
  simp [isNumeralChar, h]

/-- Whether a text is a numeral without a sign. -/
structure IsUnsigned (u : Text) : Prop where
  head : ∃ d v, u = d :: v ∧ Char.isDigit d
  chars : ∀ c ∈ u, isNumeralChar c

/-- Whether a text is a numeral. -/
def IsNumeral (u : Text) : Prop := IsUnsigned u ∨ ∃ v, u = '-' :: v ∧ IsUnsigned v

/-- Whether a text begins with a character of numerals. -/
def BeginsInNumeral (t : Text) : Prop := ∃ c rest, t = c :: rest ∧ isNumeralChar c

variable {t u v ds rest : Text} {x : Json}

theorem IsNumeral.chars (h : IsNumeral u) :
  ∀ c ∈ u, isNumeralChar c
  := by
  rcases h with h | ⟨v, rfl, h⟩
  · exact h.chars
  · exact List.forall_mem_cons.mpr ⟨rfl, h.chars⟩

/-- No blank and no mark between values stands in numerals. -/
theorem not_isNumeralChar {c : Char} (h : isSpace c ∨ c ∈ [',', ']', '\x7d']) :
  isNumeralChar c = false
  := by
  simp only [isSpace, Bool.or_eq_true, beq_iff_eq, List.mem_cons, List.not_mem_nil, or_false] at h
  rcases h with (((rfl | rfl) | rfl) | rfl) | rfl | rfl | rfl <;> rfl

theorem IsNumeral.beginsInNumeral (h : IsNumeral u) :
  BeginsInNumeral u
  := by
  rcases h with ⟨⟨d, v, rfl, hd⟩, -⟩ | ⟨v, rfl, -⟩
  · exact ⟨d, v, rfl, isNumeralChar_of_isDigit hd⟩
  · exact ⟨'-', v, rfl, rfl⟩

/-- What begins in a numeral begins with no blank and with no mark between values. -/
theorem BeginsInNumeral.exists_cons (h : BeginsInNumeral t) :
  ∃ c rest, t = c :: rest ∧ isSpace c = false ∧ c ∉ [',', ']', '\x7d']
  := by
  obtain ⟨c, rest, rfl, hc⟩ := h
  have hnot : ¬ (isSpace c ∨ c ∈ [',', ']', '\x7d']) := by
    intro hmark
    rw [not_isNumeralChar hmark] at hc
    cases hc
  obtain ⟨hspace, hmark⟩ := not_or.mp hnot
  exact ⟨c, rest, rfl, Bool.eq_false_iff.mpr hspace, hmark⟩

namespace IsUnsigned

theorem append (h : IsUnsigned u) (hv : ∀ c ∈ v, isNumeralChar c) :
  IsUnsigned (u ++ v)
  := by
  obtain ⟨⟨d, u, rfl, hd⟩, hchars⟩ := h
  refine ⟨⟨d, u ++ v, rfl, hd⟩, ?_⟩
  intro c hc
  exact (List.mem_append.mp hc).elim (hchars c) (hv c)

theorem of_digits (hne : ds ≠ []) (hds : ∀ c ∈ ds, Char.isDigit c) :
  IsUnsigned ds
  := by
  obtain ⟨d, v, rfl⟩ := List.exists_cons_of_ne_nil hne
  exact ⟨⟨d, v, rfl, hds d List.mem_cons_self⟩, fun c hc => isNumeralChar_of_isDigit (hds c hc)⟩

end IsUnsigned

/-! ### What numbers are written as -/

theorem isDigit_of_mem_toDigits (n : Nat) :
  ∀ c ∈ Nat.toDigits 10 n, Char.isDigit c
  := fun _ hc => Nat.isDigit_of_mem_toDigits (by decide) (by decide) hc

theorem toDigits_ne_nil (n : Nat) :
  Nat.toDigits 10 n ≠ []
  := List.ne_nil_of_length_pos Nat.length_toDigits_pos

theorem isUnsigned_toDigits (n : Nat) :
  IsUnsigned (Nat.toDigits 10 n)
  := .of_digits (toDigits_ne_nil n) (isDigit_of_mem_toDigits n)

/-- A whole number is written as a numeral. -/
theorem isNumeral_toString (n : Int) :
  IsNumeral (toString n).toList
  := by
  cases n with
  | ofNat n =>
      change IsNumeral (String.ofList (Nat.toDigits 10 n)).toList
      rw [String.toList_ofList]
      exact .inl (isUnsigned_toDigits n)
  | negSucc n =>
      change IsNumeral ("-" ++ String.ofList (Nat.toDigits 10 (n + 1))).toList
      have hdigits : (String.ofList (Nat.toDigits 10 (n + 1))).toList = Nat.toDigits 10 (n + 1) :=
        String.toList_ofList
      rw [String.toList_append, hdigits]
      exact .inr ⟨_, rfl, isUnsigned_toDigits (n + 1)⟩

theorem isNumeralChar_of_mem_replicate {n : Nat} :
  ∀ c ∈ List.replicate n '0', isNumeralChar c
  := by
  intro c hc
  rw [List.eq_of_mem_replicate hc]
  rfl

theorem isUnsigned_plain (hne : ds ≠ []) (hds : ∀ c ∈ ds, Char.isDigit c) (point : Int) :
  IsUnsigned (Decimal.Layout.plain ds point)
  := by
  have hdigits : ∀ c ∈ ds, isNumeralChar c := fun c hc => isNumeralChar_of_isDigit (hds c hc)
  rw [Decimal.Layout.plain]
  split
  · apply IsUnsigned.append _ hdigits
    refine ⟨⟨'0', _, rfl, rfl⟩, ?_⟩
    exact List.forall_mem_cons.mpr ⟨rfl, List.forall_mem_cons.mpr
      ⟨rfl, isNumeralChar_of_mem_replicate⟩⟩
  · split
    · exact ((IsUnsigned.of_digits hne hds).append isNumeralChar_of_mem_replicate).append
        (List.all_eq_true.mp rfl)
    · have hpositive : 0 < (ds.take point.toNat).length := by
        have := List.length_pos_of_ne_nil hne
        rw [List.length_take]
        omega
      apply IsUnsigned.append (.of_digits (List.ne_nil_of_length_pos hpositive)
        fun c hc => hds c (List.mem_of_mem_take hc))
      exact List.forall_mem_cons.mpr ⟨rfl, fun c hc => hdigits c (List.mem_of_mem_drop hc)⟩

theorem isUnsigned_scientific (l : Decimal.Layout) (hne : ds ≠ []) (hds : ∀ c ∈ ds, Char.isDigit c)
    (point : Int) :
  IsUnsigned (l.scientific ds point)
  := by
  rw [Decimal.Layout.scientific.eq_def]
  apply IsUnsigned.append _ (isUnsigned_toDigits _).chars
  apply IsUnsigned.append
  · obtain ⟨d, v, rfl⟩ := List.exists_cons_of_ne_nil hne
    obtain ⟨hd, hv⟩ := List.forall_mem_cons.mp hds
    cases v with
    | nil => exact .of_digits hne hds
    | cons d' v =>
        refine ⟨⟨d, _, rfl, hd⟩, List.forall_mem_cons.mpr ⟨isNumeralChar_of_isDigit hd, ?_⟩⟩
        exact List.forall_mem_cons.mpr ⟨rfl, fun c hc => isNumeralChar_of_isDigit (hv c hc)⟩
  · refine List.forall_mem_cons.mpr ⟨rfl, List.forall_mem_cons.mpr
      ⟨?_, isNumeralChar_of_mem_replicate⟩⟩
    split <;> rfl

theorem isUnsigned_write (l : Decimal.Layout) (n : Nat) (place : Int) :
  IsUnsigned (l.write n place)
  := by
  rw [Decimal.Layout.write]
  split
  · exact isUnsigned_plain (toDigits_ne_nil n) (isDigit_of_mem_toDigits n) _
  · exact isUnsigned_scientific l (toDigits_ne_nil n) (isDigit_of_mem_toDigits n) _

/-- A number with a fraction or an exponent is written as a numeral, or as a word. -/
theorem write_cases (r : Binary64) :
  IsNumeral (r.write numberWords).toList
    ∨ r.write numberWords ∈ ["NaN", "Infinity", "-Infinity"]
  := by
  have hsigned : ∀ (negative : Bool) {s : String}, IsUnsigned s.toList →
      IsNumeral (if negative then "-" ++ s else s).toList := by
    intro negative s hs
    cases negative with
    | true =>
        rw [if_pos rfl, String.toList_append]
        exact .inr ⟨_, rfl, hs⟩
    | false => exact .inl hs
  rw [Binary64.write]
  split
  · exact .inr (by simp [numberWords])
  · next negative _ =>
    right
    cases negative <;> decide
  · next negative m e _ =>
    left
    split
    · exact hsigned negative ⟨⟨'0', _, rfl, rfl⟩, List.all_eq_true.mp rfl⟩
    · apply hsigned negative
      rw [String.toList_ofList]
      exact isUnsigned_write _ _ _

/-! ### Reading a numeral -/

/-- What is in front of the rest that is left. -/
def Passes (t rest : Text) : Prop := ∃ front, t = front ++ rest ∧ ∀ c ∈ front, isNumeralChar c

theorem Passes.refl (t : Text) :
  Passes t t
  := ⟨[], rfl, by simp⟩

theorem Passes.trans {rest' : Text} (h : Passes t rest) (h' : Passes rest rest') :
  Passes t rest'
  := by
  obtain ⟨front, rfl, hfront⟩ := h
  obtain ⟨front', rfl, hfront'⟩ := h'
  refine ⟨front ++ front', (List.append_assoc ..).symm, ?_⟩
  intro c hc
  exact (List.mem_append.mp hc).elim (hfront c) (hfront' c)

theorem Passes.cons {c : Char} (hc : isNumeralChar c) (h : Passes t rest) :
  Passes (c :: t) rest
  := by
  obtain ⟨front, rfl, hfront⟩ := h
  exact ⟨c :: front, rfl, List.forall_mem_cons.mpr ⟨hc, hfront⟩⟩

theorem passes_dropWhile_isDigit (t : Text) :
  Passes t (t.dropWhile Char.isDigit)
  := ⟨t.takeWhile Char.isDigit, List.takeWhile_append_dropWhile.symm, fun _ hc =>
    isNumeralChar_of_isDigit (List.mem_takeWhile_imp hc)⟩

theorem passes_readWhole? {ds : Text} (h : readWhole? t = some (ds, rest)) :
  Passes t rest
  := by
  rw [readWhole?.eq_def] at h
  split at h
  · obtain ⟨-, rfl⟩ := Prod.mk.inj (Option.some.inj h)
    exact (Passes.refl _).cons rfl
  · next c t _ =>
    split at h
    · next hc =>
      obtain ⟨-, rfl⟩ := Prod.mk.inj (Option.some.inj h)
      exact (passes_dropWhile_isDigit t).cons (isNumeralChar_of_isDigit hc)
    · cases h
  · cases h

theorem passes_readFraction {ds : Text} (h : readFraction t = some (ds, rest)) :
  Passes t rest
  := by
  rw [readFraction.eq_def] at h
  split at h
  · next t =>
    dsimp only at h
    split at h
    · cases h
    · obtain ⟨-, rfl⟩ := Prod.mk.inj (Option.some.inj h)
      exact (passes_dropWhile_isDigit t).cons rfl
  · cases h

theorem passes_readExponent {n : Int} (h : readExponent t = some (n, rest)) :
  Passes t rest
  := by
  rw [readExponent.eq_def] at h
  split at h
  · next c t =>
    split at h
    · next hc =>
      have hletter : isNumeralChar c := by
        rcases hc with rfl | rfl <;> rfl
      apply Passes.cons hletter
      have hdigits : ∀ {t : Text} {sign : Int → Int}, (if t.takeWhile Char.isDigit = [] then none
          else some (sign (ofDigits (t.takeWhile Char.isDigit)), t.dropWhile Char.isDigit))
            = some (n, rest) → Passes t rest := by
        intro t sign h
        split at h
        · cases h
        · obtain ⟨-, rfl⟩ := Prod.mk.inj (Option.some.inj h)
          exact passes_dropWhile_isDigit t
      dsimp only at h
      split at h
      · exact (@hdigits _ (fun n => -n) h).cons rfl
      · exact (@hdigits _ id h).cons rfl
      · exact @hdigits _ id h
    · cases h
  · cases h

/-- Whether a value is a number. -/
def IsNumber (x : Json) : Prop := (∃ n, x = int n) ∨ ∃ r, x = real r

theorem passes_of_isSome {α : Type} {read : Text → Option (α × Text)}
    (hread : ∀ {a rest}, read t = some (a, rest) → Passes t rest) :
  Passes t (((read t).map (·.2)).getD t)
  := by
  cases h : read t with
  | none => exact .refl t
  | some answer => exact hread h

/-- What is read as a number is one, and what was in front of it stands in numerals. -/
theorem of_readNumber? (h : readNumber? t = some (x, rest)) :
  IsNumber x ∧ Passes t rest
  := by
  rw [readNumber?.eq_def] at h
  split at h
  next negative t₁ hsigned =>
  have hsign : Passes t t₁ := by
    split at hsigned
    · obtain ⟨-, rfl⟩ := Prod.mk.inj hsigned
      exact (Passes.refl _).cons rfl
    · obtain ⟨-, rfl⟩ := Prod.mk.inj hsigned
      exact .refl _
  obtain ⟨⟨whole, t₂⟩, hwhole, h⟩ := Option.bind_eq_some_iff.mp h
  have hfraction : Passes t₂ (((readFraction t₂).map (·.2)).getD t₂) :=
    passes_of_isSome passes_readFraction
  have hexponent := @passes_of_isSome (((readFraction t₂).map (·.2)).getD t₂) _ readExponent
    passes_readExponent
  have hall := ((hsign.trans (passes_readWhole? hwhole)).trans hfraction).trans hexponent
  dsimp only at h
  split at h
  · obtain ⟨rfl, rfl⟩ := Prod.mk.inj (Option.some.inj h)
    exact ⟨.inl ⟨_, rfl⟩, hall⟩
  · obtain ⟨rfl, rfl⟩ := Prod.mk.inj (Option.some.inj h)
    exact ⟨.inr ⟨_, rfl⟩, hall⟩

/-- Where numerals end, what is passed in numerals ends there or goes on in one. -/
theorem Passes.eq_or_beginsInNumeral (h : Passes (u ++ t) rest)
    (ht : ¬ BeginsInNumeral t) (hu : ∀ c ∈ u, isNumeralChar c) :
  rest = t ∨ BeginsInNumeral rest
  := by
  obtain ⟨front, heq, hfront⟩ := h
  rcases List.append_eq_append_iff.mp heq with ⟨v, rfl, rfl⟩ | ⟨v, rfl, rfl⟩
  · cases v with
    | nil => exact .inl rfl
    | cons c v => exact absurd ⟨c, _, rfl, hfront c (by simp)⟩ ht
  · cases v with
    | nil => exact .inl rfl
    | cons c v => exact .inr ⟨c, _, rfl, hu c (by simp)⟩

/-- No word begins with a digit, or with one behind its first character. -/
theorem readWord?_of_isNumeral (hu : IsNumeral u) (t : Text) :
  readWord? (u ++ t) = none
  := by
  have hwords : ∀ p ∈ wordValues, 2 ≤ p.1.length ∧ ∀ c ∈ p.1.take 2, Char.isDigit c = false := by
    simp [wordValues]
  rw [readWord?, Option.map_eq_none_iff, List.find?_eq_none]
  rintro ⟨word, y⟩ hword hbegins
  obtain ⟨hlength, hdigits⟩ := hwords _ hword
  obtain ⟨c, c', w, rfl⟩ : ∃ c c' w, word = c :: c' :: w := by
    match word, hlength with
    | c :: c' :: w, _ => exact ⟨c, c', w, rfl⟩
  obtain ⟨tail, htail⟩ := List.isPrefixOf_iff_prefix.mp hbegins
  rcases hu with ⟨⟨d, v, rfl, hd⟩, -⟩ | ⟨_, rfl, ⟨d, v, rfl, hd⟩, -⟩
  · obtain ⟨rfl, -⟩ := List.cons.inj htail
    rw [hdigits c (by simp)] at hd
    cases hd
  · obtain ⟨-, htail⟩ := List.cons.inj htail
    obtain ⟨rfl, -⟩ := List.cons.inj htail
    rw [hdigits c' (by simp)] at hd
    cases hd

/-- A numeral with something else behind it is read to its end, or the reader stops within it. -/
theorem readValue?_numeral {n : Nat} (hu : IsNumeral u) (ht : ¬ BeginsInNumeral t)
    (h : readValue? n (u ++ t) = some (x, rest)) :
  IsNumber x ∧ (rest = t ∨ BeginsInNumeral rest)
  := by
  cases n with
  | zero => cases h
  | succ n =>
      have hnumber : readNumber? (u ++ t) = some (x, rest) := by
        have hfirst : ∀ c v, u ++ t = c :: v → isNumeralChar c := by
          intro c v heq
          rcases hu with ⟨⟨d, w, rfl, hd⟩, -⟩ | ⟨w, rfl, -⟩
          · rw [← (List.cons.inj heq).1]
            exact isNumeralChar_of_isDigit hd
          · rw [← (List.cons.inj heq).1]
            rfl
        rw [readValue?.eq_def] at h
        dsimp only at h
        split at h
        · next heq => exact absurd (hfirst _ _ heq) (by decide)
        · next heq => exact absurd (hfirst _ _ heq) (by decide)
        · next heq => exact absurd (hfirst _ _ heq) (by decide)
        · rw [readWord?_of_isNumeral hu] at h
          exact h
      obtain ⟨hx, hpasses⟩ := of_readNumber? hnumber
      exact ⟨hx, hpasses.eq_or_beginsInNumeral ht hu.chars⟩

end StylePrune.Json
