import StylePrune.Text.Utf8

/-!
# Reading UTF-8 back

The octets that a text is written as are read back as the text.  The proof follows a character
through its octets: the first one announces the others, and each of those brings six bits.
-/

namespace StylePrune.Text.Utf8

/-! ### One octet -/

theorem toNat_ofNat_of_lt {n : Nat} (h : n < 256) :
  (UInt8.ofNat n).toNat = n
  := by
  rw [UInt8.toNat_ofNat', Nat.mod_eq_of_lt h]

theorem decodeFrom_first {b : UInt8} {place : Nat} {p : Begun} (hb : 0x80 ≤ b.toNat)
    (hp : Begun.ofFirst? b place = some p) (bytes : List UInt8) :
  decodeFrom place none (b :: bytes) = decodeFrom (place + 1) (some p) bytes
  := by
  rw [decodeFrom, if_neg, hp]
  rw [UInt8.lt_iff_toNat_lt, Nat.not_lt]
  exact hb

theorem toNat_tail (n : Nat) :
  (UInt8.ofNat (n % 64 + 128)).toNat = n % 64 + 128
  := toNat_ofNat_of_lt (by omega)

/-- An octet in the range that is allowed brings six bits, and one octet less is owed. -/
theorem decodeFrom_tail {first low high : UInt8} {start bits owed n place : Nat}
    (hlow : low.toNat ≤ n % 64 + 128) (hhigh : n % 64 + 128 ≤ high.toNat) (bytes : List UInt8) :
  decodeFrom place (some ⟨first, start, bits, owed + 2, low, high⟩)
      (UInt8.ofNat (n % 64 + 128) :: bytes)
    = decodeFrom (place + 1) (some ⟨first, start, bits * 64 + n % 64, owed + 1, 0x80, 0xBF⟩) bytes
  := by
  have hbits : (n % 64 + 128) % 64 = n % 64 := by omega
  rw [decodeFrom, if_neg]
  · dsimp only
    rw [if_neg (by omega), toNat_tail, hbits]
    rfl
  · rw [UInt8.lt_iff_toNat_lt, UInt8.lt_iff_toNat_lt, toNat_tail]
    dsimp only
    omega

/-- The last octet of a character brings its last six bits. -/
theorem decodeFrom_last {first low high : UInt8} {start bits n place : Nat}
    (hlow : low.toNat ≤ n % 64 + 128) (hhigh : n % 64 + 128 ≤ high.toNat) (bytes : List UInt8) :
  decodeFrom place (some ⟨first, start, bits, 1, low, high⟩) (UInt8.ofNat (n % 64 + 128) :: bytes)
    = (decodeFrom (place + 1) none bytes).map (Char.ofNat (bits * 64 + n % 64) :: ·)
  := by
  have hbits : (n % 64 + 128) % 64 = n % 64 := by omega
  rw [decodeFrom, if_neg]
  · dsimp only
    rw [if_pos rfl, toNat_tail, hbits]
  · rw [UInt8.lt_iff_toNat_lt, UInt8.lt_iff_toNat_lt, toNat_tail]
    dsimp only
    omega

theorem tail_in_range (n : Nat) :
  (0x80 : UInt8).toNat ≤ n % 64 + 128 ∧ n % 64 + 128 ≤ (0xBF : UInt8).toNat
  := by
  change 128 ≤ _ ∧ _ ≤ 191
  omega

/-! ### The first octet -/

/-- What the first octet announces, by its value. -/
theorem ofFirst?_eq (b : UInt8) (start : Nat) :
  Begun.ofFirst? b start
    = if b.toNat < 0xC2 then none
      else if b.toNat < 0xE0 then some ⟨b, start, b.toNat % 32, 1, 0x80, 0xBF⟩
      else if b.toNat = 0xE0 then some ⟨b, start, b.toNat % 16, 2, 0xA0, 0xBF⟩
      else if b.toNat = 0xED then some ⟨b, start, b.toNat % 16, 2, 0x80, 0x9F⟩
      else if b.toNat < 0xF0 then some ⟨b, start, b.toNat % 16, 2, 0x80, 0xBF⟩
      else if b.toNat = 0xF0 then some ⟨b, start, b.toNat % 8, 3, 0x90, 0xBF⟩
      else if b.toNat < 0xF4 then some ⟨b, start, b.toNat % 8, 3, 0x80, 0xBF⟩
      else if b.toNat = 0xF4 then some ⟨b, start, b.toNat % 8, 3, 0x80, 0x8F⟩
      else none
  := by
  simp only [Begun.ofFirst?, UInt8.lt_iff_toNat_lt, ← UInt8.toNat_inj]
  rfl

/-- The first of two octets. -/
theorem ofFirst?_two {v : Nat} (hlow : 0x80 ≤ v) (hhigh : v < 0x800) (start : Nat) :
  Begun.ofFirst? (UInt8.ofNat (v / 64 % 32 + 192)) start
    = some ⟨UInt8.ofNat (v / 64 % 32 + 192), start, v / 64, 1, 0x80, 0xBF⟩
  := by
  have hnat : (UInt8.ofNat (v / 64 % 32 + 192)).toNat = v / 64 % 32 + 192 :=
    toNat_ofNat_of_lt (by omega)
  rw [ofFirst?_eq, hnat, if_neg (by omega), if_pos (by omega)]
  congr 2
  omega

/-- The first of three octets; the second one is in the range that it announces unless the number
belongs to half of a pair. -/
theorem ofFirst?_three {v : Nat} (hlow : 0x800 ≤ v) (hhigh : v < 0x10000)
    (hpair : v < 0xD800 ∨ 0xDFFF < v) (start : Nat) :
  ∃ low high, Begun.ofFirst? (UInt8.ofNat (v / 4096 % 16 + 224)) start
      = some ⟨UInt8.ofNat (v / 4096 % 16 + 224), start, v / 4096, 2, low, high⟩
    ∧ low.toNat ≤ v / 64 % 64 + 128 ∧ v / 64 % 64 + 128 ≤ high.toNat
  := by
  have hnat : (UInt8.ofNat (v / 4096 % 16 + 224)).toNat = v / 4096 % 16 + 224 :=
    toNat_ofNat_of_lt (by omega)
  have hbits : (v / 4096 % 16 + 224) % 16 = v / 4096 := by omega
  rw [ofFirst?_eq, hnat, if_neg (by omega), if_neg (by omega), hbits]
  by_cases hfirst : v / 4096 % 16 + 224 = 0xE0
  · refine ⟨0xA0, 0xBF, ?_, ?_, ?_⟩
    · rw [if_pos hfirst]
    · change 160 ≤ _
      omega
    · change _ ≤ 191
      omega
  · rw [if_neg hfirst]
    by_cases hpairs : v / 4096 % 16 + 224 = 0xED
    · refine ⟨0x80, 0x9F, ?_, ?_, ?_⟩
      · rw [if_pos hpairs]
      · change 128 ≤ _
        omega
      · change _ ≤ 159
        omega
    · refine ⟨0x80, 0xBF, ?_, ?_, ?_⟩
      · rw [if_neg hpairs, if_pos (by omega)]
      · change 128 ≤ _
        omega
      · change _ ≤ 191
        omega

/-- The first of four octets; the second one is in the range that it announces. -/
theorem ofFirst?_four {v : Nat} (hlow : 0x10000 ≤ v) (hhigh : v < 0x110000) (start : Nat) :
  ∃ low high, Begun.ofFirst? (UInt8.ofNat (v / 262144 % 8 + 240)) start
      = some ⟨UInt8.ofNat (v / 262144 % 8 + 240), start, v / 262144, 3, low, high⟩
    ∧ low.toNat ≤ v / 4096 % 64 + 128 ∧ v / 4096 % 64 + 128 ≤ high.toNat
  := by
  have hnat : (UInt8.ofNat (v / 262144 % 8 + 240)).toNat = v / 262144 % 8 + 240 :=
    toNat_ofNat_of_lt (by omega)
  have hbits : (v / 262144 % 8 + 240) % 8 = v / 262144 := by omega
  rw [ofFirst?_eq, hnat, if_neg (by omega), if_neg (by omega), if_neg (by omega),
    if_neg (by omega), if_neg (by omega), hbits]
  by_cases hfirst : v / 262144 % 8 + 240 = 0xF0
  · refine ⟨0x90, 0xBF, ?_, ?_, ?_⟩
    · rw [if_pos hfirst]
    · change 144 ≤ _
      omega
    · change _ ≤ 191
      omega
  · rw [if_neg hfirst]
    by_cases hmiddle : v / 262144 % 8 + 240 < 0xF4
    · refine ⟨0x80, 0xBF, ?_, ?_, ?_⟩
      · rw [if_pos hmiddle]
      · change 128 ≤ _
        omega
      · change _ ≤ 191
        omega
    · refine ⟨0x80, 0x8F, ?_, ?_, ?_⟩
      · rw [if_neg hmiddle, if_pos (by omega)]
      · change 128 ≤ _
        omega
      · change _ ≤ 143
        omega

/-! ### A character and a text -/

theorem valid_toNat (c : Char) :
  c.toNat < 0xD800 ∨ 0xDFFF < c.toNat ∧ c.toNat < 0x110000
  := c.valid

/-- The octets of a character are read back as the character. -/
theorem decodeFrom_utf8EncodeChar (c : Char) (place : Nat) (bytes : List UInt8) :
  ∃ next, decodeFrom place none (String.utf8EncodeChar c ++ bytes)
    = (decodeFrom next none bytes).map (c :: ·)
  := by
  have hvalid := valid_toNat c
  have hchar := Char.ofNat_toNat c
  have hencode : String.utf8EncodeChar c
      = if c.toNat ≤ 127 then [UInt8.ofNat c.toNat]
        else if c.toNat ≤ 2047 then
          [UInt8.ofNat (c.toNat / 64 % 32 + 192), UInt8.ofNat (c.toNat % 64 + 128)]
        else if c.toNat ≤ 65535 then
          [UInt8.ofNat (c.toNat / 4096 % 16 + 224), UInt8.ofNat (c.toNat / 64 % 64 + 128),
            UInt8.ofNat (c.toNat % 64 + 128)]
        else
          [UInt8.ofNat (c.toNat / 262144 % 8 + 240), UInt8.ofNat (c.toNat / 4096 % 64 + 128),
            UInt8.ofNat (c.toNat / 64 % 64 + 128), UInt8.ofNat (c.toNat % 64 + 128)] := rfl
  rw [hencode]
  generalize c.toNat = v at hvalid hchar ⊢
  subst hchar
  by_cases hone : v ≤ 127
  · refine ⟨place + 1, ?_⟩
    have hnat : (UInt8.ofNat v).toNat = v := toNat_ofNat_of_lt (by omega)
    rw [if_pos hone, List.singleton_append, decodeFrom, if_pos, hnat]
    rw [UInt8.lt_iff_toNat_lt, hnat]
    exact Nat.lt_succ_of_le hone
  · rw [if_neg hone]
    obtain ⟨hleast, hgreatest⟩ := tail_in_range v
    by_cases htwo : v ≤ 2047
    · refine ⟨place + 1 + 1, ?_⟩
      have hfirst := ofFirst?_two (v := v) (by omega) (by omega) place
      have hbits : v / 64 * 64 + v % 64 = v := by omega
      rw [if_pos htwo, List.cons_append, decodeFrom_first _ hfirst, List.singleton_append,
        decodeFrom_last hleast hgreatest, hbits]
      rw [toNat_ofNat_of_lt (by omega)]
      omega
    · rw [if_neg htwo]
      by_cases hthree : v ≤ 65535
      · refine ⟨place + 1 + 1 + 1, ?_⟩
        obtain ⟨low, high, hfirst, hlow, hhigh⟩ :=
          ofFirst?_three (v := v) (by omega) (by omega) (by omega) place
        have hbits : (v / 4096 * 64 + v / 64 % 64) * 64 + v % 64 = v := by omega
        rw [if_pos hthree, List.cons_append, decodeFrom_first _ hfirst, List.cons_append,
          decodeFrom_tail hlow hhigh, List.singleton_append, decodeFrom_last hleast hgreatest,
          hbits]
        rw [toNat_ofNat_of_lt (by omega)]
        omega
      · refine ⟨place + 1 + 1 + 1 + 1, ?_⟩
        obtain ⟨low, high, hfirst, hlow, hhigh⟩ :=
          ofFirst?_four (v := v) (by omega) (by omega) place
        obtain ⟨hleast', hgreatest'⟩ := tail_in_range (v / 64)
        have hbits : ((v / 262144 * 64 + v / 4096 % 64) * 64 + v / 64 % 64) * 64 + v % 64 = v := by
          omega
        rw [if_neg hthree, List.cons_append, decodeFrom_first _ hfirst, List.cons_append,
          decodeFrom_tail hlow hhigh, List.cons_append, decodeFrom_tail hleast' hgreatest',
          List.singleton_append, decodeFrom_last hleast hgreatest, hbits]
        rw [toNat_ofNat_of_lt (by omega)]
        omega

theorem decodeFrom_encode (t : Text) (place : Nat) :
  decodeFrom place none (encode t) = .ok t
  := by
  induction t generalizing place with
  | nil => rfl
  | cons c t ih =>
      obtain ⟨next, hnext⟩ := decodeFrom_utf8EncodeChar c place (encode t)
      rw [encode, List.flatMap_cons]
      exact hnext.trans (by rw [ih]; rfl)

/-- What a text is written as is read back as the text. -/
theorem decode_encode (t : Text) :
  decode (encode t) = .ok t
  := decodeFrom_encode t 0

end StylePrune.Text.Utf8
