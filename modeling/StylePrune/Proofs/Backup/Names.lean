import StylePrune.Proofs.Backup.Copies
import StylePrune.Text.Hex

/-!
# Names of copies

What stands in the name of a copy between the name of the stylesheet and the suffix is a time, or a
time and a token, and has neither full stops nor slashes in it.  So copies of different stylesheets
have different places, and all tokens make names of one length.
-/

namespace StylePrune

/-! ### Times and tokens -/

/-- Whether a character is one that times and tokens are written with. -/
def isMarkChar (c : Char) : Bool := c.isDigit || c == '_' || ('a' ≤ c && c ≤ 'f')

/-- Whether a string is written like a time or a token. -/
def IsMarkText (s : String) : Prop := ∀ c ∈ s.toList, isMarkChar c

namespace IsMarkText

theorem append {s t : String} (hs : IsMarkText s) (ht : IsMarkText t) :
  IsMarkText (s ++ t)
  := by
  intro c hc
  rw [String.toList_append, List.mem_append] at hc
  exact hc.elim (hs c) (ht c)

theorem underscore :
  IsMarkText "_"
  := by
  intro c hc
  rw [show "_".toList = ['_'] from rfl, List.mem_singleton] at hc
  rw [hc]
  decide

theorem padded (width n : Nat) :
  IsMarkText (Instant.padded width n)
  := by
  intro c hc
  rw [Instant.padded, String.toList_ofList, List.mem_append] at hc
  rcases hc with hc | hc
  · rw [List.eq_of_mem_replicate hc]
    decide
  · rw [isMarkChar, Nat.isDigit_of_mem_toDigits (by decide) (by decide) hc]
    rfl

theorem stamp (i : Instant) :
  IsMarkText i.stamp
  := by
  rw [Instant.stamp]
  exact (((((padded 4 _).append (padded 2 _)).append (padded 2 _)).append underscore).append
    (padded 2 _)).append (padded 2 _) |>.append (padded 2 _)

/-- Characters that names of files have a use for are none of times and tokens. -/
theorem notMem {s : String} (h : IsMarkText s) {c : Char} (hc : isMarkChar c = false) :
  c ∉ s.toList
  := by
  intro hmem
  rw [h c hmem] at hc
  cases hc

end IsMarkText

/-- Whether a string is a token: six hexadecimal digits. -/
def IsToken (s : String) : Prop := ∃ n, s = String.ofList (Text.hex 6 n)

theorem isMarkChar_of_mem_hex {width n : Nat} {c : Char} (h : c ∈ Text.hex width n) :
  isMarkChar c
  := by
  have hdigit : ∀ n < 16, isMarkChar (Text.hexDigit n) := by decide
  induction width generalizing n with
  | zero => cases h
  | succ width ih =>
      rw [Text.hex, List.mem_append, List.mem_singleton] at h
      rcases h with h | rfl
      · exact ih h
      · exact hdigit (n % 16) (Nat.mod_lt n (by decide))

theorem IsToken.isMarkText {s : String} (h : IsToken s) :
  IsMarkText s
  := by
  obtain ⟨n, rfl⟩ := h
  intro c hc
  rw [String.toList_ofList] at hc
  exact isMarkChar_of_mem_hex hc

theorem utf8ByteSize_hex (width n : Nat) :
  (String.ofList (Text.hex width n)).utf8ByteSize = width
  := by
  have hdigit : ∀ n < 16, (Text.hexDigit n).utf8Size = 1 := by decide
  induction width generalizing n with
  | zero => rfl
  | succ width ih =>
      have hsingleton : String.ofList [Text.hexDigit (n % 16)]
          = String.singleton (Text.hexDigit (n % 16)) := rfl
      rw [Text.hex, String.ofList_append, String.utf8ByteSize_append, ih, hsingleton,
        String.utf8ByteSize_singleton, hdigit (n % 16) (Nat.mod_lt n (by decide))]

/-- All tokens have one length. -/
theorem IsToken.utf8ByteSize {s : String} (h : IsToken s) :
  s.utf8ByteSize = 6
  := by
  obtain ⟨n, rfl⟩ := h
  exact utf8ByteSize_hex 6 n

namespace BackupStore

variable {w : World} {file : Path} {mark : String}

theorem IsMark.isMarkText (h : IsMark w mark) (htokens : ∀ i, IsToken (w.tokens i)) :
  IsMarkText mark
  := by
  rcases h with rfl | ⟨i, rfl⟩
  · exact .stamp w.now
  · exact ((IsMarkText.stamp w.now).append .underscore).append (htokens i).isMarkText

/-! ### Names and places of copies -/

/-- What stands in front of the last full stop of a text. -/
theorem append_cons_inj {front front' tail tail' : Text} (h : '.' ∉ tail) (h' : '.' ∉ tail')
    (heq : front ++ '.' :: tail = front' ++ '.' :: tail') :
  front = front'
  := by
  have hreverse := congrArg List.reverse heq
  simp only [List.reverse_append, List.reverse_cons, List.append_assoc, List.singleton_append]
    at hreverse
  have hdrop : ∀ {front tail : Text}, '.' ∉ tail →
      (tail.reverse ++ '.' :: front.reverse).dropWhile (· != '.') = '.' :: front.reverse := by
    intro front tail htail
    rw [List.dropWhile_append_of_pos]
    · rfl
    · intro c hc
      rw [bne_iff_ne]
      rintro rfl
      exact htail (List.mem_reverse.mp hc)
  have hfront := congrArg (List.dropWhile (· != '.')) hreverse
  rw [hdrop h, hdrop h'] at hfront
  exact List.reverse_injective (List.cons.inj hfront).2

/-- The name of a copy tells the name of the stylesheet. -/
theorem copyName_inj {file' : Path} {mark' : String} (hmark : IsMarkText mark)
    (hmark' : IsMarkText mark') (h : copyName file mark = copyName file' mark') :
  file.name?.getD "" = file'.name?.getD ""
  := by
  have htoList : ∀ (file : Path) (mark : String), (copyName file mark).toList
      = ((file.name?.getD "").toList ++ '.' :: mark.toList) ++ ".bak".toList := by
    intro file mark
    simp [copyName]
  have heq := congrArg String.toList h
  rw [htoList, htoList] at heq
  have hfront := List.append_cancel_right heq
  exact String.toList_injective
    (append_cons_inj (hmark.notMem (by decide)) (hmark'.notMem (by decide)) hfront)

/-- Copies of stylesheets at different places have different places. -/
theorem placeOf_copyPath_ne {fs : Files} {file' : Path} {mark' : String} (hfile : file.IsStylesheet)
    (hfile' : file'.IsStylesheet) (hmark : IsMarkText mark) (hmark' : IsMarkText mark')
    (hne : fs.placeOf file ≠ fs.placeOf file') :
  fs.placeOf (copyPath file mark) ≠ fs.placeOf (copyPath file' mark')
  := by
  intro heq
  rw [copyPath, copyPath, Files.placeOf_child fs _ (copyName_ne file mark),
    Files.placeOf_child fs _ (copyName_ne file' mark')] at heq
  obtain ⟨hparent, hname⟩ := List.append_inj' heq rfl
  have hnames := copyName_inj hmark hmark' (List.singleton_inj.mp hname)
  obtain ⟨name, hlast, hpath, -, hdots⟩ := hfile.exists_name
  obtain ⟨name', hlast', hpath', -, hdots'⟩ := hfile'.exists_name
  rw [hlast, hlast', Option.getD_some, Option.getD_some] at hnames
  apply hne
  rw [hpath, hpath', Files.placeOf_child fs _ hdots, Files.placeOf_child fs _ hdots', hparent, hnames]

end BackupStore

end StylePrune
