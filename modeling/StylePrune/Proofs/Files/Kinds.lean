import StylePrune.Files.Discovery
import StylePrune.Proofs.Files.Walk

/-!
# Kinds of files

The suffix of its name tells a stylesheet from a copy of one, from a file that is written before it
takes the place of another one, and from the manifest.  The names that are made up for copies and
for such files begin with the name of the stylesheet and differ from it in the suffix.
-/

namespace StylePrune

namespace Path

/-! ### Suffixes -/

/-- What follows the last full stop of a text. -/
theorem reverse_takeWhile_append {front tail : Text} (h : '.' ∉ tail) :
  ((front ++ '.' :: tail).reverse.takeWhile (· != '.')).reverse = tail
  := by
  have hreverse : (front ++ '.' :: tail).reverse = tail.reverse ++ '.' :: front.reverse := by
    simp
  rw [hreverse, List.takeWhile_append_of_pos]
  · simp
  · intro c hc
    rw [bne_iff_ne]
    rintro rfl
    exact h (List.mem_reverse.mp hc)

theorem suffixOf_append {front tail : Text} (hfront : front ≠ []) (htail : tail ≠ [])
    (h : '.' ∉ tail) :
  suffixOf (String.ofList (front ++ '.' :: tail)) = String.ofList ('.' :: tail)
  := by
  rw [suffixOf, String.toList_ofList, reverse_takeWhile_append h, if_pos]
  refine ⟨?_, htail⟩
  have := List.length_pos_of_ne_nil hfront
  simp
  omega

/-- A name that ends with a full stop and other characters, and begins with something else. -/
theorem suffixOf_concat {front tail : String} (hfront : front ≠ "") (htail : tail ≠ "")
    (h : '.' ∉ tail.toList) :
  suffixOf (front ++ "." ++ tail) = "." ++ tail
  := by
  have happend := @suffixOf_append front.toList tail.toList
    (mt (fun h => String.toList_injective h) hfront)
    (mt (fun h => String.toList_injective h) htail) h
  have hname : String.ofList (front.toList ++ '.' :: tail.toList) = front ++ "." ++ tail := by
    apply String.toList_injective
    simp
  have hsuffix : String.ofList ('.' :: tail.toList) = "." ++ tail := by
    apply String.toList_injective
    simp
  rw [← hname, happend, hsuffix]

/-- Whether a path has the suffix of a stylesheet. -/
def IsStylesheet (p : Path) : Prop :=
  Files.stylesheetSuffixes.contains (Text.lowerString p.suffix)

instance (p : Path) : Decidable p.IsStylesheet := inferInstanceAs (Decidable (_ = true))

theorem IsStylesheet.suffix_ne {p : Path} (h : p.IsStylesheet) {s : String}
    (hs : Files.stylesheetSuffixes.contains (Text.lowerString s) = false) :
  p.suffix ≠ s
  := by
  intro heq
  rw [IsStylesheet, heq, hs] at h
  cases h

/-- A stylesheet has a last name, which is no double dot. -/
theorem IsStylesheet.exists_name {p : Path} (h : p.IsStylesheet) :
  ∃ name, p.name? = some name ∧ p = p.parent.child name ∧ name ≠ "" ∧ name ≠ ".."
  := by
  cases hname : p.name? with
  | none =>
      exact absurd (by rw [suffix, hname]; rfl) (h.suffix_ne (s := "") (by decide))
  | some name =>
      refine ⟨name, rfl, ?_, ?_, ?_⟩
      · obtain ⟨front, hfront⟩ := List.getLast?_eq_some_iff.mp hname
        rw [child, parent, hfront, List.dropLast_concat, ← hfront]
      · rintro rfl
        exact absurd (by rw [suffix, hname]; rfl) (h.suffix_ne (s := "") (by decide))
      · rintro rfl
        exact absurd (by rw [suffix, hname]; decide) (h.suffix_ne (s := "") (by decide))

theorem IsStylesheet.names_ne {p : Path} (h : p.IsStylesheet) :
  p.names ≠ []
  := by
  obtain ⟨name, hname, -⟩ := h.exists_name
  intro hnil
  rw [name?, hnil] at hname
  cases hname

end Path

namespace Files

/-! ### Places of names -/

theorem placeOf_child (fs : Files) (p : Path) {name : String} (h : name ≠ "..") :
  fs.placeOf (p.child name) = fs.placeOf p ++ [name]
  := by
  rw [placeOf, Path.resolveFrom, Path.child, List.foldl_append, List.foldl_cons, List.foldl_nil,
    Path.step, if_neg h]
  rfl

/-- The suffix of the last name of a place. -/
def suffixAt (p : Place) : String := Path.suffixOf (p.getLast?.getD "")

/-- Whether a place has the suffix of a stylesheet. -/
def IsStylesheetAt (p : Place) : Prop := stylesheetSuffixes.contains (Text.lowerString (suffixAt p))

instance (p : Place) : Decidable (IsStylesheetAt p) := inferInstanceAs (Decidable (_ = true))

theorem suffixAt_concat (p : Place) (name : String) :
  suffixAt (p ++ [name]) = Path.suffixOf name
  := by
  rw [suffixAt, List.getLast?_concat, Option.getD_some]

/-- The path of a stylesheet leads to the place of one. -/
theorem isStylesheetAt_placeOf (fs : Files) {p : Path} (h : p.IsStylesheet) :
  IsStylesheetAt (fs.placeOf p)
  := by
  obtain ⟨name, hname, hp, -, hdots⟩ := h.exists_name
  rw [IsStylesheetAt, hp, placeOf_child fs _ hdots, suffixAt_concat]
  rw [Path.IsStylesheet, Path.suffix, hname] at h
  exact h

/-- The suffixes of copies and of the files that are written before they take the place of another
one. -/
def copySuffix : String := ".bak"

@[inherit_doc copySuffix]
def temporarySuffix : String := ".tmp"

theorem IsStylesheetAt.suffixAt_ne {p : Place} (h : IsStylesheetAt p) {s : String}
    (hs : stylesheetSuffixes.contains (Text.lowerString s) = false) :
  suffixAt p ≠ s
  := by
  intro heq
  rw [IsStylesheetAt, heq, hs] at h
  cases h

/-- A place with the suffix of copies, of drafts or of the manifest is none of a stylesheet. -/
theorem not_isStylesheetAt_of_suffixAt {p : Place} {s : String} (h : suffixAt p = s)
    (hs : stylesheetSuffixes.contains (Text.lowerString s) = false) :
  ¬ IsStylesheetAt p
  := fun hstylesheet => hstylesheet.suffixAt_ne hs h

/-- The places that are none of a stylesheet. -/
def otherPlaces : Set Place := { place | ¬ IsStylesheetAt place }

end Files

end StylePrune
