import StylePrune.Proofs.Files.Discovery
import StylePrune.Proofs.Prune.Writing
import StylePrune.Proofs.Stylesheet.LineEnds

/-!
# Reading a stylesheet to analyse it and to remove from it

An analysis reads a stylesheet with its line ends made one, and a removal reads it with its line
ends as they are.  Where no string goes on over the end of a line, and no carriage return stands
alone but at the ends of statements, both find the same definitions (`definitionsOf_readSource`).
-/

namespace StylePrune.Prune.Plan

open Text Stylesheet Job

/-- An analysis finds in a stylesheet the definitions that are in the text that a removal reads, if
no string of a stylesheet with carriage returns goes on over the end of a line, and those carriage
returns that stand alone stand in no noise, and at the ends of statements only.  What it passes over
as blank defines nothing. -/
theorem definitionsOf_readSource {w : World} {p : Path} {bytes : List UInt8} {t : Text}
    (hholds : w.Holds p bytes) (htext : Utf8.decode bytes = .ok t)
    (hstrings : '\r' ∈ t → '\n' ∉ stringsIn (withoutAddresses (lineFed t)))
    (hnoise : (strip (lineFed t)).count '\r' = (lineFed t).count '\r')
    (hends : ∀ s ∈ statementsOf (strip (lineFed t)), '\r' ∉ trim s) (file : String)
    (place : Path) :
  ∃ source w', readSource p w = .ok source w' ∧ (∀ u ∈ source, u = unifyLineEnds t)
    ∧ readStylesheet p w = .ok (.ok t) w
    ∧ (source.elim [] fun u => definitionsOf u file place) = definitionsOf t file place
  := by
  have hread : readText p w = .ok t w := readText_eq_ok_iff.mpr ⟨bytes, hholds, htext, rfl⟩
  have hsame := definedIn_unifyLineEnds hstrings hnoise hends
  have hsource := readSource_apply p w
  rw [hread] at hsource
  dsimp only at hsource
  split at hsource
  · next hblank =>
    refine ⟨_, _, hsource, by rintro u ⟨⟩, readStylesheet_of_readText hread, ?_⟩
    rw [definedIn_of_blank hblank] at hsame
    rw [definitionsOf, ← hsame]
    rfl
  · refine ⟨_, _, hsource, ?_, readStylesheet_of_readText hread, ?_⟩
    · rintro u ⟨⟩
      rfl
    · rw [Option.elim_some, definitionsOf, definitionsOf, hsame]

/-- A world with one stylesheet. -/
def holdingText (t : Text) : World :=
  { files := ({} : Files).put ["a.css"] (.file (Utf8.encode t))
    now := { year := 2024, month := 1, day := 1 }
    tokens := fun i => String.ofList (Text.hex 6 i) }

/-- A stylesheet with line ends of all three kinds, a comment over several lines, and a string that
holds a quotation mark. -/
theorem definitionsOf_readSource_mixed :
  let t := (".a \x7b\r\n  b: \"c\\\"d\"; /* e\r\n f */ \x7d\r.g,\n.h \x7b &__i \x7b \x7d\r\n"
    ++ "\r\x7d\n// .j \x7b \x7d\r\n").toList;
  let p := Path.ofString "a.css";
  (holdingText t).Holds p (Utf8.encode t)
    ∧ ∃ source w', readSource p (holdingText t) = .ok (some source) w' ∧ source ≠ t
      ∧ readStylesheet p (holdingText t) = .ok (.ok t) (holdingText t)
      ∧ definitionsOf source "a.css" p = definitionsOf t "a.css" p
      ∧ (definitionsOf t "a.css" p).map ClassDefinition.name
        = ["a", "g", "h", "h__i"].map String.toList
  := by
  intro t p
  have hreach : (holdingText t).files.locate p = .ok ["a.css"] := by decide +kernel
  have hholds : (holdingText t).Holds p (Utf8.encode t) :=
    ⟨by decide +kernel, (Files.locate_eq_ok_iff.mp hreach).1, by decide +kernel⟩
  have hdecided : '\n' ∉ stringsIn (withoutAddresses (lineFed t))
      ∧ (strip (lineFed t)).count '\r' = (lineFed t).count '\r'
      ∧ ∀ s ∈ statementsOf (strip (lineFed t)), '\r' ∉ trim s := by
    decide +kernel
  obtain ⟨hstrings, hnoise, hends⟩ := hdecided
  obtain ⟨source, w', hsource, hunified, hraw, hsame⟩ := definitionsOf_readSource hholds
    (Utf8.decode_encode t) (fun _ => hstrings) hnoise hends "a.css" p
  have hnames : (definitionsOf t "a.css" p).map ClassDefinition.name
      = ["a", "g", "h", "h__i"].map String.toList := by decide +kernel
  cases source with
  | none =>
      rw [← hsame] at hnames
      cases hnames
  | some source =>
      rw [Option.elim_some] at hsame
      have hne : unifyLineEnds t ≠ t := by decide +kernel
      rw [← hunified source rfl] at hne
      exact ⟨hholds, source, w', hsource, hne, hraw, hsame, hnames⟩

/-- A name that is found in one of the two texts only: in a string that goes on behind a backslash
at the end of a line, behind a line comment, and behind a word.  Each time the two other conditions
are met. -/
theorem definitionsOf_unifyLineEnds_ne :
  (let t := "\"a\\\r\n.b \x7b \x7d \"".toList;
    (strip (lineFed t)).count '\r' = (lineFed t).count '\r'
      ∧ (∀ s ∈ statementsOf (strip (lineFed t)), '\r' ∉ trim s)
      ∧ (definitionsOf (unifyLineEnds t) "a.css" (Path.ofString "a.css")).map ClassDefinition.name
        ≠ (definitionsOf t "a.css" (Path.ofString "a.css")).map ClassDefinition.name)
    ∧ (let t := "// x\r.a \x7b \x7d\n".toList;
      ('\r' ∈ t → '\n' ∉ stringsIn (withoutAddresses (lineFed t)))
        ∧ (∀ s ∈ statementsOf (strip (lineFed t)), '\r' ∉ trim s)
        ∧ (definitionsOf (unifyLineEnds t) "a.css" (Path.ofString "a.css")).map ClassDefinition.name
          ≠ (definitionsOf t "a.css" (Path.ofString "a.css")).map ClassDefinition.name)
    ∧ (let t := "x\r.a \x7b \x7d\n".toList;
      ('\r' ∈ t → '\n' ∉ stringsIn (withoutAddresses (lineFed t)))
        ∧ (strip (lineFed t)).count '\r' = (lineFed t).count '\r'
        ∧ (definitionsOf (unifyLineEnds t) "a.css" (Path.ofString "a.css")).map ClassDefinition.name
          ≠ (definitionsOf t "a.css" (Path.ofString "a.css")).map ClassDefinition.name)
  := by
  refine ⟨?_, ?_, ?_⟩
  all_goals decide +kernel

end StylePrune.Prune.Plan
