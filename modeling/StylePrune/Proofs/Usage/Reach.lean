import Mathlib.Data.List.Basic
import StylePrune.Usage.Marker

/-!
# Names within reach of a marker

The search for a name goes through a text place by place and compares each occurrence with one
marker only, the nearest of those that end in front of it.  If the ends of the markers ascend, no
other marker could be within reach where the nearest one is not, so the search finds every
occurrence that has some marker in front of it within reach (`isUsed_iff`).
-/

namespace StylePrune.Usage

open Text

/-- Whether a place is within reach of one of the given ends, which is not behind it. -/
def InReach (ends : List Nat) (place : Nat) : Prop := ∃ e ∈ ends, e ≤ place ∧ place ≤ e + reach

/-- Whether a name stands somewhere in a text within reach of one of the given ends. -/
def StandsInReach (ends : List Nat) (name t : Text) : Prop :=
  ∃ front back, t = front ++ name ++ back ∧ InReach ends front.length

/-! ### The ends of markers -/

theorem le_of_mem_endsOf {place e : Nat} {ps : List Piece} (h : e ∈ endsOf place ps) :
  place ≤ e
  := by
  induction ps generalizing place with
  | nil => cases h
  | cons p ps ih =>
      cases p with
      | plain c => exact Nat.le_of_succ_le (ih h)
      | found t =>
          rw [endsOf] at h
          rcases List.mem_cons.mp h with rfl | h
          · exact Nat.le_add_right place t.length
          · exact Nat.le_trans (Nat.le_add_right place t.length) (ih h)

theorem pairwise_endsOf (place : Nat) (ps : List Piece) :
  (endsOf place ps).Pairwise (· ≤ ·)
  := by
  induction ps generalizing place with
  | nil => exact .nil
  | cons p ps ih =>
      cases p with
      | plain c => exact ih (place + 1)
      | found t => exact .cons (fun e => le_of_mem_endsOf) (ih (place + t.length))

/-- The class markers of a text end one after the other. -/
theorem pairwise_markerEnds (t : Text) :
  (markerEnds t).Pairwise (· ≤ ·)
  := pairwise_endsOf 0 (marker.pieces t)

/-! ### The nearest marker -/

/-- The ends that a search still knows of at some place: the nearest one, and those to come. -/
def known (marks : Option Nat × List Nat) : List Nat := marks.1.toList ++ marks.2

variable {place : Nat} {nearest : Option Nat} {ends : List Nat}

/-- Passing the ends that are not behind a place leaves ascending ends, of which the first one alone
is not behind the place. -/
theorem pass_ascending (hends : (known (nearest, ends)).Pairwise (· ≤ ·))
    (hnearest : ∀ e ∈ nearest, e ≤ place) :
  (known (pass place nearest ends)).Pairwise (· ≤ ·)
    ∧ (∀ e ∈ (pass place nearest ends).1, e ≤ place)
    ∧ ∀ e ∈ (pass place nearest ends).2, place < e
  := by
  induction ends generalizing nearest with
  | nil => exact ⟨hends, hnearest, List.forall_mem_nil _⟩
  | cons e ends ih =>
      rw [pass]
      split
      · next he =>
        apply ih
        · exact hends.sublist (List.sublist_append_right nearest.toList (e :: ends))
        · rintro d ⟨⟩
          exact he
      · next he =>
        refine ⟨hends, hnearest, ?_⟩
        obtain ⟨hfirst, -⟩ := List.pairwise_cons.mp (List.pairwise_append.mp hends).2.1
        intro d hd
        rcases List.mem_cons.mp hd with rfl | hd
        · exact Nat.lt_of_not_le he
        · exact Nat.lt_of_lt_of_le (Nat.lt_of_not_le he) (hfirst d hd)

/-- The ends that are passed at a place, but for the last of them, may be forgotten: what is in their
reach from there on is in the reach of the last one. -/
theorem inReach_pass (hends : (known (nearest, ends)).Pairwise (· ≤ ·)) {later : Nat}
    (hlater : place ≤ later) :
  InReach (known (nearest, ends)) later ↔ InReach (known (pass place nearest ends)) later
  := by
  induction ends generalizing nearest with
  | nil => exact Iff.rfl
  | cons e ends ih =>
      rw [pass]
      split
      · next he =>
        have htail : (known (some e, ends)).Pairwise (· ≤ ·) :=
          hends.sublist (List.sublist_append_right nearest.toList (e :: ends))
        have hforget : InReach (known (nearest, e :: ends)) later ↔ InReach (e :: ends) later := by
          constructor
          · rintro ⟨d, hd, hle, hreach⟩
            rcases List.mem_append.mp hd with hd | hd
            · have hde : d ≤ e := (List.pairwise_append.mp hends).2.2 d hd e List.mem_cons_self
              exact ⟨e, List.mem_cons_self, Nat.le_trans he hlater,
                Nat.le_trans hreach (Nat.add_le_add_right hde reach)⟩
            · exact ⟨d, hd, hle, hreach⟩
          · rintro ⟨d, hd, hdist⟩
            exact ⟨d, List.mem_append_right _ hd, hdist⟩
        exact hforget.trans (ih htail)
      · exact Iff.rfl

/-- A place is within reach of ends of which the nearest one alone is not behind it exactly if it is
within reach of that one. -/
theorem inReach_nearest_iff (hnearest : ∀ e ∈ nearest, e ≤ place) (hends : ∀ e ∈ ends, place < e) :
  InReach (known (nearest, ends)) place ↔ (nearest.any fun e => place ≤ e + reach) = true
  := by
  rw [Option.any_eq_true]
  constructor
  · rintro ⟨e, he, hle, hreach⟩
    rcases List.mem_append.mp he with he | he
    · exact ⟨e, Option.mem_toList.mp he, decide_eq_true hreach⟩
    · exact absurd hle (Nat.not_le_of_lt (hends e he))
  · rintro ⟨e, he, hreach⟩
    exact ⟨e, List.mem_append_left ends (Option.mem_toList.mpr he), hnearest e he,
      of_decide_eq_true hreach⟩

/-! ### The search -/

/-- A name stands in a text where the text starts or further behind. -/
theorem exists_front_cons {name t : Text} {c : Char} (P : Nat → Prop) :
  (∃ front back, c :: t = front ++ name ++ back ∧ P front.length)
    ↔ name <+: c :: t ∧ P 0 ∨ ∃ front back, t = front ++ name ++ back ∧ P (front.length + 1)
  := by
  constructor
  · rintro ⟨front, back, ht, hP⟩
    cases front with
    | nil => exact .inl ⟨⟨back, ht.symm⟩, hP⟩
    | cons d front =>
        obtain ⟨rfl, rfl⟩ := List.cons.inj ht
        exact .inr ⟨front, back, rfl, hP⟩
  · rintro (⟨⟨back, ht⟩, hP⟩ | ⟨front, back, rfl, hP⟩)
    · exact ⟨[], back, ht.symm, hP⟩
    · exact ⟨c :: front, back, rfl, hP⟩

/-- From a place on, the search finds a name exactly where it stands within reach of an end. -/
theorem isUsedFrom_iff (hends : (known (nearest, ends)).Pairwise (· ≤ ·))
    (hnearest : ∀ e ∈ nearest, e ≤ place) (name t : Text) :
  isUsedFrom name place nearest ends t = true
    ↔ ∃ front back, t = front ++ name ++ back
      ∧ InReach (known (nearest, ends)) (place + front.length)
  := by
  induction t generalizing place nearest ends with
  | nil =>
      obtain ⟨-, hpassed, hbehind⟩ := pass_ascending hends hnearest
      rw [isUsedFrom, Bool.and_eq_true, List.isPrefixOf_iff_prefix,
        ← inReach_nearest_iff hpassed hbehind, ← inReach_pass hends (Nat.le_refl place)]
      constructor
      · rintro ⟨⟨back, hname⟩, hreach⟩
        exact ⟨[], back, hname.symm, hreach⟩
      · rintro ⟨front, back, ht, hreach⟩
        obtain ⟨hfront, -⟩ := List.append_eq_nil_iff.mp ht.symm
        obtain ⟨rfl, rfl⟩ := List.append_eq_nil_iff.mp hfront
        exact ⟨List.nil_prefix, hreach⟩
  | cons c t ih =>
      obtain ⟨hascending, hpassed, hbehind⟩ := pass_ascending hends hnearest
      rw [isUsedFrom, Bool.or_eq_true, Bool.and_eq_true, List.isPrefixOf_iff_prefix,
        ← inReach_nearest_iff hpassed hbehind, ← inReach_pass hends (Nat.le_refl place),
        ih hascending fun e he => Nat.le_succ_of_le (hpassed e he),
        exists_front_cons fun n => InReach (known (nearest, ends)) (place + n)]
      apply or_congr_right
      apply exists_congr
      intro front
      have hplace : place + 1 + front.length = place + (front.length + 1) := by omega
      rw [hplace, inReach_pass hends (Nat.le_add_right place (front.length + 1))]

/-- If the ends ascend, a name is found exactly if it stands within reach of one of them. -/
theorem isUsedAfter_iff (hends : ends.Pairwise (· ≤ ·)) (name t : Text) :
  isUsedAfter ends name t = true ↔ StandsInReach ends name t
  := by
  have hnone : ∀ e ∈ (none : Option Nat), e ≤ 0 := by
    rintro e ⟨⟩
  have hknown : (known (none, ends)).Pairwise (· ≤ ·) := hends
  have hstart := isUsedFrom_iff hknown hnone name t
  simp only [known, Option.toList_none, List.nil_append, Nat.zero_add] at hstart
  exact hstart

/-- A name is found in a text exactly if it stands there within reach of one of the class markers, and
within reach of one of any given ends that ascend. -/
theorem isUsed_iff (name t : Text) :
  (isUsed name t = true ↔ StandsInReach (markerEnds t) name t)
    ∧ ∀ ends : List Nat, ends.Pairwise (· ≤ ·) →
      (isUsedAfter ends name t = true ↔ StandsInReach ends name t)
  := by
  constructor
  · exact isUsedAfter_iff (pairwise_markerEnds t) name t
  · intro ends hends
    exact isUsedAfter_iff hends name t

/-- Of two occurrences that overlap the first one is a place too far behind the marker; with other
ends it is as far as can be, and the second one stands where two of them are. -/
theorem isUsed_iff_overlapping :
  let t := "cn(".toList ++ List.replicate 201 ' ' ++ "ababa".toList;
  let ends := [0, 4, 206, 206];
  markerEnds t = [3] ∧ ¬ StandsInReach (markerEnds t) "aba".toList t
    ∧ ends.Pairwise (· ≤ ·) ∧ StandsInReach ends "aba".toList t ∧ StandsInReach ends [] t
  := by
  intro t ends
  have hends : ends.Pairwise (· ≤ ·) := by decide
  obtain ⟨hmarkers, hgiven⟩ := isUsed_iff "aba".toList t
  obtain ⟨-, hempty⟩ := isUsed_iff [] t
  have hunused : ¬ isUsed "aba".toList t = true := by decide +kernel
  refine ⟨by decide +kernel, mt hmarkers.mpr hunused, hends, ?_, ?_⟩
  · exact (hgiven ends hends).mp (by decide +kernel)
  · exact (hempty ends hends).mp (by decide +kernel)

end StylePrune.Usage
