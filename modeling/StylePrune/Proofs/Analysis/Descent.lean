import Mathlib.Logic.Relation
import StylePrune.Proofs.Analysis.Partition

/-!
# Elements and modifiers of unused classes

A name that stands within reach of a class marker stands there with all its beginnings.  The name of an
element or a modifier begins with that of the class it is nested in, so no class that is to be removed
has an element or a modifier, at any depth, that is used (`Analysis.spares_descendants_run`).
-/

namespace StylePrune

/-! ### Beginnings of used names -/

namespace Usage

theorem isUsedFrom_of_isPrefix {name longer t : Text} {place : Nat} {nearest : Option Nat}
    {ends : List Nat} (hbegins : name <+: longer)
    (h : isUsedFrom longer place nearest ends t = true) :
  isUsedFrom name place nearest ends t = true
  := by
  have hhere : ∀ {t : Text}, longer.isPrefixOf t = true → name.isPrefixOf t = true := by
    intro t ht
    rw [List.isPrefixOf_iff_prefix] at ht ⊢
    exact hbegins.trans ht
  induction t generalizing place nearest ends with
  | nil =>
      rw [isUsedFrom, Bool.and_eq_true] at h ⊢
      exact ⟨hhere h.1, h.2⟩
  | cons c t ih =>
      rw [isUsedFrom, Bool.or_eq_true, Bool.and_eq_true] at h ⊢
      exact h.imp (fun h => ⟨hhere h.1, h.2⟩) ih

/-- A text that uses a name uses all its beginnings. -/
theorem isUsed_of_isPrefix {name longer t : Text} (hbegins : name <+: longer)
    (h : isUsed longer t = true) :
  isUsed name t = true
  := isUsedFrom_of_isPrefix hbegins h

end Usage

theorem World.Uses.of_isPrefix {w : World} {root : Place} {name longer : Text} (h : w.Uses root longer)
    (hbegins : name <+: longer) :
  w.Uses root name
  := by
  obtain ⟨names, t, hsource, hused⟩ := h
  exact ⟨names, t, hsource, Usage.isUsed_of_isPrefix hbegins hused⟩

/-! ### Elements and modifiers -/

namespace Stylesheet

open Text

/-- Whether one of the statements that a scanner reads, being in the rule of a class, defines an element
or a modifier of it. -/
inductive Scanner.Nests : Scanner → List Text → Text → Text → Prop
  | here {s : Scanner} {line : Text} {rest : List Text} {r : Reading} {parent name : Text}
      {context : Context} (hparent : s.parent = some parent) (hread : s.read line rest = some r)
      (hname : (name, context) ∈ r.definitions) (hcontext : context ≠ .direct) :
    Scanner.Nests s (line :: rest) parent name
  | later {s : Scanner} {line : Text} {rest : List Text} {parent name : Text}
      (h : Scanner.Nests (s.advance (s.read line rest)) rest parent name) :
    Scanner.Nests s (line :: rest) parent name

/-- Whether a stylesheet defines an element or a modifier of a class in the rule of the class. -/
def Nests (t parent name : Text) : Prop := ({} : Scanner).Nests (statementsOf (strip t)) parent name

variable {s : Scanner} {statements : List Text} {parent name t : Text} {context : Context}

/-- The name of an element or a modifier begins with that of the class it is nested in. -/
theorem Scanner.Nests.isPrefix (h : s.Nests statements parent name) :
  parent <+: name
  := by
  induction h with
  | here hparent hread hname hcontext =>
      obtain ⟨member, -, hmember⟩ := of_mem_read hread hname
      rcases of_mem_ofText hmember with ⟨hdirect, -⟩ | ⟨-, -, first, suffix, hfirst, hbegins⟩
      · exact absurd hdirect hcontext
      · obtain rfl := Option.some.inj (hparent.symm.trans hfirst)
        dsimp only at hbegins
        rw [hbegins, List.append_assoc]
        exact List.prefix_append _ _
  | later h ih => exact ih

/-- What a scanner finds that is an element or a modifier is nested in some class. -/
theorem Scanner.exists_nests_of_mem_finds (h : (name, context) ∈ s.finds statements)
    (hcontext : context ≠ .direct) :
  ∃ parent, s.Nests statements parent name
  := by
  induction statements generalizing s with
  | nil => cases h
  | cons line rest ih =>
      cases hread : s.read line rest with
      | none =>
          rw [Scanner.finds_cons_of_blank (Scanner.read_eq_none_iff.mp hread)] at h
          obtain ⟨parent, hparent⟩ := ih h
          refine ⟨parent, .later ?_⟩
          rw [hread]
          exact hparent
      | some r =>
          rw [Scanner.finds_cons_of_some hread] at h
          rcases List.mem_append.mp h with h | h
          · obtain ⟨member, -, hmember⟩ := of_mem_read hread h
            rcases of_mem_ofText hmember with ⟨hdirect, -⟩ | ⟨-, -, parent, suffix, hparent, -⟩
            · exact absurd hdirect hcontext
            · exact ⟨parent, .here hparent hread h hcontext⟩
          · obtain ⟨parent, hparent⟩ := ih h
            refine ⟨parent, .later ?_⟩
            rw [hread]
            exact hparent

/-- A definition that is that of an element or a modifier is nested in some class. -/
theorem exists_nests_of_mem_definitionsOf {file : String} {place : Path} {d : ClassDefinition}
    (h : d ∈ definitionsOf t file place) (hcontext : d.context ≠ .direct) :
  ∃ parent, Nests t parent d.name
  := Scanner.exists_nests_of_mem_finds (mem_definedIn_of_mem_definitionsOf h) hcontext

end Stylesheet

/-- Whether some stylesheet below a root defines an element or a modifier of a class in its rule. -/
def World.Nests (w : World) (root : Place) (parent name : Text) : Prop :=
  ∃ names t, w.HasSource root Files.stylesheetSuffixes names t ∧ Stylesheet.Nests t parent name

namespace World

variable {w : World} {root : Place} {parent name : Text}

theorem Nests.isPrefix (h : w.Nests root parent name) :
  parent <+: name
  := by
  obtain ⟨names, t, -, hnests⟩ := h
  exact Stylesheet.Scanner.Nests.isPrefix hnests

theorem isPrefix_of_descends (h : Relation.TransGen (w.Nests root) parent name) :
  parent <+: name
  := by
  induction h with
  | single h => exact h.isPrefix
  | tail _ h ih => exact ih.trans h.isPrefix

end World

/-! ### A whole run -/

namespace Analysis

variable {σ : Type} {stops : σ → Bool} {report : Progress → Overseer σ Unit}
    {request : AnalysisRequest} {a : Analysis} {w : World} {s : σ}

theorem IsOf.not_isPrefix {styles components : Place} (h : IsOf w request styles components a)
    {name longer : Text} (hname : name ∈ a.reconciliation.unused)
    (hlonger : longer ∈ a.reconciliation.used) :
  ¬ name <+: longer
  := by
  intro hbegins
  exact (h.mem_unused_iff.mp hname).2 ((h.mem_used_iff.mp hlonger).2.of_isPrefix hbegins)

/-- No unused name begins a used one, and no planned class has an element or a modifier, at any depth,
that is used. -/
theorem spares_descendants_run (tree : w.files.IsTree) (named : w.files.IsNamed) {ws : World × σ}
    (h : run stops report request (w, s) = .ok a ws) :
  let root := w.files.placeOf request.styles;
  (∀ name ∈ a.reconciliation.unused, ∀ longer ∈ a.reconciliation.used, ¬ name <+: longer)
    ∧ (∀ d, w.Defines root d → d.context ≠ .direct → ∃ parent, w.Nests root parent d.name)
    ∧ (∀ parent name, w.Nests root parent name → parent <+: name)
    ∧ ∀ entry ∈ a.plan, ∀ d ∈ entry.2, ∀ name, Relation.TransGen (w.Nests root) d.name name →
      name ∉ a.reconciliation.used
  := by
  obtain ⟨hroot, -, hof⟩ := of_run tree named h
  refine ⟨fun name hname longer hlonger => hof.not_isPrefix hname hlonger, ?_,
    fun parent name => World.Nests.isPrefix, ?_⟩
  · rintro d ⟨names, t, hsource, hd⟩ hcontext
    obtain ⟨parent, hparent⟩ := Stylesheet.exists_nests_of_mem_definitionsOf hd hcontext
    exact ⟨parent, names, t, hsource, hparent⟩
  · intro entry hentry d hd name hdescends hused
    have hunused := ((hof.mem_entry_iff named hroot hentry).mp hd).1.2.2
    exact hof.not_isPrefix hunused hused (World.isPrefix_of_descends hdescends)

/-- In the project an element is used, so that its class is not unused. -/
theorem spares_descendants_run_project :
  project.files.IsTree ∧ project.files.IsNamed
    ∧ ∃ a, answer? (projectRequest .medium) project = some a
      ∧ "used__part".toList ∈ a.reconciliation.used
      ∧ "used".toList ∉ a.reconciliation.unused
      ∧ ∀ entry ∈ a.plan, ∀ d ∈ entry.2, ∀ name,
        Relation.TransGen (project.Nests ["s"]) d.name name → name ∉ a.reconciliation.used
  := by
  obtain ⟨a, ha⟩ := exists_answer?_project .medium
  obtain ⟨ws, hrun⟩ := answer?_eq_some_iff.mp ha
  obtain ⟨hroot, -, hof⟩ := of_run isTree_project isNamed_project hrun
  obtain ⟨hbegins, -, -, hspared⟩ := spares_descendants_run isTree_project isNamed_project hrun
  have hcandidate : "used__part".toList ∈ a.tally.candidates := by
    refine (hof.mem_candidates_iff hroot).mpr
      ⟨⟨⟨"used__part".toList, .medium, .element, "/s/a.scss"⟩, ?_, rfl, rfl⟩, ?_⟩
    · exact ⟨["a.scss"], firstSheet, hasSource_project, by decide +kernel⟩
    · decide +kernel
  have huses : project.Uses ["c"] "used__part".toList := by
    refine ⟨["x.js"], component, ⟨⟨?_, ?_⟩, ?_⟩, ?_⟩
    all_goals decide +kernel
  have hused : "used__part".toList ∈ a.reconciliation.used := hof.mem_used_iff.mpr ⟨hcandidate, huses⟩
  refine ⟨isTree_project, isNamed_project, a, ha, hused, ?_, hspared⟩
  intro hunused
  exact hbegins _ hunused _ hused (by decide)

end Analysis

end StylePrune
