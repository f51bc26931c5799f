import StylePrune.Proofs.Files.Discovery
import StylePrune.Usage.Evidence

/-!
# What a scan finds

A scan that is not stopped records a name with a file exactly if it is looked for and stands within
reach of a marker in the text of the file (`Usage.mem_records_of_scanFiles`).
-/

namespace StylePrune.Usage

variable {σ : Type} {names : List Text} {records new : List Record} {r : Record} {file : String}
    {t : Text}

theorem mem_addRecords_iff :
  r ∈ addRecords records new ↔ r ∈ records ∨ r ∈ new
  := by
  induction new generalizing records with
  | nil => simp [addRecords]
  | cons first new ih =>
      rw [addRecords, List.foldl_cons]
      change r ∈ addRecords _ new ↔ _
      rw [ih, List.mem_cons]
      split
      · next hthere =>
        constructor
        · rintro (h | h)
          · exact .inl h
          · exact .inr (.inr h)
        · rintro (h | rfl | h)
          · exact .inl h
          · exact .inl hthere
          · exact .inr h
      · rw [List.mem_append, List.mem_singleton, or_assoc]

/-- The records of a text are those of the names that are used in it. -/
theorem mem_recordsIn_iff :
  r ∈ recordsIn names file t ↔ r.name ∈ names ∧ isUsed r.name t = true ∧ r.file = file
  := by
  rw [recordsIn, List.mem_map]
  constructor
  · rintro ⟨name, hname, rfl⟩
    obtain ⟨hmem, hused⟩ := List.mem_filter.mp hname
    exact ⟨hmem, hused, rfl⟩
  · rintro ⟨hmem, hused, rfl⟩
    exact ⟨r.name, List.mem_filter.mpr ⟨hmem, hused⟩, rfl⟩

theorem mem_searched_iff {name : Text} :
  name ∈ searched names ↔ name ∈ names
  := by
  rw [searched, (Text.sorted_perm _).mem_iff, List.mem_eraseDups]

/-- What is found when a file was read that has a text, or was passed over. -/
def Findings.adding (found : Findings) (names : List Text) (p : Path) : Option Text → Findings
  | none => found
  | some t =>
    { records := addRecords found.records (recordsIn names p.toString t), scanned := found.scanned + 1 }

/-- A scan is that of a file and of the others. -/
theorem scanFiles_cons (stops : σ → Bool) (onFile : Nat → Path → Overseer σ Unit) (names : List Text)
    (done : Nat) (p : Path) (files : List Path) (found : Findings) :
  scanFiles stops onFile names done (p :: files) found
    = Overseen.checkpoint stops .usageScan >>= fun _ =>
      Overseen.job (Job.readSource p) >>= fun content =>
        Overseen.overseer (onFile (done + 1) p) >>= fun _ =>
          scanFiles stops onFile names (done + 1) files (found.adding names p content)
  := by
  rw [scanFiles]
  refine congrArg (_ >>= ·) (funext fun _ => congrArg (_ >>= ·) (funext fun content => ?_))
  cases content <;> rfl

/-- A scan that ends with an answer has recorded each use of a name in a file. -/
theorem mem_records_of_scanFiles {stops : σ → Bool} {onFile : Nat → Path → Overseer σ Unit}
    {done : Nat} {files : List Path} {found found' : Findings} {w w' : World} {s s' : σ}
    (h : scanFiles stops onFile names done files found (w, s) = .ok found' (w', s')) :
  w.Logs w'
    ∧ ∀ r, r ∈ found'.records ↔ r ∈ found.records
      ∨ ∃ p ∈ files, ∃ t, Job.content? p w = some t ∧ r ∈ recordsIn names p.toString t
  := by
  induction files generalizing done found w s with
  | nil =>
      obtain ⟨rfl, heq⟩ := EStateM.Result.ok.inj h
      obtain ⟨rfl, -⟩ := Prod.mk.inj heq
      exact ⟨.refl w, by simp⟩
  | cons p files ih =>
      rw [scanFiles_cons] at h
      obtain ⟨w₁, s₁, hlogs, hrest⟩ := Overseen.of_reading h
      obtain ⟨hlogs', hrecords⟩ := ih hrest
      refine ⟨hlogs.trans hlogs', ?_⟩
      intro r
      have hfirst : r ∈ (found.adding names p (Job.content? p w)).records ↔ r ∈ found.records
          ∨ ∃ t, Job.content? p w = some t ∧ r ∈ recordsIn names p.toString t := by
        cases Job.content? p w with
        | none => simp [Findings.adding]
        | some t => simp [Findings.adding, mem_addRecords_iff]
      simp only [hrecords, hfirst, Job.content?_of_logs _ hlogs, List.exists_mem_cons_iff, or_assoc]

end StylePrune.Usage
