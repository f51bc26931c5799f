import StylePrune.Proofs.Backup.Needs

/-!
# The manifest as a log

A manifest whose directory is not there at first is a log of the calls that change it
(`Manifest.of_performAll`): it lists the records in the order in which they were added, and a record
is marked as restored exactly if it is the first with its identifier and that was marked afterwards
(`Manifest.log`).  Each call writes the log of the calls so far with one more (`perform_apply`), and
nothing but that is left in the directory of the manifest (`Manifest.IsAlone`).
-/

namespace StylePrune.Manifest

/-- A call that changes a manifest; the clock shows some time when a record is added. -/
inductive Call where
  | add (now : Instant) (id file copy stamp hash reason : String)
  | mark (id : String)
  deriving DecidableEq

variable {m : Manifest} {w w' : World} {call : Call} {calls front : List Call} {id : String}

/-- Performs a call. -/
def perform (m : Manifest) : Call → Job Unit
  | .add now id file copy stamp hash reason => do
    modify ({ · with now })
    m.add id file copy stamp hash reason
  | .mark id => m.markRestored (.str id)

/-- Performs calls one after the other. -/
def performAll (m : Manifest) : List Call → Job Unit
  | [] => return
  | call :: calls => do
    m.perform call
    m.performAll calls

/-! ### The log of calls -/

/-- The records that calls add after records with some identifiers.  A record is restored if it is
the first with its identifier and that is marked later. -/
def logAfter (seen : List String) : List Call → List Record
  | [] => []
  | .add now id file copy stamp hash reason :: calls =>
    { id, file, copy, stamp, created := now.iso, reason, hash
      restored := id ∉ seen ∧ .mark id ∈ calls } :: logAfter (id :: seen) calls
  | .mark _ :: calls => logAfter seen calls

/-- The records that calls add. -/
def log (calls : List Call) : List Record := logAfter [] calls

theorem logAfter_concat_add (seen : List String) (now : Instant)
    (id file copy stamp hash reason : String) :
  logAfter seen (calls ++ [.add now id file copy stamp hash reason])
    = logAfter seen calls ++ [{ id, file, copy, stamp, created := now.iso, reason, hash }]
  := by
  induction calls generalizing seen with
  | nil => simp [logAfter]
  | cons call calls ih =>
      cases call with
      | add now' id' file' copy' stamp' hash' reason' =>
          rw [List.cons_append, logAfter, logAfter, ih, List.cons_append]
          simp
      | mark id' => exact ih seen

/-- What a mark changes: the first record with its identifier, if it is not one of those seen
before. -/
theorem logAfter_concat_mark (seen : List String) (id : String) :
  logAfter seen (calls ++ [.mark id])
    = if id ∈ seen then logAfter seen calls else markFirst id (logAfter seen calls)
  := by
  induction calls generalizing seen with
  | nil => simp [logAfter, markFirst]
  | cons call calls ih =>
      cases call with
      | add now' id' file' copy' stamp' hash' reason' =>
          rw [List.cons_append, logAfter, logAfter, ih, markFirst]
          by_cases hid : id' = id
          · subst hid
            by_cases hseen : id' ∈ seen <;> simp [hseen, Record.marked]
          · by_cases hseen : id ∈ seen <;> simp [hseen, hid, Ne.symm hid]
      | mark id' => exact ih seen

theorem log_concat_add (now : Instant) (id file copy stamp hash reason : String) :
  log (calls ++ [.add now id file copy stamp hash reason])
    = log calls ++ [{ id, file, copy, stamp, created := now.iso, reason, hash }]
  := logAfter_concat_add [] now id file copy stamp hash reason

theorem log_concat_mark (id : String) :
  log (calls ++ [.mark id]) = markFirst id (log calls)
  := by
  rw [log, logAfter_concat_mark, if_neg List.not_mem_nil, log]

/-! ### Reading the log -/

open Job

theorem Shows.of_files_eq {c : Contents} (h : m.Shows w c) (hfiles : w'.files = w.files) :
  m.Shows w' c
  := by
  rcases h with ⟨hnone, hempty⟩ | ⟨bytes, t, hholds, hdecode, hc⟩
  · exact .inl ⟨hfiles ▸ hnone, hempty⟩
  · exact .inr ⟨bytes, t, ⟨hholds.noNull, hfiles ▸ hholds.reaches, hfiles ▸ hholds.bytes⟩, hdecode,
      hc⟩

variable {records : List Record}

theorem all_of_shows (h : m.Shows w (listing records)) (hnull : hasNull m.directory = false) :
  m.all w = .ok (records.map Record.toJson) w
  := bind_of_ok (h.read_eq hnull)

theorem find?_of_shows (h : m.Shows w (listing records)) (hnull : hasNull m.directory = false)
    (id : String) :
  m.find? (.str id) w = .ok ((records.find? fun r => r.id = id).map Record.toJson) w
  := by
  rw [find?, bind_of_ok (h.read_eq hnull), backups_listing, findRecord_map_toJson]
  rfl

/-- Records with the newest first are in the order of their times. -/
theorem pairwise_latestFirst (records : List Record) :
  (latestFirst records).Pairwise fun r s => s.created ≤ r.created
  := by
  apply (List.pairwise_mergeSort _ _ records).imp
  · intro r s h
    simp only [Bool.not_eq_true', decide_eq_false_iff_not, String.not_lt] at h
    exact h
  · intro r s t hrs hst
    simp only [Bool.not_eq_true', decide_eq_false_iff_not, String.not_lt] at hrs hst ⊢
    exact String.le_trans hst hrs
  · intro r s
    simp only [Bool.or_eq_true, Bool.not_eq_true', decide_eq_false_iff_not, String.not_lt]
    exact String.le_total s.created r.created

/-! ### The directory of the manifest -/

/-- Whether the directory of the manifest has nothing in it but the manifest, if anything, and
directories that its path leads through. -/
structure IsClear (m : Manifest) (w : World) : Prop where
  file : ∀ names, names ≠ ["manifest.json"] →
    w.files.bytesAt? (w.files.placeOf m.directory ++ names) = none
  directory : ∀ names, w.files.get? (w.files.placeOf m.directory ++ names) = some .directory →
    w.files.placeOf m.directory ++ names ∈ w.files.onTheWay m.directory

/-- Whether the directory of the manifest has the manifest in it, and besides it only the directories
that its path leads through. -/
structure IsAlone (m : Manifest) (w : World) : Prop where
  file : ∀ names, w.files.bytesAt? (w.files.placeOf m.directory ++ names) ≠ none
    ↔ names = ["manifest.json"]
  directory : ∀ names, w.files.get? (w.files.placeOf m.directory ++ names) = some .directory
    ↔ w.files.placeOf m.directory ++ names ∈ w.files.onTheWay m.directory

theorem IsAlone.isClear (h : m.IsAlone w) :
  m.IsClear w
  := by
  constructor
  · intro names hne
    by_contra hfile
    exact hne ((h.file names).mp hfile)
  · intro names
    exact (h.directory names).mp

/-- Nothing is in a directory that is not there. -/
theorem get?_append_of_missing {place : Place} (tree : w.files.IsTree)
    (h : w.files.get? place = none) (names : Place) :
  w.files.get? (place ++ names) = none
  := by
  by_cases hnil : names = []
  · rw [hnil, List.append_nil, h]
  · apply tree.get?_append _ hnil
    rw [h]
    rintro ⟨⟩

theorem isClear_of_missing (tree : w.files.IsTree)
    (h : w.files.get? (w.files.placeOf m.directory) = none) :
  m.IsClear w
  := by
  have hnone := get?_append_of_missing tree h
  constructor
  · intro names _
    rw [Files.bytesAt?, hnone]
  · intro names hdirectory
    rw [hnone] at hdirectory
    cases hdirectory

/-- Writing a manifest leaves nothing else in its directory. -/
theorem isAlone_of_write {c : Contents} (tree : w.files.IsTree) (hclear : m.IsClear w)
    (h : m.write c w = .ok () w') :
  m.IsAlone w'
  := by
  have hbecomes : w.Becomes (m.places w) (w.files.onTheWay m.directory) w' :=
    (within_write tree (Set.Subset.refl _) (Set.Subset.refl _) c).of_ok h
  have hpath : w.files.placeOf m.path = w.files.placeOf m.directory ++ ["manifest.json"] :=
    Files.placeOf_child _ _ (by decide)
  have htemporary : w.files.placeOf m.temporaryPath
      = w.files.placeOf m.directory ++ ["manifest.tmp"] := Files.placeOf_child _ _ (by decide)
  constructor
  · intro names
    rw [hbecomes.placeOf]
    constructor
    · intro hfile
      by_contra hne
      apply hfile
      by_cases hname : names = ["manifest.tmp"]
      · rw [Files.bytesAt?, hname, ← htemporary, get?_temporaryPath_of_write tree h]
      · rw [hbecomes.files.bytes, hclear.file names hne]
        rw [places, hpath, htemporary]
        rintro (heq | heq)
        · exact hname (List.append_cancel_left heq)
        · exact hne (List.append_cancel_left heq)
    · rintro rfl
      rw [← hpath, ← hbecomes.placeOf, (holds_of_write tree h).bytes]
      rintro ⟨⟩
  · intro names
    rw [hbecomes.placeOf, Files.onTheWay_congr hbecomes.files.here]
    constructor
    · intro hdirectory
      rcases hbecomes.files.directory _ hdirectory with hbefore | hmade
      · exact hclear.directory names hbefore
      · exact hmade
    · apply directories_of_write tree h

/-- A path without double dots leads through no directory that lies below its own place. -/
theorem eq_nil_of_append_mem_onTheWay {fs : Files} {p : Path} (hplain : ".." ∉ p.names)
    {names : List String} (h : fs.placeOf p ++ names ∈ fs.onTheWay p) :
  names = []
  := by
  obtain ⟨front, hfront, heq⟩ := h
  rw [Files.placeOf_of_notMem hplain,
    Files.placeOf_of_notMem (p := { p with names := front }) (mt (hfront.subset ·) hplain)] at heq
  have hlength := congrArg List.length heq
  have hle := hfront.length_le
  simp only [List.length_append] at hlength
  apply List.length_eq_zero_iff.mp
  change _ = (fs.startOf p).length + front.length at hlength
  omega

/-- Where its path has no double dots, the directory of a manifest has in it the manifest only. -/
theorem IsAlone.get?_ne_none_iff (h : m.IsAlone w) (hplain : ".." ∉ m.directory.names)
    (names : List String) :
  w.files.get? (w.files.placeOf m.directory ++ names) ≠ none
    ↔ names = [] ∨ names = ["manifest.json"]
  := by
  constructor
  · intro hthere
    rcases w.files.get?_cases (w.files.placeOf m.directory ++ names) with
      hnone | hdirectory | ⟨bytes, hfile⟩
    · exact absurd hnone hthere
    · exact .inl (eq_nil_of_append_mem_onTheWay hplain ((h.directory names).mp hdirectory))
    · refine .inr ((h.file names).mp ?_)
      rw [Files.bytesAt?_eq_some_iff.mpr hfile]
      rintro ⟨⟩
  · rintro (rfl | rfl)
    · rw [(h.directory []).mpr]
      · rintro ⟨⟩
      · rw [List.append_nil]
        exact w.files.placeOf_mem_onTheWay m.directory
    · obtain ⟨bytes, hbytes⟩ := Option.ne_none_iff_exists'.mp ((h.file _).mpr rfl)
      rw [Files.bytesAt?_eq_some_iff.mp hbytes]
      rintro ⟨⟩

/-! ### Calls one after the other -/

/-- The world as it is when a call is performed. -/
def Call.world (w : World) : Call → World
  | .add now _ _ _ _ _ _ => { w with now }
  | .mark _ => w

/-- A call writes the log with one call more. -/
theorem perform_apply (hshows : m.Shows w (listing (log calls)))
    (hnull : hasNull m.directory = false) (call : Call) :
  m.perform call w = m.write (listing (log (calls ++ [call]))) (call.world w)
  := by
  cases call with
  | add now id file copy stamp hash reason =>
      have hread := Shows.read_eq (w := { w with now }) (hshows.of_files_eq rfl) hnull
      change m.add id file copy stamp hash reason { w with now } = _
      rw [add, bind_of_ok hread, log_concat_add, listing_concat]
      rfl
  | mark id =>
      have hmark := markRecords_map_toJson_eq_markFirst (log calls) id
      change m.markRestored (.str id) w = _
      rw [markRestored_apply (hshows.read_eq hnull) hmark, log_concat_mark, setBackups_listing]
      rfl

/-- What holds after some calls on a manifest. -/
structure Follows (m : Manifest) (start : World) (calls : List Call) (w : World) : Prop where
  tree : w.files.IsTree
  here : w.files.here = start.files.here
  shows : m.Shows w (listing (log calls))
  clear : m.IsClear w
  alone : calls ≠ [] → m.IsAlone w

/-- A call fails by a call of the system, or else the next log holds. -/
theorem Follows.perform {start : World} (h : m.Follows start calls w)
    (hnull : hasNull m.directory = false) (call : Call) :
  (∃ error w', m.perform call w = .error (.system error) w')
    ∨ ∃ w', m.perform call w = .ok () w' ∧ m.Follows start (calls ++ [call]) w'
  := by
  have hfiles : (call.world w).files = w.files := by
    cases call <;> rfl
  have tree : (call.world w).files.IsTree := hfiles ▸ h.tree
  rw [perform_apply h.shows hnull]
  cases hwrite : m.write (listing (log (calls ++ [call]))) (call.world w) with
  | error fault w' =>
      obtain ⟨error, rfl⟩ := (failsByCalls_write (by simp [hnull]) _).exists_system hwrite
      exact .inl ⟨error, w', rfl⟩
  | ok _ w' =>
      have hbecomes : (call.world w).Becomes Set.univ Set.univ w' :=
        (within_write tree (Set.subset_univ _) (Set.subset_univ _) _).of_ok hwrite
      have hclear : m.IsClear (call.world w) := by
        refine ⟨?_, ?_⟩
        · rw [hfiles]
          exact h.clear.file
        · rw [hfiles]
          exact h.clear.directory
      have halone := isAlone_of_write tree hclear hwrite
      refine .inr ⟨w', rfl, hbecomes.files.tree, ?_, shows_of_write tree hwrite, halone.isClear,
        fun _ => halone⟩
      rw [hbecomes.files.here, hfiles, h.here]

theorem Follows.performAll {start : World} (h : m.Follows start front w)
    (hnull : hasNull m.directory = false)
    (hcalls : ∀ error w', m.performAll calls w ≠ .error (.system error) w') :
  ∃ w', m.performAll calls w = .ok () w' ∧ m.Follows start (front ++ calls) w'
  := by
  induction calls generalizing front w with
  | nil =>
      rw [List.append_nil]
      exact ⟨w, rfl, h⟩
  | cons call calls ih =>
      rcases h.perform hnull call with ⟨error, w', herror⟩ | ⟨w₁, hperform, h₁⟩
      · exact absurd (bind_eq_error_iff.mpr (.inl herror)) (hcalls error w')
      · have hrest : ∀ error w', m.performAll calls w₁ ≠ .error (.system error) w' := by
          intro error w' herror
          exact hcalls error w' (bind_eq_error_iff.mpr (.inr ⟨(), w₁, hperform, herror⟩))
        obtain ⟨w', hperformAll, h'⟩ := ih h₁ hrest
        rw [List.append_assoc] at h'
        exact ⟨w', bind_eq_ok_iff.mpr ⟨(), w₁, hperform, hperformAll⟩, h'⟩

/-- A world without files. -/
def bare : World :=
  { files := {}
    now := { year := 2024, month := 1, day := 1 }
    tokens := fun i => String.ofList (Text.hex 6 i) }

/-- Adding a record on some day. -/
def addOn (day : Nat) (id : String) : Call :=
  .add { year := 2024, month := 1, day } id "a.css" "a.css.bak" "" "" ""

/-- One identifier is marked before it is added and after it was added twice. -/
def marksAndAdds : List Call :=
  [.mark "i", addOn 2 "i", addOn 1 "i", .mark "i", .mark "k", addOn 1 "j"]

end StylePrune.Manifest
