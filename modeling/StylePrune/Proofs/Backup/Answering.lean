import StylePrune.Proofs.Backup.Checking
import StylePrune.Proofs.Backup.Listed
import StylePrune.Proofs.Backup.Needs

/-!
# Faults that are explained

Taking a copy and putting it back end with an answer or with a fault of the backup
(`BackupStore.Explained`), which is one that pruning reports.  It is so where the names that copies get
are not too long, the file of the manifest is a text, each record in it has an identifier, and no
directory stands where the copy is put back first.
-/

namespace StylePrune

open Job

/-! ### The manifest -/

namespace Manifest

variable {m : Manifest} {w w' : World} {c : Contents} {records : List Json} {touched made : Set Place}

/-- Whether the file of the manifest is a text, if it is there. -/
def IsText (m : Manifest) (w : World) : Prop :=
  ∀ bytes, w.files.bytesAt? (w.files.placeOf m.path) = some bytes →
    ∃ t, Text.Utf8.decode bytes = .ok t

theorem IsText.isReadable (h : m.IsText w) :
  m.IsReadable w
  := fun bytes hholds => h bytes hholds.bytes

theorem isText_of_becomes (hw : w.Becomes touched made w') (hm : w.files.placeOf m.path ∉ touched) :
  m.IsText w' ↔ m.IsText w
  := by
  rw [IsText, IsText, hw.placeOf, hw.files.bytes _ hm]

theorem isText_of_write (tree : w.files.IsTree) (c : Contents) (h : m.IsText w) :
  m.IsText (left (m.write c w))
  := by
  cases hwrite : m.write c w with
  | ok a w' =>
      intro bytes hbytes
      rw [left, (holds_of_write tree hwrite).bytes] at hbytes
      obtain rfl := Option.some.inj hbytes
      exact ⟨c.toText, Text.Utf8.decode_encode _⟩
  | error fault w' =>
      apply (isText_of_becomes (becomes_of_write_eq_error tree hwrite) _).mpr h
      exact placeOf_path_ne_temporaryPath w.files m

theorem isText_of_add (tree : w.files.IsTree) (id file copy stamp hash reason : String)
    (h : m.IsText w) :
  m.IsText (left (m.add id file copy stamp hash reason w))
  := by
  rcases left_add_cases m id file copy stamp hash reason w with hleft | ⟨c, -, hleft⟩
  · rw [hleft]
    exact h
  · rw [hleft]
    exact isText_of_write tree _ h

theorem isText_of_markRestored (tree : w.files.IsTree) (id : Json) (h : m.IsText w) :
  m.IsText (left (m.markRestored id w))
  := by
  rcases left_markRestored_cases m id w with hleft | ⟨c, marked, -, -, hleft⟩
  · rw [hleft]
    exact h
  · rw [hleft]
    exact isText_of_write tree _ h

/-- Whether a record has an identifier. -/
def HasId (record : Json) : Prop := ∃ value, need record "id" = .ok value

theorem isSeen_hasId :
  IsSeen HasId
  where
  outline {record record'} houtline h := by
    obtain ⟨value, hneed⟩ := h
    obtain ⟨value', hneed', -⟩ := need_of_outline_eq houtline hneed
    exact ⟨value', hneed'⟩
  mark {record} h := by
    rw [HasId, need_markRecord record (by decide)]
    exact h

theorem hasId_newRecord (id file copy stamp created reason hash : String) :
  HasId (newRecord id file copy stamp created reason hash)
  := ⟨.str id, rfl⟩

theorem exists_markRecords (h : ∀ record ∈ records, HasId record) (id : Json) :
  ∃ marked, markRecords id records = .ok marked
  := by
  induction records with
  | nil => exact ⟨[], rfl⟩
  | cons record rest ih =>
      obtain ⟨⟨value, hneed⟩, hrest⟩ := List.forall_mem_cons.mp h
      obtain ⟨marked, hmarked⟩ := ih hrest
      rw [markRecords, hneed]
      change ∃ marked, (if value.agrees id then _ else _) = _
      split
      · exact ⟨_, rfl⟩
      · rw [hmarked]
        exact ⟨_, rfl⟩

/-- A record that can be read and not be added is one that a call failed for. -/
theorem exists_system_of_add (hnull : hasNull m.directory = false) (hreadable : m.IsReadable w)
    {id file copy stamp hash reason : String} {fault : Fault}
    (h : m.add id file copy stamp hash reason w = .error fault w') :
  ∃ error, fault = .system error
  := by
  obtain ⟨c, hread⟩ := exists_read hnull hreadable
  rcases bind_eq_error_iff.mp h with hfailed | ⟨c', w₁, hread', hwrite⟩
  · rw [hread] at hfailed
    cases hfailed
  · rw [hread] at hread'
    obtain ⟨rfl, rfl⟩ := EStateM.Result.ok.inj hread'
    apply (failsByCalls_write _ _).exists_system hwrite
    rw [hnull]
    rintro ⟨⟩

/-- A record is marked as restored where all have identifiers and the manifest can be written. -/
theorem exists_markRestored (tree : w.files.IsTree) (hadmits : m.Admits w) (hlists : m.Lists HasId w)
    (id : Json) :
  ∃ w', m.markRestored id w = .ok () w'
  := by
  obtain ⟨c, hread⟩ := exists_read hadmits.makeable.noNull hadmits.readable
  obtain ⟨-, -, hall⟩ := of_read hread
  obtain ⟨marked, hmarked⟩ := exists_markRecords (hall HasId hlists) id
  obtain ⟨w', hwrite⟩ := (exists_write_iff tree hadmits.readable (c.setBackups marked)).mpr hadmits
  refine ⟨w', bind_eq_ok_iff.mpr ⟨c, w, hread, ?_⟩⟩
  rw [hmarked]
  exact hwrite

end Manifest

namespace BackupStore

open Manifest

variable {m : BackupStore} {w w' : World} {file copy : Path} {bytes : List UInt8} {b : Backup}
    {touched made : Set Place}

/-! ### Explained faults -/

/-- Whether a job ends with an answer or with a fault of a backup. -/
def Explained {α : Type} (j : Job α) (w : World) : Prop :=
  ∀ fault w', j w = .error fault w' → ∃ cause, fault = .backup cause

section Explained

variable {α β : Type} {x : Job α} {f : α → Job β} {explain : SystemError → BackupFault}

theorem explained_of_ok {a : α} (h : x w = .ok a w') :
  Explained x w
  := by
  intro fault w₁ herror
  rw [h] at herror
  cases herror

theorem explained_throw (cause : BackupFault) :
  Explained (α := α) (throw (.backup cause)) w
  := by
  rintro fault w' ⟨⟩
  exact ⟨cause, rfl⟩

theorem explained_bind (hx : Explained x w) (hf : ∀ a w₁, x w = .ok a w₁ → Explained (f a) w₁) :
  Explained (x >>= f) w
  := by
  intro fault w' h
  rcases bind_eq_error_iff.mp h with h | ⟨a, w₁, hok, h⟩
  · exact hx fault w' h
  · exact hf a w₁ hok fault w' h

/-- Where nothing fails but calls, all is explained. -/
theorem explained_explaining (h : ∀ fault w', x w = .error fault w' → ∃ error, fault = .system error) :
  Explained (explaining explain x) w
  := by
  intro fault w' hfailed
  obtain ⟨fault₁, w₁, hx, hthrow⟩ := tryCatch_eq_error_iff.mp hfailed
  obtain ⟨error, rfl⟩ := h fault₁ w₁ hx
  obtain ⟨rfl, -⟩ := EStateM.Result.error.inj hthrow
  exact ⟨_, rfl⟩

end Explained

/-! ### Room for names -/

theorem length_le_utf8ByteSize_ofList (cs : List Char) :
  cs.length ≤ (String.ofList cs).utf8ByteSize
  := by
  induction cs with
  | nil => exact Nat.zero_le _
  | cons c cs ih =>
      have hsingleton : String.ofList [c] = String.singleton c := rfl
      have hc := c.utf8Size_pos
      rw [List.length_cons, ← List.singleton_append, String.ofList_append, String.utf8ByteSize_append,
        hsingleton, String.utf8ByteSize_singleton]
      omega

/-- A time is written with four characters at least. -/
theorem four_le_utf8ByteSize_stamp (i : Instant) :
  4 ≤ i.stamp.utf8ByteSize
  := by
  have hyear : 4 ≤ (Instant.padded 4 i.year).utf8ByteSize := by
    rw [Instant.padded]
    apply le_trans _ (length_le_utf8ByteSize_ofList _)
    rw [List.length_append, List.length_replicate]
    omega
  simp only [Instant.stamp, String.utf8ByteSize_append]
  omega

/-- Whether no name that a copy of a stylesheet may get is too long. -/
def HasRoom (file : Path) (w : World) : Prop :=
  ∀ mark, IsMark w mark → (copyName file mark).utf8ByteSize ≤ Files.maxNameSize
    ∧ (copyPath file mark).toString.utf8ByteSize ≤ Files.maxPathSize

/-- There is room for all names if there is for one with a token: none is longer. -/
theorem hasRoom_of_token (htokens : ∀ i, IsToken (w.tokens i)) {i : Nat}
    (hname : (copyName file (w.now.stamp ++ "_" ++ w.tokens i)).utf8ByteSize ≤ Files.maxNameSize)
    (hpath : (copyPath file (w.now.stamp ++ "_" ++ w.tokens i)).toString.utf8ByteSize
      ≤ Files.maxPathSize) :
  HasRoom file w
  := by
  intro mark hmark
  have hle : mark.utf8ByteSize ≤ (w.now.stamp ++ "_" ++ w.tokens i).utf8ByteSize := by
    rcases hmark with rfl | ⟨j, rfl⟩
    · simp only [String.utf8ByteSize_append]
      omega
    · simp only [String.utf8ByteSize_append, (htokens i).utf8ByteSize, (htokens j).utf8ByteSize]
      exact Nat.le_refl _
  obtain ⟨k, hk⟩ := file.parent.exists_utf8ByteSize_child
  have hcopyName := utf8ByteSize_copyName file
  rw [copyPath, hk, hcopyName] at hpath
  rw [hcopyName] at hname
  rw [copyPath, hk, hcopyName]
  omega

theorem HasRoom.reaches_copyPath {mark : String} (h : HasRoom file w) (hfile : file.names ≠ [])
    (hreach : w.files.Reaches file) (hmark : IsMark w mark) :
  w.files.Reaches (copyPath file mark)
  := (Files.reaches_sibling_iff hreach hfile).mpr (h mark hmark)

/-- There is room for what is written beside a stylesheet before it takes its place, if there is for
copies. -/
theorem HasRoom.reaches_besides (h : HasRoom file w) (hfile : file.names ≠ [])
    (htokens : ∀ i, IsToken (w.tokens i)) {fs : Files} (hreach : fs.Reaches file) {tail : String}
    (htail : tail.utf8ByteSize ≤ 15) :
  fs.Reaches (file.besides tail)
  := by
  obtain ⟨hname, hpath⟩ := h (w.now.stamp ++ "_" ++ w.tokens 0) (.inr ⟨0, rfl⟩)
  have hstamp := four_le_utf8ByteSize_stamp w.now
  have htoken := (htokens 0).utf8ByteSize
  obtain ⟨k, hk⟩ := file.parent.exists_utf8ByteSize_child
  rw [copyPath, hk] at hpath
  rw [Path.besides, Files.reaches_sibling_iff hreach hfile, hk]
  have hdot : ".".utf8ByteSize = 1 := rfl
  have hline : "_".utf8ByteSize = 1 := rfl
  have hsuffix : ".bak".utf8ByteSize = 4 := rfl
  simp only [copyName, String.utf8ByteSize_append] at hname hpath ⊢
  omega

/-! ### Taking a copy -/

/-- Whether what the manifest, if there is one, needs to be read is there: a path without the character
that ends names, to a text if to anything. -/
def IsLegible (m : BackupStore) (w : World) : Prop :=
  ∀ manifest, m.manifest = some manifest →
    hasNull manifest.directory = false ∧ manifest.IsText w

theorem IsLegible.of_becomes (h : m.IsLegible w) (hw : w.Becomes touched made w')
    (hm : ∀ manifest, m.manifest = some manifest → w.files.placeOf manifest.path ∉ touched) :
  m.IsLegible w'
  := fun manifest hmanifest => ⟨(h manifest hmanifest).1,
    (isText_of_becomes hw (hm manifest hmanifest)).mpr (h manifest hmanifest).2⟩

theorem placeOf_path_notMem_spare (manifest : Manifest) (file : Path) (w : World) :
  w.files.placeOf manifest.path ∉ spare file w
  := by
  intro hspare
  have hsuffix := suffixAt_of_mem_spare hspare
  rw [Manifest.suffixAt_placeOf_path] at hsuffix
  exact absurd hsuffix (by decide)

theorem explained_recording (hfile : hasNull b.file = false) (hcopy : hasNull b.copy = false)
    (hlegible : m.IsLegible w) (hash : String) :
  Explained (recording m b hash) w
  := by
  cases hm : m.manifest with
  | none =>
      rw [recording, hm]
      exact explained_of_ok rfl
  | some manifest =>
      obtain ⟨hnull, htext⟩ := hlegible manifest hm
      rw [Explained, recording_apply hm hfile hcopy]
      exact explained_explaining fun fault w' hadd => exists_system_of_add hnull htext.isReadable hadd

theorem explained_copying (hfile : hasNull file = false) (hcopy : hasNull copy = false) :
  Explained (copying file copy) w
  := by
  have hnull : ∀ {p : Path}, hasNull p = false → hasNull p = true → False := by
    intro p hp hp'
    rw [hp] at hp'
    cases hp'
  apply explained_explaining
  intro fault w' h
  refine FailsByCalls.exists_system ?_ h
  apply FailsByCalls.bind (.copy (hnull hfile) (hnull hcopy))
  intro _
  apply FailsByCalls.bind (.hash (hnull hfile))
  intro _
  exact FailsByCalls.bind (.hash (hnull hcopy)) fun _ => .pure _

/-- Where there is room for its name, and the manifest can be read, it is explained why a copy cannot be
taken. -/
theorem explained_take (tree : w.files.IsTree) (hfile : file.names ≠ [])
    (htokens : ∀ i, IsToken (w.tokens i)) (hholds : w.Holds file bytes) (hroom : HasRoom file w)
    (hlegible : m.IsLegible w) :
  Explained (m.take file) w
  := by
  have hreach : ∀ {mark}, IsMark w mark → w.files.Reaches (copyPath file mark) :=
    hroom.reaches_copyPath hfile hholds.reaches
  have hnull : ∀ {mark}, IsMark w mark → hasNull (copyPath file mark) = false :=
    fun hmark => hasNull_copyPath hholds.noNull (hmark.isMarkText htokens)
  rw [Explained, take_apply m hfile]
  apply explained_bind
  · rcases freshPath_or hfile (fun i => ⟨hreach (.inr ⟨i, rfl⟩), hnull (.inr ⟨i, rfl⟩)⟩)
      (hreach (.inl rfl)) (hnull (.inl rfl)) (w.files.entries.length + 1) with
      ⟨copy, w₁, hfresh⟩ | ⟨w₁, hfresh⟩
    · exact explained_of_ok hfresh
    · intro fault w' hfailed
      rw [hfresh] at hfailed
      obtain ⟨rfl, -⟩ := EStateM.Result.error.inj hfailed
      exact ⟨_, rfl⟩
  intro copy w₁ hfresh
  obtain ⟨drawn, hdrawn, rfl, hnot, mark, hmark, rfl⟩ := freshPath_eq_ok hfile ⟨_, .inl rfl, rfl⟩ hfresh
  apply explained_bind (explained_copying hholds.noNull (hnull hmark))
  intro hashes w₂ hcopying
  split
  · exact explained_throw _
  · obtain ⟨bytes', -, hcopied⟩ := exists_copied tree hdrawn hnot ⟨mark, hmark, rfl⟩ hcopying
    apply explained_bind (explained_of_ok (token_apply w₂))
    intro token w₃ htoken
    obtain ⟨rfl, rfl⟩ := EStateM.Result.ok.inj (token_apply w₂ ▸ htoken)
    apply explained_bind _ fun _ _ _ => explained_of_ok rfl
    apply explained_recording hholds.noNull (hnull hmark)
    exact hlegible.of_becomes hcopied.becomes_spare fun manifest _ =>
      placeOf_path_notMem_spare manifest file w

/-- Where the first name for the copy is too long, it is not explained why none is taken: a call ends it. -/
theorem take_eq_error_of_long (m : BackupStore) (hfile : file.names ≠ []) (hholds : w.Holds file bytes)
    (hlong : Files.maxNameSize < (copyName file w.now.stamp).utf8ByteSize) :
  ∃ error w', m.take file w = .error (.system error) w'
  := by
  obtain ⟨hparent, hdirectory⟩ := hholds.reaches.parent hfile
  have hnull := hasNull_copyPath hholds.noNull (IsMarkText.stamp w.now)
  have hfind : find? (copyPath file w.now.stamp) w
      = .error (.system (.call .nameTooLong (copyPath file w.now.stamp).toString none)) w := by
    rw [find?_apply, hnull, Files.entry, copyPath,
      Files.locate_child_eq_nameTooLong hparent hdirectory hlong]
    rfl
  refine ⟨.call .nameTooLong (copyPath file w.now.stamp).toString none, w, ?_⟩
  rw [take_apply m hfile]
  apply bind_eq_error_iff.mpr
  left
  rw [freshPath]
  apply bind_eq_error_iff.mpr
  left
  exact bind_eq_error_iff.mpr (.inl hfind)

/-! ### What a store leaves as it needs it -/

/-- Whether all records of the manifest, if there is one, have identifiers. -/
def IsIdentified (m : BackupStore) (w : World) : Prop :=
  ∀ manifest, m.manifest = some manifest → manifest.Lists HasId w

/-- Whether a world has become another in which directories were made for the manifest only, and the
manifest is as good as it was. -/
structure Steady (m : BackupStore) (w w' : World) : Prop where
  becomes : w.Becomes Set.univ (m.ledgerWay w) w'
  legible : m.IsLegible w → m.IsLegible w'
  identified : m.IsIdentified w → m.IsIdentified w'

theorem Steady.trans {w'' : World} (h : m.Steady w w') (h' : m.Steady w' w'') :
  m.Steady w w''
  := by
  refine ⟨h.becomes.trans ?_, h'.legible ∘ h.legible, h'.identified ∘ h.identified⟩
  rw [← ledgerWay_congr h.becomes.files.here]
  exact h'.becomes

/-- What does not touch the file of the manifest leaves that as good as it was. -/
theorem steady_of_becomes (hw : w.Becomes touched made w') (hmade : made ⊆ m.ledgerWay w)
    (hm : ∀ manifest, m.manifest = some manifest → w.files.placeOf manifest.path ∉ touched) :
  m.Steady w w'
  := ⟨hw.mono (Set.subset_univ _) hmade, fun hlegible => hlegible.of_becomes hw hm,
    fun hids manifest hmanifest =>
      (lists_of_becomes hw (hm manifest hmanifest)).mpr (hids manifest hmanifest)⟩

theorem left_explaining {α : Type} (explain : SystemError → BackupFault) (x : Job α) (w : World) :
  left (explaining explain x w) = left (x w)
  := by
  change left (EStateM.tryCatch x _ w) = _
  rw [EStateM.tryCatch]
  cases hx : x w with
  | ok a w' => rfl
  | error fault w' => cases fault <;> rfl

theorem steady_recording (tree : w.files.IsTree) (hfile : hasNull b.file = false)
    (hcopy : hasNull b.copy = false) (hash : String) :
  m.Steady w (left (recording m b hash w))
  := by
  refine ⟨within_recording tree (Set.subset_univ _) (Set.Subset.refl _) b hash, ?_, ?_⟩
  · intro hlegible manifest hm
    refine ⟨(hlegible manifest hm).1, ?_⟩
    rw [recording_apply hm hfile hcopy, left_explaining]
    exact isText_of_add tree _ _ _ _ _ _ (hlegible manifest hm).2
  · intro hids manifest hm
    rw [recording_apply hm hfile hcopy, left_explaining]
    exact lists_of_add tree isSeen_hasId (fun _ => hasId_newRecord ..) (hids manifest hm)

theorem steady_marking (tree : w.files.IsTree) (b : Backup) :
  m.Steady w (left (marking m b w))
  := by
  refine ⟨within_marking tree (Set.subset_univ _) (Set.Subset.refl _) b, ?_, ?_⟩
  · intro hlegible manifest hm
    refine ⟨(hlegible manifest hm).1, ?_⟩
    rw [marking, hm]
    dsimp only
    split
    · exact isText_of_markRestored tree _ (hlegible manifest hm).2
    · exact (hlegible manifest hm).2
  · intro hids manifest hm
    rw [marking, hm]
    dsimp only
    split
    · exact lists_of_markRestored tree isSeen_hasId _ (hids manifest hm)
    · exact hids manifest hm

theorem Copied.steady (h : Copied file w b bytes w') :
  m.Steady w w'
  := steady_of_becomes h.becomes_spare (Set.empty_subset _)
    fun manifest _ => placeOf_path_notMem_spare manifest file w

/-- Taking a copy leaves the manifest as good as it was, whether it succeeds or not. -/
theorem steady_take (tree : w.files.IsTree) (hfile : file.names ≠ []) :
  m.Steady w (left (m.take file w))
  := by
  have hrecorded : ∀ {b bytes w₁}, Copied file w b bytes w₁ →
      m.Steady w (left (recording m b (Digest.Sha256.digest bytes) w₁)) := by
    intro b bytes w₁ hcopied
    apply hcopied.steady.trans
    apply steady_recording hcopied.becomes.files.tree _ hcopied.held.noNull
    rw [hcopied.origin]
    exact hcopied.original.noNull
  cases htake : m.take file w with
  | ok b w' =>
      obtain ⟨bytes, w₁, hcopied, hrecording⟩ := of_take tree hfile htake
      have hsteady := hrecorded hcopied
      rw [hrecording] at hsteady
      exact hsteady
  | error fault w' =>
      rcases of_take_eq_error tree hfile htake with hspare | ⟨b, bytes, w₁, hcopied, hrecording⟩
      · exact steady_of_becomes hspare (Set.empty_subset _)
          fun manifest _ => placeOf_path_notMem_spare manifest file w
      · have hsteady := hrecorded hcopied
        rw [hrecording] at hsteady
        exact hsteady

/-! ### Putting a copy back -/

theorem exists_removeIfPresent {p : Path} (hnull : hasNull p = false) (hreach : w.files.Reaches p)
    (hclear : w.files.get? (w.files.placeOf p) ≠ some .directory) :
  ∃ w', removeIfPresent p w = .ok () w'
  := by
  rcases w.files.get?_cases (w.files.placeOf p) with hget | hget | ⟨bytes, hget⟩
  · have hmissing : w.files.remove p = .error .notFound := by
      rw [Files.remove, show w.files.locate p = _ from hreach]
      simp [bind, Except.bind, hget, throw, throwThe, MonadExceptOf.throw]
    refine ⟨_, change_eq_ok_iff.mpr ⟨hnull, w.files, ?_, rfl⟩⟩
    rw [hmissing]
  · exact absurd hget hclear
  · have hthere : w.files.bytesAt? (w.files.placeOf p) ≠ none := by
      rw [Files.bytesAt?_eq_some_iff.mpr hget]
      rintro ⟨⟩
    refine ⟨_, change_eq_ok_iff.mpr ⟨hnull, w.files.erase (w.files.placeOf p), ?_, rfl⟩⟩
    rw [Files.remove_eq_ok_iff.mpr ⟨hreach, hthere, rfl⟩]

/-- Where no directory stands in the way, it is explained why a copy cannot be put back. -/
theorem explained_copyBack (tree : w.files.IsTree) (hfile : file.names ≠ []) (hnull : hasNull file = false)
    (hreach : w.files.Reaches file) (hback : w.files.Reaches (backPath file))
    (hclear : w.files.get? (w.files.placeOf (backPath file)) ≠ some .directory)
    (hcopy : w.Holds copy bytes) :
  Explained (copyBack copy file) w
  := by
  have hexist := doesExist_of_reaches hcopy.noNull hcopy.reaches
  rw [Files.bytesAt?_eq_some_iff.mp hcopy.bytes] at hexist
  rw [Explained, copyBack_apply hfile]
  apply explained_bind (explained_of_ok hexist)
  intro found w₁ hfound
  rw [hexist] at hfound
  obtain ⟨rfl, rfl⟩ := EStateM.Result.ok.inj hfound
  intro fault w' h
  obtain ⟨fault₁, w₂, hreplacing, hgive⟩ := tryCatch_eq_error_iff.mp h
  have hcalls : FailsByCalls False (replacing copy file) := by
    apply failsByCalls_replacing
    · rw [hcopy.noNull]
      rintro ⟨⟩
    · rw [hnull]
      rintro ⟨⟩
  obtain ⟨error, rfl⟩ := hcalls.exists_system hreplacing
  obtain ⟨w₃, h₃, h₂⟩ := of_replacing_eq_error tree (Set.Subset.refl _) hreplacing
  have hbecomes : w.Becomes {firstPlace w₃ copy file} ∅ w₂ := by
    apply ((h₃.mono (Set.empty_subset _) (Set.Subset.refl _)).trans h₂).of_made
    intro place hplace
    exact .inl (hreach.get?_of_mem_onTheWay_parent hfile hplace)
  obtain ⟨w₄, hremove⟩ := exists_removeIfPresent (hasNull_besides hnull (by decide))
    (hbecomes.files.reaches hback) (by
      rw [hbecomes.placeOf, ne_eq, hbecomes.files.directory_iff]
      exact hclear)
  rcases bind_eq_error_iff.mp hgive with hfailed | ⟨_, w₅, -, hthrow⟩
  · rw [show removeIfPresent (backPath file) w₂ = _ from hremove] at hfailed
    cases hfailed
  · obtain ⟨rfl, -⟩ := EStateM.Result.error.inj hthrow
    exact ⟨_, rfl⟩

/-- A copy that was put back where no directory stands in the way gives the stylesheet its contents. -/
theorem of_copyBack_of_clear (tree : w.files.IsTree) (hfile : file.names ≠ [])
    (hreach : w.files.Reaches file)
    (hclear : w.files.get? (w.files.placeOf (backPath file)) ≠ some .directory)
    (hcopy : w.Holds copy bytes) (h : copyBack copy file w = .ok () w') :
  w'.Holds file bytes ∧ w.Becomes (insert (w.files.placeOf file) Files.temporaries) ∅ w'
  := by
  obtain ⟨bytes', hbytes, hheld, hbecomes⟩ :=
    (IsUnobstructed.of_reaches hreach hfile hclear).of_copyBack tree hfile h
  obtain rfl := Option.some.inj (hcopy.bytes.symm.trans hbytes)
  exact ⟨hheld, hbecomes.of_made fun place hplace =>
    .inl (hreach.get?_of_mem_onTheWay_parent hfile hplace)⟩

theorem exists_marking (tree : w.files.IsTree) (hadmits : m.AdmitsRecord w) (hids : m.IsIdentified w)
    (b : Backup) :
  ∃ w', marking m b w = .ok () w'
  := by
  rw [marking]
  cases hm : m.manifest with
  | none => exact ⟨w, rfl⟩
  | some manifest =>
      dsimp only
      split
      · exact exists_markRestored tree (hadmits manifest hm) (hids manifest hm) _
      · exact ⟨w, rfl⟩

/-- Whether the contents of a file would be legible and identified as those of a manifest. -/
def IsLedger (bytes : List UInt8) : Prop :=
  ∃ t, Text.Utf8.decode bytes = .ok t ∧ ∀ record ∈ (Contents.ofText t).backups, HasId record

/-- Where no directory stands in the way, and each record has an identifier, it is explained why a copy
cannot be put back at once. -/
theorem explained_rollback (tree : w.files.IsTree) (hfile : b.file.names ≠ [])
    (hnull : hasNull b.file = false) (hreach : w.files.Reaches b.file)
    (hback : w.files.Reaches (backPath b.file))
    (hclear : w.files.get? (w.files.placeOf (backPath b.file)) ≠ some .directory)
    (hcopy : w.Holds b.copy bytes) (hsettled : m.IsSettled w) (hlegible : m.IsLegible w)
    (hids : m.IsIdentified w)
    (hown : ∀ manifest, m.manifest = some manifest →
      w.files.placeOf manifest.path = w.files.placeOf b.file → IsLedger bytes) :
  Explained (m.rollback b) w
  := by
  rw [rollback_eq]
  apply explained_bind (explained_copyBack tree hfile hnull hreach hback hclear hcopy)
  intro _ w₁ hok
  obtain ⟨hheld, h₁⟩ := of_copyBack_of_clear tree hfile hreach hclear hcopy hok
  have hledger : ∀ manifest, m.manifest = some manifest →
      manifest.IsText w₁ ∧ manifest.Lists HasId w₁ := by
    intro manifest hm
    by_cases heq : w.files.placeOf manifest.path = w.files.placeOf b.file
    · -- The copy is one of the manifest itself.
      obtain ⟨t, hdecode, hall⟩ := hown manifest hm heq
      have hbytes : w₁.files.bytesAt? (w₁.files.placeOf manifest.path) = some bytes := by
        rw [h₁.placeOf, heq, ← h₁.placeOf]
        exact hheld.bytes
      rw [IsText, Manifest.Lists, hbytes]
      constructor
      · rintro _ ⟨⟩
        exact ⟨t, hdecode⟩
      · rintro _ t' ⟨⟩ hdecode'
        rw [hdecode] at hdecode'
        obtain rfl := Except.ok.inj hdecode'
        exact hall
    · have hnot : w.files.placeOf manifest.path
          ∉ insert (w.files.placeOf b.file) Files.temporaries :=
        Set.mem_insert_iff.not.mpr (not_or.mpr ⟨heq, Manifest.placeOf_path_notMem_temporaries w.files manifest⟩)
      exact ⟨(isText_of_becomes h₁ hnot).mpr (hlegible manifest hm).2,
        (lists_of_becomes h₁ hnot).mpr (hids manifest hm)⟩
  have hsettled₁ : m.IsSettled w₁ := hsettled.of_becomes h₁ (Set.empty_subset _)
    fun manifest hm => (hledger manifest hm).1.isReadable
  obtain ⟨w₂, hmarking⟩ := exists_marking h₁.files.tree hsettled₁.1
    (fun manifest hm => (hledger manifest hm).2) b
  exact explained_of_ok hmarking

/-- Whether a stylesheet is not the file of the manifest. -/
def IsApart (m : BackupStore) (file : Path) (w : World) : Prop :=
  ∀ manifest, m.manifest = some manifest → w.files.placeOf manifest.path ≠ w.files.placeOf file

/-- Changes to a stylesheet and to what is written beside it leave the manifest as good as it was. -/
theorem IsApart.steady (h : m.IsApart file w)
    (hw : w.Becomes (insert (w.files.placeOf file) Files.temporaries) ∅ w') :
  m.Steady w w'
  := by
  apply steady_of_becomes hw (Set.empty_subset _)
  intro manifest hm
  rw [Set.mem_insert_iff, not_or]
  exact ⟨h manifest hm, Manifest.placeOf_path_notMem_temporaries w.files manifest⟩

/-- What is left where a copy was to be put back at once and no directory stands in the way: the
stylesheet and what is written beside it were touched, and then the backup may have been marked. -/
theorem left_rollback_cases (m : BackupStore) (tree : w.files.IsTree) (hfile : b.file.names ≠ [])
    (hnull : hasNull b.file = false) (hreach : w.files.Reaches b.file)
    (hback : w.files.Reaches (backPath b.file))
    (hclear : w.files.get? (w.files.placeOf (backPath b.file)) ≠ some .directory)
    (hcopy : w.Holds b.copy bytes) :
  ∃ w₁, w.Becomes (insert (w.files.placeOf b.file) Files.temporaries) ∅ w₁
    ∧ (left (m.rollback b w) = w₁ ∨ left (m.rollback b w) = left (marking m b w₁))
  := by
  rw [rollback_eq]
  change ∃ w₁, _ ∧ (left (EStateM.bind _ _ w) = _ ∨ left (EStateM.bind _ _ w) = _)
  rw [EStateM.bind]
  cases hresult : copyBack b.copy b.file w with
  | ok _ w₁ =>
      exact ⟨w₁, (of_copyBack_of_clear tree hfile hreach hclear hcopy hresult).2, .inr rfl⟩
  | error fault w₁ =>
      obtain ⟨cause, rfl⟩ :=
        explained_copyBack tree hfile hnull hreach hback hclear hcopy fault w₁ hresult
      have h₁ : w.Becomes Files.temporaries ∅ w₁ := by
        apply (becomes_of_copyBack_eq_backup tree hfile (Set.Subset.refl _) hresult).of_made
        exact fun place hplace => .inl (hreach.get?_of_mem_onTheWay_parent hfile hplace)
      exact ⟨w₁, h₁.mono (Set.subset_insert _ _) (Set.Subset.refl _), .inl rfl⟩

end BackupStore

end StylePrune
