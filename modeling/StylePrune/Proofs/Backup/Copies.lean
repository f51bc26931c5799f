import StylePrune.Backup.Store
import StylePrune.Proofs.Backup.Ledger

/-!
# Copies

A stylesheet is copied to a place where nothing was, and the copy has its contents; what is touched
besides belongs to the manifest (`within_take`, `take_eq_ok`).
-/

namespace StylePrune

namespace Job

variable {w w' : World} {p q : Path} {touched made : Set Place}

theorem withName_apply (hp : p.names ≠ []) (name : String) (w : World) :
  withName p name w = .ok (p.parent.child name) w
  := by
  rw [withName, Path.withName?, if_neg hp]
  rfl

theorem left_withName (p : Path) (name : String) (w : World) :
  left (withName p name w) = w
  := by
  rw [withName]
  cases p.withName? name <;> rfl

theorem within_token (tree : w.files.IsTree) :
  Within touched made token w
  := ⟨.refl tree, rfl, rfl, Nat.le_succ w.drawn⟩

theorem token_apply (w : World) :
  token w = .ok (w.tokens w.drawn) { w with drawn := w.drawn + 1 }
  := rfl

/-- Whether a path leads to anything depends on the tree only. -/
theorem doesExist_congr {b : Bool} (h : doesExist p w = .ok b w)
    (hfiles : w'.files = w.files) :
  doesExist p w' = .ok b w'
  := by
  obtain ⟨found, w₁, hfind, hpure⟩ := bind_eq_ok_iff.mp h
  obtain ⟨rfl, rfl⟩ := EStateM.Result.ok.inj hpure
  obtain ⟨-, hfound⟩ := find?_eq_ok_iff.mp hfind
  apply bind_eq_ok_iff.mpr
  refine ⟨found, w', find?_eq_ok_iff.mpr ⟨rfl, ?_⟩, rfl⟩
  rw [hfiles]
  exact hfound

theorem eq_of_doesExist {b : Bool} (h : doesExist p w = .ok b w') :
  w' = w
  := by
  have hleft := left_doesExist p w
  rw [h] at hleft
  exact hleft

end Job

namespace BackupStore

open Job

variable {m : BackupStore} {w w' : World} {file copy : Path} {touched made : Set Place}

/-! ### Faults of calls -/

section Explaining

variable {α : Type} {explain : SystemError → BackupFault} {j : Job α} {a : α}

theorem explaining_eq_ok_iff :
  explaining explain j w = .ok a w' ↔ j w = .ok a w'
  := by
  rw [explaining, tryCatch_eq_ok_iff, or_iff_left]
  rintro ⟨fault, w₁, -, hhandler⟩
  cases fault <;> cases hhandler

theorem within_explaining (h : Within touched made j w) :
  Within touched made (explaining explain j) w
  := by
  apply Within.tryCatch h
  rintro fault w₁ - h₁
  split
  · exact .throw h₁.files.tree _
  · exact .throw h₁.files.tree _

end Explaining

/-! ### Names for copies -/

/-- The name of a copy, with something in it to tell it from other copies. -/
def copyName (file : Path) (mark : String) : String :=
  file.name?.getD "" ++ "." ++ mark ++ ".bak"

/-- The path of a copy, beside the stylesheet. -/
def copyPath (file : Path) (mark : String) : Path := file.parent.child (copyName file mark)

theorem child_eq_copyPath (file : Path) (stamp token : String) :
  file.parent.child (file.name?.getD "" ++ "." ++ stamp ++ "_" ++ token ++ ".bak")
    = copyPath file (stamp ++ "_" ++ token)
  := by
  simp only [copyPath, copyName, String.append_assoc]

theorem suffixOf_copyName (file : Path) (mark : String) :
  Path.suffixOf (copyName file mark) = Files.copySuffix
  := by
  have hne : file.name?.getD "" ++ "." ++ mark ≠ "" := by
    intro h
    have := congrArg String.toList h
    simp at this
  have hsplit : copyName file mark = file.name?.getD "" ++ "." ++ mark ++ "." ++ "bak" := by
    apply String.toList_injective
    simp [copyName]
  rw [hsplit, Path.suffixOf_concat hne (by decide) (by decide)]
  rfl

theorem copyName_ne (file : Path) (mark : String) :
  copyName file mark ≠ ".."
  := by
  intro h
  have hsuffix := suffixOf_copyName file mark
  rw [h] at hsuffix
  exact absurd hsuffix (by decide)

theorem suffixAt_copyPath (fs : Files) (file : Path) (mark : String) :
  Files.suffixAt (fs.placeOf (copyPath file mark)) = Files.copySuffix
  := by
  rw [copyPath, Files.placeOf_child fs _ (copyName_ne file mark), Files.suffixAt_concat,
    suffixOf_copyName]

/-- What the name of a copy that is made now may have in it: the time, or the time and a token. -/
def IsMark (w : World) (mark : String) : Prop :=
  mark = w.now.stamp ∨ ∃ i, mark = w.now.stamp ++ "_" ++ w.tokens i

/-- The places for copies of a stylesheet where nothing is. -/
def spare (file : Path) (w : World) : Set Place :=
  { place | w.files.get? place = none
    ∧ ∃ mark, IsMark w mark ∧ place = w.files.placeOf (copyPath file mark) }

theorem suffixAt_of_mem_spare {place : Place} (h : place ∈ spare file w) :
  Files.suffixAt place = Files.copySuffix
  := by
  obtain ⟨-, mark, -, rfl⟩ := h
  exact suffixAt_copyPath w.files file mark

/-! ### Finding a name -/

theorem within_freshPath (tree : w.files.IsTree) (stamp : String) (n : Nat) (candidate : Path) :
  Within touched made (freshPath file stamp n candidate) w
  := by
  induction n generalizing candidate w with
  | zero => exact .throw tree _
  | succ n ih =>
      apply Within.bind (.of_left_eq tree (left_doesExist candidate w))
      rintro found w₁ - h₁
      cases found
      · exact .pure h₁.files.tree candidate
      · apply Within.bind (within_token h₁.files.tree)
        rintro token w₂ - h₂
        apply Within.bind (.of_left_eq h₂.files.tree (left_withName _ _ w₂))
        rintro next w₃ - h₃
        exact ih h₃.files.tree next

/-- The path that is found leads to nothing, and is one for a copy that is made now. -/
theorem freshPath_eq_ok (hfile : file.names ≠ []) {n : Nat} {candidate : Path}
    (hcandidate : ∃ mark, IsMark w mark ∧ candidate = copyPath file mark)
    (h : freshPath file w.now.stamp n candidate w = .ok copy w') :
  ∃ drawn, w.drawn ≤ drawn ∧ w' = { w with drawn } ∧ doesExist copy w = .ok false w
    ∧ ∃ mark, IsMark w mark ∧ copy = copyPath file mark
  := by
  induction n generalizing candidate w with
  | zero => cases h
  | succ n ih =>
      obtain ⟨found, w₁, hfound, h⟩ := bind_eq_ok_iff.mp h
      obtain rfl := eq_of_doesExist hfound
      cases found
      · obtain ⟨rfl, rfl⟩ := EStateM.Result.ok.inj h
        exact ⟨w₁.drawn, Nat.le_refl _, rfl, hfound, hcandidate⟩
      · obtain ⟨token, w₂, htoken, h⟩ := bind_eq_ok_iff.mp h
        obtain ⟨rfl, rfl⟩ := EStateM.Result.ok.inj (token_apply w₁ ▸ htoken)
        obtain ⟨next, w₃, hnext, h⟩ := bind_eq_ok_iff.mp h
        rw [withName_apply hfile] at hnext
        obtain ⟨rfl, rfl⟩ := EStateM.Result.ok.inj hnext
        rw [child_eq_copyPath] at h
        obtain ⟨drawn, hdrawn, rfl, hnot, hcopy⟩ :=
          @ih { w₁ with drawn := w₁.drawn + 1 } _ ⟨_, .inr ⟨w₁.drawn, rfl⟩, rfl⟩ h
        exact ⟨drawn, Nat.le_of_succ_le hdrawn, rfl, doesExist_congr hnot rfl, hcopy⟩

/-! ### Copying to a free place -/

/-- Nothing is at the place of a path that leads to nothing. -/
theorem get?_of_doesExist (hnot : doesExist copy w = .ok false w) (hnull : hasNull copy = false)
    (hreach : w.files.Reaches copy) :
  w.files.get? (w.files.placeOf copy) = none
  := by
  by_contra hsome
  obtain ⟨e, he⟩ := Option.ne_none_iff_exists'.mp hsome
  exact entry_ne_ok_of_doesExist hnull hnot e (Files.entry_eq_ok_iff.mpr ⟨hreach, he⟩)

theorem copyTarget_of_doesExist (hnot : doesExist copy w = .ok false w) :
  copyTarget w.files file copy = copy
  := by
  cases hnull : hasNull copy with
  | true =>
      rw [copyTarget, hnull, if_neg]
      exact Bool.false_ne_true
  | false => exact copyTarget_of_entry_ne (entry_ne_ok_of_doesExist hnull hnot .directory)

/-- A copy to a path that leads to nothing goes to a free place. -/
theorem of_copy_to_free (tree : w.files.IsTree) (hnot : doesExist copy w = .ok false w)
    (h : Job.copy file copy w = .ok () w') :
  ∃ bytes, w.Holds file bytes ∧ w'.Holds copy bytes
    ∧ w.files.get? (w.files.placeOf copy) = none
    ∧ w.Becomes {w.files.placeOf copy} ∅ w'
  := by
  obtain ⟨bytes, hfile, hcopy, hreach⟩ := holds_of_copy tree h
  have hwithin : w.files.placeOf (copyTarget w.files file copy) ∈ {w.files.placeOf copy} →
      Within {w.files.placeOf copy} ∅ (Job.copy file copy) w := within_copy tree
  rw [copyTarget_of_doesExist hnot] at hcopy hreach hwithin
  exact ⟨bytes, hfile, hcopy, get?_of_doesExist hnot hcopy.noNull hreach,
    (hwithin rfl).of_ok h⟩

theorem within_copy_to_free (tree : w.files.IsTree) (hnot : doesExist copy w = .ok false w)
    {mark : String} (hmark : IsMark w mark) (hpath : copy = copyPath file mark)
    (hspare : spare file w ⊆ touched) :
  Within touched made (Job.copy file copy) w
  := by
  cases hcopy : Job.copy file copy w with
  | ok a w' =>
      obtain ⟨bytes, -, -, hnone, hbecomes⟩ := of_copy_to_free tree hnot hcopy
      rw [Within, hcopy]
      apply hbecomes.mono _ (Set.empty_subset made)
      exact Set.singleton_subset_iff.mpr (hspare ⟨hnone, mark, hmark, by rw [hpath]⟩)
  | error fault w' =>
      apply Within.of_left_eq tree
      rw [hcopy]
      exact eq_of_copy_eq_error hcopy

/-! ### Taking a copy -/

/-- Copying a stylesheet and hashing it and the copy. -/
def copying (file copy : Path) : Job (String × String) :=
  explaining (.copyFailed file) do
    Job.copy file copy
    return (← Job.hash file, ← Job.hash copy)

/-- Recording a copy, if there is a manifest. -/
def recording (m : BackupStore) (b : Backup) (hash : String) : Job Unit :=
  match m.manifest with
  | some manifest =>
    explaining (.notRecorded b.file) do
      let file ← Job.resolve b.file
      let copy ← Job.resolve b.copy
      manifest.add b.id file.toString copy.toString b.stamp hash Manifest.defaultReason
  | none => pure ()

/-- The identifier of a backup that is drawn now. -/
def nextId (stamp : String) (w : World) : String := stamp ++ "_" ++ w.tokens w.drawn

/-- Drawing an identifier and recording the copy. -/
def finishing (m : BackupStore) (file copy : Path) (stamp hash : String) : Job Backup := do
  let b : Backup := { file, copy, stamp, id := stamp ++ "_" ++ (← Job.token) }
  recording m b hash
  return b

/-- A backup is taken in four steps. -/
theorem take_apply (m : BackupStore) (hfile : file.names ≠ []) (w : World) :
  m.take file w
    = (freshPath file w.now.stamp (w.files.entries.length + 1) (copyPath file w.now.stamp)
        >>= fun copy => copying file copy >>= fun hashes =>
          if hashes.1 != hashes.2 then throw (.backup (.copyDiffers file))
          else finishing m file copy w.now.stamp hashes.2) w
  := by
  have hname := withName_apply hfile (copyName file w.now.stamp) w
  refine (bind_of_ok hname).trans ?_
  refine congrArg (fun rest => (freshPath _ _ _ _ >>= rest) w) (funext fun copy => ?_)
  refine congrArg (copying file copy >>= ·) (funext fun hashes => ?_)
  obtain ⟨before, after⟩ := hashes
  dsimp only
  cases before != after with
  | true => rfl
  | false =>
      refine congrArg (Job.token >>= ·) (funext fun token => ?_)
      obtain ⟨manifest⟩ := m
      cases manifest <;> rfl

/-- Copying and hashing gives the copy the contents of the stylesheet. -/
theorem of_copying (tree : w.files.IsTree) (hnot : doesExist copy w = .ok false w)
    {hashes : String × String} (h : copying file copy w = .ok hashes w') :
  ∃ bytes, w.Holds file bytes ∧ w'.Holds copy bytes ∧ hashes.2 = Digest.Sha256.digest bytes
    ∧ w.files.get? (w.files.placeOf copy) = none
    ∧ w.Becomes {w.files.placeOf copy} ∅ w'
  := by
  obtain ⟨_, w₁, hcopy, h⟩ := bind_eq_ok_iff.mp (explaining_eq_ok_iff.mp h)
  obtain ⟨before, w₂, hbefore, h⟩ := bind_eq_ok_iff.mp h
  obtain ⟨after, w₃, hafter, h⟩ := bind_eq_ok_iff.mp h
  obtain ⟨rfl, rfl⟩ := EStateM.Result.ok.inj h
  obtain ⟨-, -, -, rfl⟩ := hash_eq_ok_iff.mp hbefore
  obtain ⟨bytes', hholds', hdigest, rfl⟩ := hash_eq_ok_iff.mp hafter
  obtain ⟨bytes, hfile, hholds, hnone, hbecomes⟩ := of_copy_to_free tree hnot hcopy
  obtain rfl := hholds.unique hholds'
  exact ⟨bytes, hfile, hholds, hdigest, hnone, hbecomes⟩

theorem within_copying (tree : w.files.IsTree) (hnot : doesExist copy w = .ok false w)
    {mark : String} (hmark : IsMark w mark) (hpath : copy = copyPath file mark)
    (hspare : spare file w ⊆ touched) :
  Within touched made (copying file copy) w
  := by
  apply within_explaining
  apply Within.bind (within_copy_to_free tree hnot hmark hpath hspare)
  rintro _ w₁ - h₁
  apply Within.bind (.of_left_eq h₁.files.tree (left_hash file w₁))
  rintro before w₂ - h₂
  apply Within.bind (.of_left_eq h₂.files.tree (left_hash copy w₂))
  rintro after w₃ - h₃
  exact .pure h₃.files.tree _

/-- The places that the manifest needs, if there is one. -/
def ledger (m : BackupStore) (w : World) : Set Place :=
  { place | ∃ manifest, m.manifest = some manifest ∧ place ∈ manifest.places w }

/-- The places on the way to the directory of the manifest, if there is one. -/
def ledgerWay (m : BackupStore) (w : World) : Set Place :=
  { place | ∃ manifest, m.manifest = some manifest ∧ place ∈ w.files.onTheWay manifest.directory }

theorem ledger_congr (h : w'.files.here = w.files.here) (m : BackupStore) :
  m.ledger w' = m.ledger w
  := by
  simp only [ledger, Manifest.places_congr h]

theorem ledgerWay_congr (h : w'.files.here = w.files.here) (m : BackupStore) :
  m.ledgerWay w' = m.ledgerWay w
  := by
  simp only [ledgerWay, Files.onTheWay_congr h]

theorem within_recording (tree : w.files.IsTree) (hledger : m.ledger w ⊆ touched)
    (hway : m.ledgerWay w ⊆ made) (b : Backup) (hash : String) :
  Within touched made (recording m b hash) w
  := by
  rw [recording]
  cases hm : m.manifest with
  | none => exact .pure tree ()
  | some manifest =>
      apply within_explaining
      apply Within.bind (.of_left_eq tree (left_resolve b.file w))
      rintro file w₁ - h₁
      apply Within.bind (.of_left_eq h₁.files.tree (left_resolve b.copy w₁))
      rintro copy w₂ - h₂
      apply Manifest.within_add h₂.files.tree
      · rw [Manifest.places_congr (h₁.trans h₂).files.here]
        intro place hplace
        exact hledger ⟨manifest, hm, hplace⟩
      · rw [Files.onTheWay_congr (h₁.trans h₂).files.here]
        intro place hplace
        exact hway ⟨manifest, hm, hplace⟩

/-- What a backup touches is free, or belongs to the manifest. -/
theorem within_take (tree : w.files.IsTree) (hfile : file.names ≠ [])
    (hspare : spare file w ⊆ touched) (hledger : m.ledger w ⊆ touched) (hway : m.ledgerWay w ⊆ made) :
  Within touched made (m.take file) w
  := by
  rw [Within, take_apply m hfile]
  apply Within.bind (within_freshPath tree _ _ _)
  intro copy w₁ hfresh h₁
  obtain ⟨drawn, -, rfl, hnot, mark, hmark, hpath⟩ :=
    freshPath_eq_ok hfile ⟨_, .inl rfl, rfl⟩ hfresh
  apply Within.bind (within_copying h₁.files.tree (doesExist_congr hnot rfl) hmark hpath hspare)
  rintro hashes w₂ - h₂
  split
  · exact .throw h₂.files.tree _
  · apply Within.bind (within_token h₂.files.tree)
    rintro token w₃ - h₃
    apply Within.bind
    · apply within_recording h₃.files.tree
      · rw [ledger_congr (h₂.trans h₃).files.here]
        exact hledger
      · rw [ledgerWay_congr (h₂.trans h₃).files.here]
        exact hway
    · rintro _ w₄ - h₄
      exact .pure h₄.files.tree _

/-- What a copy is when it was made and is not recorded yet: it lies at a place that was free, and
has the contents of the stylesheet. -/
structure Copied (file : Path) (w : World) (b : Backup) (bytes : List UInt8) (w' : World) :
    Prop where
  origin : b.file = file
  stamp : b.stamp = w.now.stamp
  path : ∃ mark, IsMark w mark ∧ b.copy = copyPath file mark
  original : w.Holds file bytes
  free : w.files.placeOf b.copy ∈ spare file w
  held : w'.Holds b.copy bytes
  becomes : w.Becomes {w.files.placeOf b.copy} ∅ w'

/-- A copy made to a path that was found, with an identifier drawn, is made. -/
theorem exists_copied (tree : w.files.IsTree) {drawn : Nat} (hdrawn : w.drawn ≤ drawn)
    (hnot : doesExist copy w = .ok false w) (hcopy : ∃ mark, IsMark w mark ∧ copy = copyPath file mark)
    {hashes : String × String} (h : copying file copy { w with drawn } = .ok hashes w') :
  ∃ bytes, hashes.2 = Digest.Sha256.digest bytes
    ∧ Copied file w { file, copy, stamp := w.now.stamp, id := nextId w.now.stamp w' } bytes
      { w' with drawn := w'.drawn + 1 }
  := by
  obtain ⟨bytes, horiginal, hheld, hdigest, hnone, hbecomes⟩ :=
    of_copying (w := { w with drawn }) tree (doesExist_congr hnot rfl) h
  refine ⟨bytes, hdigest, ?_⟩
  constructor
  · rfl
  · rfl
  · exact hcopy
  · exact ⟨horiginal.noNull, horiginal.reaches, horiginal.bytes⟩
  · obtain ⟨mark, hmark, rfl⟩ := hcopy
    exact ⟨hnone, mark, hmark, rfl⟩
  · exact ⟨hheld.noNull, hheld.reaches, hheld.bytes⟩
  · exact ⟨hbecomes.files, hbecomes.now, hbecomes.tokens,
      Nat.le_succ_of_le (Nat.le_trans hdrawn hbecomes.drawn)⟩

/-- A backup that was taken is a copy that was made and then recorded. -/
theorem of_take (tree : w.files.IsTree) (hfile : file.names ≠ []) {b : Backup}
    (h : m.take file w = .ok b w') :
  ∃ bytes w₁, Copied file w b bytes w₁ ∧ recording m b (Digest.Sha256.digest bytes) w₁ = .ok () w'
  := by
  rw [take_apply m hfile] at h
  obtain ⟨copy, w₁, hfresh, h⟩ := bind_eq_ok_iff.mp h
  obtain ⟨drawn, hdrawn, rfl, hnot, hcopy⟩ := freshPath_eq_ok hfile ⟨_, .inl rfl, rfl⟩ hfresh
  obtain ⟨hashes, w₂, hcopying, h⟩ := bind_eq_ok_iff.mp h
  obtain ⟨bytes, hdigest, hcopied⟩ := exists_copied tree hdrawn hnot hcopy hcopying
  split at h
  · cases h
  · obtain ⟨token, w₃, htoken, h⟩ := bind_eq_ok_iff.mp h
    obtain ⟨rfl, rfl⟩ := EStateM.Result.ok.inj (token_apply w₂ ▸ htoken)
    obtain ⟨_, w₄, hrecording, h⟩ := bind_eq_ok_iff.mp h
    obtain ⟨rfl, rfl⟩ := EStateM.Result.ok.inj h
    rw [hdigest] at hrecording
    exact ⟨bytes, _, hcopied, hrecording⟩

/-- Where a backup could not be taken, nothing was made but the copy, or that could not be recorded. -/
theorem of_take_eq_error (tree : w.files.IsTree) (hfile : file.names ≠ []) {fault : Fault}
    (h : m.take file w = .error fault w') :
  w.Becomes (spare file w) ∅ w'
    ∨ ∃ b bytes w₁, Copied file w b bytes w₁
      ∧ recording m b (Digest.Sha256.digest bytes) w₁ = .error fault w'
  := by
  rw [take_apply m hfile] at h
  rcases bind_eq_error_iff.mp h with hfresh | ⟨copy, w₁, hfresh, h⟩
  · exact .inl ((within_freshPath tree _ _ _).of_error hfresh)
  · have h₁ : w.Becomes (spare file w) ∅ w₁ := (within_freshPath tree _ _ _).of_ok hfresh
    obtain ⟨drawn, hdrawn, rfl, hnot, mark, hmark, hpath⟩ :=
      freshPath_eq_ok hfile ⟨_, .inl rfl, rfl⟩ hfresh
    have hcopying : Within (spare file w) ∅ (copying file copy) { w with drawn } :=
      within_copying h₁.files.tree (doesExist_congr hnot rfl) hmark hpath (Set.Subset.refl _)
    rcases bind_eq_error_iff.mp h with hfailed | ⟨hashes, w₂, hcopied, h⟩
    · exact .inl (h₁.trans (hcopying.of_error hfailed))
    · obtain ⟨bytes, hdigest, hcopied'⟩ :=
        exists_copied tree hdrawn hnot ⟨mark, hmark, hpath⟩ hcopied
      split at h
      · obtain ⟨-, rfl⟩ := EStateM.Result.error.inj h
        exact .inl (h₁.trans (hcopying.of_ok hcopied))
      · rcases bind_eq_error_iff.mp h with htoken | ⟨token, w₃, htoken, h⟩
        · rw [token_apply] at htoken
          cases htoken
        · obtain ⟨rfl, rfl⟩ := EStateM.Result.ok.inj (token_apply w₂ ▸ htoken)
          rcases bind_eq_error_iff.mp h with hrecording | ⟨_, w₄, -, hpure⟩
          · rw [hdigest] at hrecording
            exact .inr ⟨_, bytes, _, hcopied', hrecording⟩
          · cases hpure

end BackupStore

end StylePrune
