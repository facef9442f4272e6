import GelCli.LocalBackup.Listing

/-!
# Listing and good backups

`Good` backups are the completed ones and those that still run and have refreshed
their metadata within the timeout. `list_backups` may remove one: it reads
`backup.json` between the two halves of a rewrite, the clock is stepped, or the
backup goes on after it was found dead. `Undisturbed` says of a step that it is
none of these, and in a run of such steps no good backup is removed.
-/

namespace GelCli.LocalBackup

open GelCli.Foundation

variable {Uuid Lister : Type} [DecidableEq Uuid] [DecidableEq Lister]

set_option linter.unusedSectionVars false

namespace State

def Completed (s : State Uuid Lister) (id : Uuid) : Prop :=
  ∃ process, s.processes id = some process ∧ process.phase = .completed

/-- The backup still runs and its metadata was refreshed within the timeout. -/
def Fresh (s : State Uuid Lister) (id : Uuid) : Prop :=
  ∃ process refreshed, s.processes id = some process ∧ process.phase ≠ .stopped ∧
    process.refreshedAt = some refreshed ∧ s.time - refreshed ≤ backupTimeout

def Good (s : State Uuid Lister) (id : Uuid) : Prop := s.Completed id ∨ s.Fresh id

/-- A listing is about to remove the directory of the backup, or has opened it for
removal. -/
def Marked (s : State Uuid Lister) (id : Uuid) : Prop :=
  ∃ l, (∃ name ∈ (s.listings l).toRemove, s.names name = some (.backup id)) ∨
    (s.listings l).opened = some (.backup id)

/-- The completion of the backup is in its `backup.json`. -/
def Recorded (s : State Uuid Lister) (id : Uuid) : Prop :=
  ∃ metadata, s.document (.backup id) = some (.written metadata) ∧ metadata.completedAt.isSome

/-- `backup.json` is whole, and since its time stamp the clock has gone forward and
by no more than the time that has passed. -/
def Readable (s : State Uuid Lister) (id : Uuid) (now : SystemTime) : Prop :=
  ∃ process refreshed metadata, s.processes id = some process ∧
    process.refreshedAt = some refreshed ∧
    s.document (.backup id) = some (.written metadata) ∧
    metadata.lastUpdatedAt ≤ now ∧
    now - metadata.lastUpdatedAt ≤ ((s.time - refreshed : Nat) : Int)

end State

/-- A listing reads the metadata of a running, fresh backup only while that is
readable, and no backup refreshes its metadata while it is marked. -/
def Undisturbed (s : State Uuid Lister) : Event Uuid Lister → Prop
  | .readMetadata l now =>
      ∀ name uuid pending toRemove backups,
        s.listings l = .reading name uuid pending toRemove backups →
        ∀ id, s.names name = some (.backup id) → s.Fresh id → ¬ s.Completed id →
          s.Readable id now
  | .writeMetadata id => ¬ s.Marked id
  | _ => True

/-- The step removes the contents of the directory of a backup. -/
def Removes (s : State Uuid Lister) (e : Event Uuid Lister) (id : Uuid) : Prop :=
  ∃ l, e = .removeAll l ∧ (s.listings l).opened = some (.backup id)

variable (U : UuidText Uuid)

/-! ## The invariant -/

structure Sound (s : State Uuid Lister) : Prop where
  named : ∀ name id, s.names name = some (.backup id) →
    name = U.tempName id ∨ name = U.targetName id
  target : ∀ id, s.names (U.targetName id) ≠ none → s.Completed id
  seen : ∀ l id, U.targetName id ∈ (s.listings l).seen → s.Completed id
  opened : ∀ l name id toRemove backups,
    s.listings l = .clearing name (.backup id) toRemove backups → name = U.tempName id
  writing : ∀ id process, s.processes id = some process → process.writing = true →
    s.names (U.tempName id) = some (.backup id) →
    s.document (.backup id) = some .truncated
  finalizing : ∀ id process, s.processes id = some process → process.phase = .finalizing →
    process.metadata.completedAt.isSome
  finalized : ∀ id process, s.processes id = some process → process.phase = .finalized →
    s.names (U.tempName id) = some (.backup id) → s.Recorded id
  completed : ∀ id, s.Completed id → s.Recorded id
  unmarked : ∀ id, s.Marked id → ¬ s.Recorded id ∧ ¬ s.Fresh id

variable {U} {s s' : State Uuid Lister} {l : Lister} {id : Uuid}

theorem sound_of_initial (h : Initial U s) : Sound U s where
  named := h.named
  target := h.target
  seen := by
    intro l id hmem
    rw [h.idle] at hmem
    cases hmem
  opened := by
    intro l name id toRemove backups hl
    rw [h.idle] at hl
    cases hl
  writing := by
    intro id process hprocess hwriting
    rw [(h.settled id process hprocess).2] at hwriting
    cases hwriting
  finalizing := by
    intro id process hprocess hphase
    rcases (h.settled id process hprocess).1 with hsettled | hsettled <;>
      rw [hsettled] at hphase <;> cases hphase
  finalized := by
    intro id process hprocess hphase
    rcases (h.settled id process hprocess).1 with hsettled | hsettled <;>
      rw [hsettled] at hphase <;> cases hphase
  completed := fun id ⟨process, hprocess, hphase⟩ => h.recorded id process hprocess hphase
  unmarked := by
    rintro id ⟨l, ⟨name, hmem, -⟩ | hopened⟩
    · rw [h.idle] at hmem
      cases hmem
    · rw [h.idle] at hopened
      cases hopened

/-! ## Steps of a listing -/

/-- A listing that moves on without touching the directory. -/
theorem Sound.setListing (h : Sound U s) {listing : Listing Uuid}
    (hseen : ∀ id, U.targetName id ∈ listing.seen → s.Completed id)
    (hopened : ∀ name id toRemove backups,
      listing = .clearing name (.backup id) toRemove backups → name = U.tempName id)
    (hmarked : ∀ id, ((∃ name ∈ listing.toRemove, s.names name = some (.backup id)) ∨
      listing.opened = some (.backup id)) → ¬ s.Recorded id ∧ ¬ s.Fresh id) :
    Sound U (s.setListing l listing) where
  named := h.named
  target := h.target
  seen := by
    intro l' id hmem
    by_cases hl : l' = l
    · subst hl
      exact hseen id (by simpa [State.setListing] using hmem)
    · exact h.seen l' id (by simpa [State.setListing, hl] using hmem)
  opened := by
    intro l' name id toRemove backups hl'
    by_cases hl : l' = l
    · subst hl
      exact hopened name id toRemove backups (by simpa [State.setListing] using hl')
    · exact h.opened l' name id toRemove backups (by simpa [State.setListing, hl] using hl')
  writing := h.writing
  finalizing := h.finalizing
  finalized := h.finalized
  completed := h.completed
  unmarked := by
    rintro id ⟨l', hmark⟩
    by_cases hl : l' = l
    · subst hl
      exact hmarked id (by simpa [State.setListing] using hmark)
    · exact h.unmarked id ⟨l', by simpa [State.setListing, hl] using hmark⟩

/-- A listing that moves on and puts nothing more on its list. -/
theorem Sound.setListing_of_subset (h : Sound U s) {listing : Listing Uuid}
    (hseen : ∀ id, U.targetName id ∈ listing.seen → s.Completed id)
    (hopened : listing.opened = none)
    (hsubset : ∀ name ∈ listing.toRemove, name ∈ (s.listings l).toRemove) :
    Sound U (s.setListing l listing) := by
  refine h.setListing hseen ?_ ?_
  · rintro name id toRemove backups rfl
    cases hopened
  · rintro id (⟨name, hmem, hname⟩ | hinode)
    · exact h.unmarked id ⟨l, .inl ⟨name, hsubset name hmem, hname⟩⟩
    · rw [hopened] at hinode
      cases hinode

/-- A name goes on the list: it names no good backup. -/
theorem Sound.setListing_concat (h : Sound U s) {listing : Listing Uuid} (name : Text)
    (hseen : ∀ id, U.targetName id ∈ listing.seen → s.Completed id)
    (hopened : listing.opened = none)
    (htoRemove : listing.toRemove = (s.listings l).toRemove ++ [name])
    (hname : ∀ id, s.names name = some (.backup id) → ¬ s.Recorded id ∧ ¬ s.Fresh id) :
    Sound U (s.setListing l listing) := by
  refine h.setListing hseen ?_ ?_
  · rintro name id toRemove backups rfl
    cases hopened
  · rintro id (⟨name', hmem, hname'⟩ | hinode)
    · rw [htoRemove, List.mem_append, List.mem_singleton] at hmem
      rcases hmem with hmem | rfl
      · exact h.unmarked id ⟨l, .inl ⟨name', hmem, hname'⟩⟩
      · exact hname id hname'
    · rw [hopened] at hinode
      cases hinode

theorem sound_startList (h : Sound U s) (hstep : startList s l = some s') : Sound U s' := by
  unfold startList at hstep
  split at hstep <;> cases hstep <;>
    exact h.setListing_of_subset (by simp [Listing.seen]) rfl (by simp [Listing.toRemove])

theorem sound_readDir (h : Sound U s) {names : List Text}
    (hstep : readDir s l names = some s') : Sound U s' := by
  unfold readDir at hstep
  split at hstep
  · next pending toRemove backups hl =>
    split at hstep
    · next hnames =>
      cases hstep
      refine h.setListing_of_subset ?_ rfl (by simp [hl, Listing.toRemove])
      intro id hmem
      simp only [Listing.seen, List.append_assoc, List.mem_append] at hmem
      rcases hmem with hmem | hmem | hmem
      · exact h.seen l id (by simp [hl, Listing.seen, hmem])
      · -- a name that is there
        have hthere := List.all_eq_true.mp hnames _ hmem
        exact h.target id (Option.isSome_iff_ne_none.mp hthere)
      · exact h.seen l id (by simp [hl, Listing.seen, hmem])
    · cases hstep
  · cases hstep

theorem sound_stat (h : Sound U s) (hstep : stat U s l = some s') : Sound U s' := by
  unfold stat at hstep
  split at hstep
  case h_2 => cases hstep
  next name pending toRemove backups hl =>
  have hseen : ∀ id, U.targetName id ∈ name :: pending ++ toRemove → s.Completed id :=
    fun id hmem => h.seen l id (by simpa [hl, Listing.seen] using hmem)
  have hparse : U.parseName name = some none →
      ∀ id, s.names name = some (.backup id) → ¬ s.Recorded id ∧ ¬ s.Fresh id := by
    intro hnone id hname
    rcases h.named name id hname with rfl | rfl
    · rw [U.parseName_tempName] at hnone
      cases hnone
    · rw [U.parseName_targetName] at hnone
      cases hnone
  split at hstep
  · next hname =>
    cases hstep
    refine h.setListing_concat name ?_ rfl (by simp [hl, Listing.toRemove]) ?_
    · intro id hmem
      exact hseen id (by simpa [Listing.seen, or_comm, or_assoc, or_left_comm] using hmem)
    · intro id hid
      rw [hname] at hid
      cases hid
  · cases hstep
    refine h.setListing_of_subset ?_ rfl (by simp [hl, Listing.toRemove])
    exact fun id hmem => hseen id (List.mem_cons_of_mem _ hmem)
  all_goals
    split at hstep <;> cases hstep
    · exact h.setListing_of_subset (by simp [Listing.seen]) rfl (by simp [Listing.toRemove])
    · next hnone =>
      refine h.setListing_concat name ?_ rfl (by simp [hl, Listing.toRemove])
        (hparse hnone)
      intro id hmem
      exact hseen id (by simpa [Listing.seen, or_comm, or_assoc, or_left_comm] using hmem)
    · exact h.setListing_of_subset hseen rfl (by simp [hl, Listing.toRemove])

/-- A fresh backup with readable metadata, and a recorded one, are read. -/
theorem fromFile_of_recorded (now : SystemTime) (h : s.Recorded id) :
    ∃ metadata, BackupMetadata.fromFile (s.document (.backup id)) now = .ok metadata := by
  obtain ⟨metadata, hdocument, hcompleted⟩ := h
  refine ⟨metadata, ?_⟩
  rw [hdocument, BackupMetadata.fromFile, Option.isNone_eq_false_iff.mpr hcompleted]
  rfl

theorem fromFile_of_readable {now : SystemTime} (h : s.Readable id now) (hfresh : s.Fresh id) :
    ∃ metadata, BackupMetadata.fromFile (s.document (.backup id)) now = .ok metadata := by
  obtain ⟨process, refreshed, metadata, hprocess, hrefreshed, hdocument, hle, hsub⟩ := h
  obtain ⟨process', refreshed', hprocess', -, hrefreshed', hfresh⟩ := hfresh
  obtain rfl : process = process' := Option.some_inj.mp (hprocess.symm.trans hprocess')
  obtain rfl : refreshed = refreshed' := Option.some_inj.mp (hrefreshed.symm.trans hrefreshed')
  have helapsed : (SystemTime.elapsed now metadata.lastUpdatedAt).getD Duration.max ≤
      backupTimeout :=
    SystemTime.elapsed_getD_le hle (hsub.trans (by exact_mod_cast hfresh))
  refine ⟨metadata, ?_⟩
  rw [hdocument, BackupMetadata.fromFile, decide_eq_false (not_lt.mpr helapsed), Bool.and_false]
  rfl

theorem sound_readMetadata (h : Sound U s) {now : SystemTime}
    (hguard : Undisturbed s (.readMetadata l now))
    (hstep : readMetadata U s l now = some s') : Sound U s' := by
  unfold readMetadata at hstep
  split at hstep
  case h_2 => cases hstep
  next name uuid pending toRemove backups hl =>
  have hseen : ∀ id, U.targetName id ∈ name :: pending ++ toRemove → s.Completed id :=
    fun id hmem => h.seen l id (by simpa [hl, Listing.seen] using hmem)
  split at hstep <;> cases hstep
  · next hread =>
    refine h.setListing_concat name ?_ rfl (by simp [hl, Listing.toRemove]) ?_
    · intro id hmem
      exact hseen id (by simpa [Listing.seen, or_comm, or_assoc, or_left_comm] using hmem)
    · intro id hid
      rw [hid, Option.bind_some] at hread
      have hrecorded : ¬ s.Recorded id := by
        intro hrecorded
        obtain ⟨metadata, hok⟩ := fromFile_of_recorded now hrecorded
        rw [hok] at hread
        cases hread
      refine ⟨hrecorded, fun hfresh => ?_⟩
      have hreadable := hguard name uuid pending toRemove backups hl id hid hfresh
        (mt (h.completed id) hrecorded)
      obtain ⟨metadata, hok⟩ := fromFile_of_readable hreadable hfresh
      rw [hok] at hread
      cases hread
  · refine h.setListing_of_subset ?_ rfl (by simp [hl, Listing.toRemove])
    exact fun id hmem => hseen id (List.mem_cons_of_mem _ hmem)

theorem sound_endScan (h : Sound U s) (hstep : endScan s l = some s') : Sound U s' := by
  unfold endScan at hstep
  split at hstep
  · next toRemove backups hl =>
    cases hstep
    refine h.setListing_of_subset ?_ rfl (by simp [hl, Listing.toRemove])
    exact fun id hmem => h.seen l id (by simpa [hl, Listing.seen] using hmem)
  · cases hstep

theorem sound_finishList (h : Sound U s) (hstep : finishList s l = some s') : Sound U s' := by
  unfold finishList at hstep
  split at hstep <;> cases hstep
  exact h.setListing_of_subset (by simp [Listing.seen]) rfl (by simp [Listing.toRemove])

/-- A name that still names a backup's directory when it is opened for removal is that
of its temporary directory: a completed backup is on no list. -/
theorem Sound.tempName_of_mem (h : Sound U s) {name : Text}
    (hmem : name ∈ (s.listings l).toRemove) (hname : s.names name = some (.backup id)) :
    name = U.tempName id := by
  rcases h.named name id hname with htemp | htarget
  · exact htemp
  · have hcompleted : s.Completed id := h.target id (by rw [← htarget, hname]; simp)
    exact absurd (h.completed id hcompleted) (h.unmarked id ⟨l, .inl ⟨name, hmem, hname⟩⟩).1

theorem sound_openRemoved (h : Sound U s) (hstep : openRemoved s l = some s') : Sound U s' := by
  unfold openRemoved at hstep
  split at hstep
  case h_2 => cases hstep
  next name toRemove backups hl =>
  have hhead : name ∈ (s.listings l).toRemove := by simp [hl, Listing.toRemove]
  have htail : ∀ name ∈ toRemove, name ∈ (s.listings l).toRemove := by
    intro name hmem
    simp [hl, Listing.toRemove, hmem]
  have hseen : ∀ id, U.targetName id ∈ toRemove → s.Completed id :=
    fun id hmem => h.seen l id (by simp [hl, Listing.seen, hmem])
  split at hstep <;> cases hstep
  · exact h.setListing_of_subset hseen rfl htail
  · exact h.setListing_of_subset hseen rfl htail
  · next inode _ hname =>
    refine h.setListing hseen ?_ ?_
    · intro name' id _ _ hl'
      cases hl'
      exact h.tempName_of_mem hhead hname
    · rintro id (⟨name', hmem, hname'⟩ | hopened)
      · exact h.unmarked id ⟨l, .inl ⟨name', htail name' hmem, hname'⟩⟩
      · cases hopened
        exact h.unmarked id ⟨l, .inl ⟨name, hhead, hname⟩⟩

/-! ## Removing -/

theorem Sound.unlink (h : Sound U s) (name : Text) :
    Sound U { s with names := s.names.unlink name } where
  named := fun name' id hname => h.named name' id (Directory.of_unlink_eq_some hname)
  target := by
    intro id htarget
    obtain ⟨inode, hinode⟩ := Option.ne_none_iff_exists'.mp htarget
    exact h.target id (by rw [Directory.of_unlink_eq_some hinode]; simp)
  seen := h.seen
  opened := h.opened
  writing := fun id process hprocess hwriting hname =>
    h.writing id process hprocess hwriting (Directory.of_unlink_eq_some hname)
  finalizing := h.finalizing
  finalized := fun id process hprocess hphase hname =>
    h.finalized id process hprocess hphase (Directory.of_unlink_eq_some hname)
  completed := h.completed
  unmarked := by
    rintro id ⟨l, ⟨name', hmem, hname⟩ | hopened⟩
    · exact h.unmarked id ⟨l, .inl ⟨name', hmem, Directory.of_unlink_eq_some hname⟩⟩
    · exact h.unmarked id ⟨l, .inr hopened⟩

/-- The contents of a directory go that is opened for removal and not named any more. -/
theorem Sound.clearDocument (h : Sound U s) {inode : Inode Uuid}
    (hopened : (s.listings l).opened = some inode)
    (hnamed : ∀ id, inode = .backup id → s.names (U.tempName id) ≠ some inode) :
    Sound U (s.setDocument inode none) := by
  have hother : ∀ id, inode ≠ .backup id →
      (s.setDocument inode none).document (.backup id) = s.document (.backup id) :=
    fun id hne => by simp [State.setDocument, Ne.symm hne]
  have hunmarked : ∀ id, inode = .backup id → ¬ s.Recorded id ∧ ¬ s.Fresh id :=
    fun id hinode => h.unmarked id ⟨l, .inr (by rw [hopened, hinode])⟩
  have hrecorded : ∀ id, s.Recorded id → (s.setDocument inode none).Recorded id := by
    intro id hid
    have hne : inode ≠ .backup id := fun hinode => (hunmarked id hinode).1 hid
    obtain ⟨metadata, hdocument, hcompleted⟩ := hid
    exact ⟨metadata, (hother id hne).trans hdocument, hcompleted⟩
  refine ⟨h.named, h.target, h.seen, h.opened, ?_, h.finalizing, ?_, ?_, ?_⟩
  · intro id process hprocess hwriting hname
    have hne : inode ≠ .backup id := by
      rintro rfl
      exact hnamed id rfl hname
    exact (hother id hne).trans (h.writing id process hprocess hwriting hname)
  · exact fun id process hprocess hphase hname =>
      hrecorded id (h.finalized id process hprocess hphase hname)
  · exact fun id hcompleted => hrecorded id (h.completed id hcompleted)
  · intro id hmarked
    refine ⟨?_, (h.unmarked id hmarked).2⟩
    rintro ⟨metadata, hdocument, hcompleted⟩
    by_cases hinode : inode = .backup id
    · subst hinode
      simp [State.setDocument] at hdocument
    · exact (h.unmarked id hmarked).1
        ⟨metadata, (hother id hinode).symm.trans hdocument, hcompleted⟩

theorem sound_removeAll (h : Sound U s) (hstep : removeAll s l = some s') : Sound U s' := by
  unfold removeAll at hstep
  split at hstep
  case h_2 => cases hstep
  next name inode toRemove backups hl =>
  have hdone : ∀ {t : State Uuid Lister}, Sound U t → t.listings l = s.listings l →
      Sound U (t.setListing l (.removing toRemove backups)) := by
    intro t ht htl
    refine ht.setListing_of_subset ?_ rfl (by simp [htl, hl, Listing.toRemove])
    exact fun id hmem => ht.seen l id (by simpa [htl, hl, Listing.seen] using hmem)
  have htemp : ∀ id, inode = .backup id → name = U.tempName id := by
    rintro id rfl
    exact h.opened l name id toRemove backups hl
  split at hstep <;> cases hstep
  · have hunlinked := h.unlink name
    refine hdone (hunlinked.clearDocument (l := l) (by simp [hl, Listing.opened]) ?_) rfl
    intro id hinode
    rw [← htemp id hinode]
    simp
  · next hname =>
    refine hdone (h.clearDocument (l := l) (by simp [hl, Listing.opened]) ?_) rfl
    intro id hinode
    rwa [← htemp id hinode]

/-! ## Steps of a backup -/

theorem setDocument_self (inode : Inode Uuid) : s.setDocument inode (s.document inode) = s := by
  simp [State.setDocument]

/-- The backup `id` moves on within its directory. -/
theorem Sound.setBackup (h : Sound U s) {process : Process} {document : Option Document}
    (hcompleted : s.Completed id → process.phase = .completed)
    (hwriting : process.writing = true → s.names (U.tempName id) = some (.backup id) →
      document = some .truncated)
    (hfinalizing : process.phase = .finalizing → process.metadata.completedAt.isSome)
    (hrecorded : process.phase = .completed ∨
        process.phase = .finalized ∧ s.names (U.tempName id) = some (.backup id) →
      ∃ metadata, document = some (.written metadata) ∧ metadata.completedAt.isSome)
    (hmarked : s.Marked id →
      (∀ metadata, document = some (.written metadata) → metadata.completedAt.isSome = false) ∧
      (process.phase = .stopped ∨ s.processes id = none ∧ process.refreshedAt = none ∨
        ∃ old, s.processes id = some old ∧ (old.phase = .stopped → process.phase = .stopped) ∧
          process.refreshedAt = old.refreshedAt)) :
    Sound U ((s.setDocument (.backup id) document).setProcess id process) := by
  -- the two tables at the backup itself, and away from it
  have hprocess : ((s.setDocument (.backup id) document).setProcess id process).processes id =
      some process := by
    simp [State.setProcess, State.setDocument]
  have hdocument : ((s.setDocument (.backup id) document).setProcess id process).document
      (.backup id) = document := by
    simp [State.setProcess, State.setDocument]
  have hprocess' : ∀ {id'}, id' ≠ id →
      ((s.setDocument (.backup id) document).setProcess id process).processes id' =
        s.processes id' := by
    intro id' hne
    simp [State.setProcess, State.setDocument, hne]
  have hdocument' : ∀ {id'}, id' ≠ id →
      ((s.setDocument (.backup id) document).setProcess id process).document (.backup id') =
        s.document (.backup id') := by
    intro id' hne
    simp [State.setProcess, State.setDocument, hne]
  -- completed backups stay completed, recorded ones stay recorded
  have hmono : ∀ id', s.Completed id' →
      ((s.setDocument (.backup id) document).setProcess id process).Completed id' := by
    intro id' hid'
    by_cases hne : id' = id
    · subst hne
      exact ⟨process, hprocess, hcompleted hid'⟩
    · obtain ⟨old, hold, hphase⟩ := hid'
      exact ⟨old, (hprocess' hne).trans hold, hphase⟩
  have hkeep : ∀ {id'}, id' ≠ id → s.Recorded id' →
      ((s.setDocument (.backup id) document).setProcess id process).Recorded id' := by
    rintro id' hne ⟨metadata, hwritten, hisSome⟩
    exact ⟨metadata, (hdocument' hne).trans hwritten, hisSome⟩
  refine ⟨h.named, fun id' hne => hmono id' (h.target id' hne),
    fun l id' hmem => hmono id' (h.seen l id' hmem), h.opened, ?_, ?_, ?_, ?_, ?_⟩
  · intro id' process' hprocess₁ hwriting₁ hname
    by_cases hne : id' = id
    · subst hne
      cases hprocess.symm.trans hprocess₁
      exact hdocument.trans (hwriting hwriting₁ hname)
    · exact (hdocument' hne).trans
        (h.writing id' process' ((hprocess' hne).symm.trans hprocess₁) hwriting₁ hname)
  · intro id' process' hprocess₁ hphase
    by_cases hne : id' = id
    · subst hne
      cases hprocess.symm.trans hprocess₁
      exact hfinalizing hphase
    · exact h.finalizing id' process' ((hprocess' hne).symm.trans hprocess₁) hphase
  · intro id' process' hprocess₁ hphase hname
    by_cases hne : id' = id
    · subst hne
      cases hprocess.symm.trans hprocess₁
      obtain ⟨metadata, hwritten, hisSome⟩ := hrecorded (.inr ⟨hphase, hname⟩)
      exact ⟨metadata, hdocument.trans hwritten, hisSome⟩
    · exact hkeep hne
        (h.finalized id' process' ((hprocess' hne).symm.trans hprocess₁) hphase hname)
  · rintro id' ⟨process', hprocess₁, hphase⟩
    by_cases hne : id' = id
    · subst hne
      cases hprocess.symm.trans hprocess₁
      obtain ⟨metadata, hwritten, hisSome⟩ := hrecorded (.inl hphase)
      exact ⟨metadata, hdocument.trans hwritten, hisSome⟩
    · exact hkeep hne (h.completed id' ⟨process', (hprocess' hne).symm.trans hprocess₁, hphase⟩)
  · intro id' hmarked₁
    have hold := h.unmarked id' hmarked₁
    by_cases hne : id' = id
    · -- the backup is marked: its document says no more than it did, and it is as stale as before
      subst hne
      obtain ⟨hnot, hstale⟩ := hmarked hmarked₁
      constructor
      · rintro ⟨metadata, hwritten, hisSome⟩
        rw [hnot metadata (hdocument.symm.trans hwritten)] at hisSome
        cases hisSome
      · rintro ⟨process', refreshed, hprocess₁, hphase, hrefreshed, hfresh⟩
        cases hprocess.symm.trans hprocess₁
        rcases hstale with hstopped | ⟨-, hnone⟩ | ⟨old, hold₁, hphase₁, hsame⟩
        · exact hphase hstopped
        · rw [hnone] at hrefreshed
          cases hrefreshed
        · exact hold.2 ⟨old, refreshed, hold₁, mt hphase₁ hphase,
            hsame.symm.trans hrefreshed, hfresh⟩
    · constructor
      · rintro ⟨metadata, hwritten, hisSome⟩
        exact hold.1 ⟨metadata, (hdocument' hne).symm.trans hwritten, hisSome⟩
      · rintro ⟨process', refreshed, hprocess₁, hrest⟩
        exact hold.2 ⟨process', refreshed, (hprocess' hne).symm.trans hprocess₁, hrest⟩

/-- The directory of a backup that has written nothing yet appears. -/
theorem Sound.link (h : Sound U s) {process : Process} (hprocess : s.processes id = some process)
    (hphase : process.phase = .created) (hwriting : process.writing = false)
    (hrefreshed : process.refreshedAt = none) (hdocument : s.document (.backup id) = none) :
    Sound U { s with names := s.names.link (U.tempName id) (.backup id) } := by
  -- only the temporary name is new, and it leads to a backup that has written nothing yet
  have hother : ∀ {name : Text}, name ≠ U.tempName id →
      s.names.link (U.tempName id) (.backup id) name = s.names name :=
    fun hne => Directory.link_of_ne hne
  have hnames : ∀ {name : Text} {id' : Uuid},
      s.names.link (U.tempName id) (.backup id) name = some (.backup id') →
      name = U.tempName id ∧ id' = id ∨ s.names name = some (.backup id') := by
    intro name id' hname
    by_cases hne : name = U.tempName id
    · subst hne
      rw [Directory.link_self] at hname
      cases hname
      exact .inl ⟨rfl, rfl⟩
    · exact .inr ((hother hne).symm.trans hname)
  refine ⟨?_, ?_, h.seen, h.opened, ?_, h.finalizing, ?_, h.completed, ?_⟩
  · intro name id' hname
    rcases hnames hname with ⟨rfl, rfl⟩ | hname
    · exact .inl rfl
    · exact h.named name id' hname
  · intro id' htarget
    have htarget' := (hother (U.targetName_ne_tempName id' id)).symm.trans_ne htarget
    exact h.target id' htarget'
  · intro id' process' hprocess' hwriting' hname
    rcases hnames hname with ⟨-, rfl⟩ | hname
    · rw [hprocess] at hprocess'
      cases hprocess'
      rw [hwriting] at hwriting'
      cases hwriting'
    · exact h.writing id' process' hprocess' hwriting' hname
  · intro id' process' hprocess' hphase' hname
    rcases hnames hname with ⟨-, rfl⟩ | hname
    · rw [hprocess] at hprocess'
      cases hprocess'
      rw [hphase] at hphase'
      cases hphase'
    · exact h.finalized id' process' hprocess' hphase' hname
  · intro id' hmarked
    by_cases hne : id' = id
    · subst hne
      constructor
      · rintro ⟨metadata, hwritten, -⟩
        rw [hdocument] at hwritten
        cases hwritten
      · rintro ⟨process', refreshed, hprocess', -, hrefreshed', -⟩
        rw [hprocess] at hprocess'
        cases hprocess'
        rw [hrefreshed] at hrefreshed'
        cases hrefreshed'
    · obtain ⟨l, ⟨name, hmem, hname⟩ | hopened⟩ := hmarked
      · rcases hnames hname with ⟨-, rfl⟩ | hname
        · exact absurd rfl hne
        · exact h.unmarked id' ⟨l, .inl ⟨name, hmem, hname⟩⟩
      · exact h.unmarked id' ⟨l, .inr hopened⟩

theorem sound_createDir (h : Sound U s) {metadata : BackupMetadata}
    (hstep : createDir U s id metadata = some s') : Sound U s' := by
  unfold createDir at hstep
  split at hstep
  case h_2 => cases hstep
  next hprocess hname =>
  split at hstep <;> cases hstep
  have hset : Sound U ((s.setDocument (.backup id) none).setProcess id
      ⟨.created, false, metadata, s.time, none⟩) := by
    refine h.setBackup ?_ (by simp) (by simp) (by simp) ?_
    · rintro ⟨process, hsome, -⟩
      rw [hprocess] at hsome
      cases hsome
    · exact fun _ => ⟨by simp, .inr (.inl ⟨hprocess, rfl⟩)⟩
  have hcreated : ((s.setDocument (.backup id) none).setProcess id
      ⟨.created, false, metadata, s.time, none⟩).processes id =
        some ⟨.created, false, metadata, s.time, none⟩ := by
    simp [State.setProcess]
  exact hset.link hcreated rfl rfl rfl (by simp [State.setProcess, State.setDocument])

section Steps

variable {process : Process}

/-- A running backup is not a completed one. -/
theorem not_completed (hprocess : s.processes id = some process)
    (hphase : process.phase ≠ .completed) : ¬ s.Completed id := by
  rintro ⟨process', hprocess', hcompleted⟩
  cases hprocess.symm.trans hprocess'
  exact hphase hcompleted

/-- The backup moves on without a file operation that succeeds. -/
theorem Sound.setIdle (h : Sound U s) {process' : Process}
    (hprocess : s.processes id = some process) (hphase : process.phase ≠ .completed)
    (hwriting : process'.writing = false)
    (hphase' : process'.phase = .stopped ∨ process'.phase = .live ∧ process.phase = .live)
    (hrefreshed : process'.refreshedAt = process.refreshedAt) :
    Sound U (s.setProcess id process') := by
  rw [← setDocument_self (s := s) (.backup id)]
  have hrunning : process'.phase ≠ .completed ∧ process'.phase ≠ .finalized ∧
      process'.phase ≠ .finalizing := by
    rcases hphase' with hphase' | ⟨hphase', -⟩ <;> simp [hphase']
  refine h.setBackup (fun hid => absurd hid (not_completed hprocess hphase)) ?_
    (fun hfinalizing => absurd hfinalizing hrunning.2.2) ?_ ?_
  · intro hwriting'
    rw [hwriting] at hwriting'
    cases hwriting'
  · rintro (hcompleted | ⟨hfinalized, -⟩)
    · exact absurd hcompleted hrunning.1
    · exact absurd hfinalized hrunning.2.1
  · intro hmarked
    constructor
    · intro metadata hwritten
      have hrecorded := (h.unmarked id hmarked).1
      exact Bool.eq_false_iff.mpr fun hisSome => hrecorded ⟨metadata, hwritten, hisSome⟩
    · rcases hphase' with hstopped | ⟨-, hlive⟩
      · exact .inl hstopped
      · exact .inr (.inr ⟨process, hprocess, by simp [hlive], hrefreshed⟩)

/-- The backup opens its `backup.json` and truncates it. -/
theorem Sound.truncate (h : Sound U s) {process' : Process}
    (hprocess : s.processes id = some process) (hphase : process.phase ≠ .completed)
    (hrunning : process'.phase ≠ .completed ∧ process'.phase ≠ .finalized)
    (hfinalizing : process'.phase = .finalizing → process'.metadata.completedAt.isSome)
    (hstopped : process.phase ≠ .stopped)
    (hrefreshed : process'.refreshedAt = process.refreshedAt) :
    Sound U ((s.setDocument (.backup id) (some .truncated)).setProcess id process') := by
  refine h.setBackup (fun hid => absurd hid (not_completed hprocess hphase)) (fun _ _ => rfl)
    hfinalizing ?_ ?_
  · rintro (hphase' | ⟨hphase', -⟩)
    · exact absurd hphase' hrunning.1
    · exact absurd hphase' hrunning.2
  · intro _
    constructor
    · intro metadata hwritten
      cases hwritten
    · exact .inr (.inr ⟨process, hprocess, fun h' => absurd h' hstopped, hrefreshed⟩)

theorem sound_openMetadata (h : Sound U s) {now : SystemTime}
    (hstep : openMetadata U s id now = some s') : Sound U s' := by
  obtain ⟨process, hprocess, hstep⟩ := Option.bind_eq_some_iff.mp hstep
  split at hstep
  · cases hstep
  next hwriting =>
  rw [Bool.not_eq_true] at hwriting
  have hphases : process.phase = .created ∨ process.phase = .live := by
    split at hstep <;> simp_all
  have hcompleted : process.phase ≠ .completed := by
    rcases hphases with hphase | hphase <;> rw [hphase] <;> nofun
  have hstopped : process.phase ≠ .stopped := by
    rcases hphases with hphase | hphase <;> rw [hphase] <;> nofun
  split at hstep
  · next hphase =>
    split at hstep <;> cases hstep
    · exact h.truncate hprocess hcompleted (by simp [hphase]) (by simp [hphase]) hstopped rfl
    · exact h.setIdle hprocess hcompleted hwriting (.inl rfl) rfl
  · next hphase =>
    split at hstep <;> cases hstep
    · exact h.truncate hprocess hcompleted (by simp [hphase]) (by simp [hphase]) hstopped rfl
    · exact h.setIdle hprocess hcompleted hwriting (.inr ⟨hphase, hphase⟩) rfl
  all_goals cases hstep

theorem sound_openFinal (h : Sound U s) {now : SystemTime} {size : Nat}
    (hstep : openFinal U s id now size = some s') : Sound U s' := by
  obtain ⟨process, hprocess, hstep⟩ := Option.bind_eq_some_iff.mp hstep
  split at hstep
  · cases hstep
  next hwriting =>
  rw [Bool.not_eq_true] at hwriting
  split at hstep
  case h_2 | h_3 | h_4 | h_5 | h_6 => cases hstep
  next hphase =>
  split at hstep <;> cases hstep
  · exact h.truncate hprocess (by simp [hphase]) (by simp)
      (by simp [BackupMetadata.completed]) (by simp [hphase]) rfl
  · exact h.setIdle hprocess (by simp [hphase]) hwriting (.inl rfl) rfl

/-- A write is not disturbed by a listing that has marked the backup. -/
theorem sound_writeMetadata (h : Sound U s)
    (hguard : Undisturbed s (.writeMetadata id : Event Uuid Lister))
    (hstep : writeMetadata s id = some s') : Sound U s' := by
  obtain ⟨process, hprocess, hstep⟩ := Option.bind_eq_some_iff.mp hstep
  split at hstep
  case isFalse => cases hstep
  next hwriting =>
  have hmarked : ¬ s.Marked id := hguard
  dsimp only at hstep
  have hnot : process.phase ≠ .completed := by
    intro hphase
    simp [hphase] at hstep
  have hset : ∀ phase refreshedAt, phase ≠ .completed → phase ≠ .finalizing →
      (phase = .finalized → process.phase = .finalizing) →
      Sound U ((s.setDocument (.backup id)
        ((s.document (.backup id)).map fun _ => .written process.metadata)).setProcess id
          { process with phase := phase, writing := false, refreshedAt := refreshedAt }) := by
    intro phase refreshedAt hcompleted hfinalizing hfinalized
    refine h.setBackup (fun hid => absurd hid (not_completed hprocess hnot)) nofun
      (fun hphase => absurd hphase hfinalizing) ?_ (fun hid => absurd hid hmarked)
    rintro (hphase | ⟨hphase, hname⟩)
    · exact absurd hphase hcompleted
    · -- the file is the one that was truncated
      have hdocument := h.writing id process hprocess hwriting hname
      exact ⟨process.metadata, by simp [hdocument],
        h.finalizing id process hprocess (hfinalized hphase)⟩
  split at hstep <;> cases hstep
  · exact hset .live _ nofun nofun nofun
  · exact hset .live _ nofun nofun nofun
  · next hphase => exact hset .finalized _ nofun nofun fun _ => hphase

theorem sound_stop (h : Sound U s) {cleanup : Bool} (hstep : stop U s id cleanup = some s') :
    Sound U s' := by
  obtain ⟨process, hprocess, hstep⟩ := Option.bind_eq_some_iff.mp hstep
  split at hstep
  · cases hstep
  next hphase =>
  have hstopped : Sound U (s.setProcess id { process with phase := .stopped, writing := false }) :=
    h.setIdle hprocess hphase rfl (.inl rfl) rfl
  split at hstep <;> cases hstep
  · exact hstopped.unlink _
  · exact hstopped

/-- The directory of a completed backup takes its own name, which no listing has seen. -/
theorem Sound.rename (h : Sound U s) (hcompleted : s.Completed id)
    (htemp : s.names (U.tempName id) = some (.backup id))
    (hunseen : ∀ l, U.targetName id ∉ (s.listings l).toRemove) :
    Sound U { s with names := s.names.rename (U.tempName id) (U.targetName id) } := by
  -- a name of the new directory is the one that was given, or it was there before
  have hnames : ∀ {name : Text} {inode : Inode Uuid},
      s.names.rename (U.tempName id) (U.targetName id) name = some inode →
      name = U.targetName id ∧ inode = .backup id ∨ s.names name = some inode := by
    intro name inode hname
    rcases Directory.of_rename_eq_some hname with ⟨rfl, hold⟩ | ⟨-, hold⟩
    · exact .inl ⟨rfl, Option.some_inj.mp (hold.symm.trans htemp)⟩
    · exact .inr hold
  refine ⟨?_, ?_, h.seen, h.opened, ?_, h.finalizing, ?_, h.completed, ?_⟩
  · intro name id' hname
    rcases hnames hname with ⟨rfl, hinode⟩ | hname
    · cases hinode
      exact .inr rfl
    · exact h.named name id' hname
  · -- only a completed backup has a target name
    intro id' htarget
    obtain ⟨inode, hinode⟩ := Option.ne_none_iff_exists'.mp htarget
    rcases hnames hinode with ⟨heq, -⟩ | hname
    · rw [U.targetName_injective heq]
      exact hcompleted
    · exact h.target id' (by rw [hname]; simp)
  · intro id' process hprocess hwriting hname
    rcases hnames hname with ⟨heq, -⟩ | hname
    · exact absurd heq.symm (U.targetName_ne_tempName id id')
    · exact h.writing id' process hprocess hwriting hname
  · intro id' process hprocess hphase hname
    rcases hnames hname with ⟨heq, -⟩ | hname
    · exact absurd heq.symm (U.targetName_ne_tempName id id')
    · exact h.finalized id' process hprocess hphase hname
  · -- the name that a listing keeps for removal is not the new one
    rintro id' ⟨l, ⟨name, hmem, hname⟩ | hopened⟩
    · rcases hnames hname with ⟨rfl, -⟩ | hname
      · exact absurd hmem (hunseen l)
      · exact h.unmarked id' ⟨l, .inl ⟨name, hmem, hname⟩⟩
    · exact h.unmarked id' ⟨l, .inr hopened⟩

theorem sound_rename (h : Sound U s) (hstep : rename U s id = some s') : Sound U s' := by
  obtain ⟨process, hprocess, hstep⟩ := Option.bind_eq_some_iff.mp hstep
  split at hstep
  case isFalse => cases hstep
  next hphase =>
  have hnot : process.phase ≠ .completed := by
    rw [hphase]
    intro hcompleted
    cases hcompleted
  split at hstep <;> cases hstep
  · next hnames =>
    have hrecorded : s.Recorded id := h.finalized id process hprocess hphase hnames.1
    have hset : Sound U (s.setProcess id { process with phase := .completed }) := by
      rw [← setDocument_self (s := s) (.backup id)]
      refine h.setBackup (fun _ => rfl) ?_ (fun hfinalizing => by cases hfinalizing)
        (fun _ => hrecorded) ?_
      · exact fun hwriting hname => h.writing id process hprocess hwriting hname
      · exact fun hmarked => absurd hrecorded (h.unmarked id hmarked).1
    refine hset.rename ⟨{ process with phase := .completed }, ?_, rfl⟩ hnames.1 ?_
    · simp [State.setProcess]
    · exact fun l hmem =>
        not_completed hprocess hnot (h.seen l id (Listing.mem_seen hmem))
  · exact h.setIdle hprocess hnot rfl (.inl rfl) rfl

end Steps

theorem sound_tick (h : Sound U s) (elapsed : Nat) :
    Sound U { s with time := s.time + elapsed } where
  named := h.named
  target := h.target
  seen := h.seen
  opened := h.opened
  writing := h.writing
  finalizing := h.finalizing
  finalized := h.finalized
  completed := h.completed
  unmarked := by
    intro id hmarked
    obtain ⟨hrecorded, hfresh⟩ := h.unmarked id hmarked
    refine ⟨hrecorded, ?_⟩
    rintro ⟨process, refreshed, hprocess, hphase, hrefreshed, hle⟩
    exact hfresh ⟨process, refreshed, hprocess, hphase, hrefreshed,
      (Nat.sub_le_sub_right (Nat.le_add_right _ _) _).trans hle⟩

theorem sound_next (h : Sound U s) {e : Event Uuid Lister} (hguard : Undisturbed s e)
    (hstep : next U s e = some s') : Sound U s' := by
  cases e with
  | createDir id metadata => exact sound_createDir h hstep
  | openMetadata id now => exact sound_openMetadata h hstep
  | openFinal id now size => exact sound_openFinal h hstep
  | writeMetadata id => exact sound_writeMetadata h hguard hstep
  | rename id => exact sound_rename h hstep
  | stop id cleanup => exact sound_stop h hstep
  | startList l => exact sound_startList h hstep
  | readDir l names => exact sound_readDir h hstep
  | stat l => exact sound_stat h hstep
  | readMetadata l now => exact sound_readMetadata h hguard hstep
  | endScan l => exact sound_endScan h hstep
  | openRemoved l => exact sound_openRemoved h hstep
  | removeAll l => exact sound_removeAll h hstep
  | finishList l => exact sound_finishList h hstep
  | tick elapsed =>
      cases hstep
      exact sound_tick h elapsed

/-! ## Good backups stay -/

theorem Sound.not_good_of_removes (h : Sound U s) {e : Event Uuid Lister}
    (hremoves : Removes s e id) : ¬ s.Good id := by
  obtain ⟨l, -, hopened⟩ := hremoves
  obtain ⟨hrecorded, hfresh⟩ := h.unmarked id ⟨l, .inr hopened⟩
  rintro (hcompleted | hgood)
  · exact hrecorded (h.completed id hcompleted)
  · exact hfresh hgood

/-- **Listing backups removes no good one**, in every run of undisturbed steps: when a
listing removes a directory, it is not that of a completed backup and not that of one
that runs and has refreshed its metadata within the timeout. -/
theorem listBackups_keeps_good (U : UuidText Uuid)
    (h : (backups U Lister).Reachable Undisturbed s) {e : Event Uuid Lister} {id : Uuid}
    (hremoves : Removes s e id) : ¬ s.Good id := by
  have hsound : Sound U s := h.invariant (fun _ => sound_of_initial)
    fun _ _ _ hs hguard hstep => sound_next hs hguard hstep
  exact hsound.not_good_of_removes hremoves

/-! ## Runs -/

section Sample

def emptyDirectory : State Unit Unit where
  names := fun _ => none
  document := fun _ => none
  processes := fun _ => none
  listings := fun _ => .idle
  time := 0

theorem initial_emptyDirectory : Initial sampleText emptyDirectory where
  idle _ := rfl
  settled := by
    intro id process hprocess
    cases hprocess
  named := by
    intro name id hname
    cases hname
  target := fun _ h => (h rfl).elim
  recorded := by
    intro id process hprocess
    cases hprocess

/-- A backup that has just written its metadata. -/
def started : List (Event Unit Unit) :=
  [.createDir () (.starting 0 4242 "6.4".toList), .openMetadata () 0, .writeMetadata ()]

/-- A listing that finds the one directory and reads its metadata. -/
def listed (now : SystemTime) : List (Event Unit Unit) :=
  [.startList (), .readDir () [sampleText.tempName ()], .stat (), .readMetadata () now,
    .endScan (), .openRemoved ()]

/-- A backup is killed before it wrote anything, and its directory is removed. -/
def killed : List (Event Unit Unit) :=
  [.createDir () (.starting 0 4242 "6.4".toList), .stop () false] ++ listed 0

theorem along_killed : (backups sampleText Unit).Along Undisturbed emptyDirectory killed := by
  refine ⟨trivial, _, rfl, trivial, _, rfl, trivial, _, rfl, trivial, _, rfl, trivial, _, rfl,
    ?_, _, rfl, trivial, _, rfl, trivial, _, rfl, trivial⟩
  rintro _ _ _ _ _ - id - ⟨_, _, hprocess, hrunning, -⟩ -
  cases hprocess
  exact absurd rfl hrunning

theorem listBackups_keeps_good_killed :
    ∃ s : State Unit Unit, (backups sampleText Unit).Reachable Undisturbed s ∧
      Removes s (.removeAll ()) () ∧ ¬ s.Good () := by
  have hrun : ∃ s, (backups sampleText Unit).run emptyDirectory killed = some s ∧
      Removes s (.removeAll ()) () := ⟨_, rfl, (), rfl, rfl⟩
  obtain ⟨s, hrun, hremoves⟩ := hrun
  have hreachable : (backups sampleText Unit).Reachable Undisturbed s :=
    (System.Reachable.initial initial_emptyDirectory).along along_killed hrun
  exact ⟨s, hreachable, hremoves, listBackups_keeps_good sampleText hreachable hremoves⟩

/-- A minute later the backup rewrites its metadata, and a listing reads the file
between the truncation and the write. -/
def duringRewrite : List (Event Unit Unit) :=
  started ++ [.tick (Duration.fromSecs 60), .openMetadata () 60000000000] ++ listed 60000000000

theorem listBackups_removes_good :
    ¬ ∀ s : State Unit Unit, (backups sampleText Unit).Reachable System.Free s →
      ∀ e id, Removes s e id → ¬ s.Good id := by
  intro hclaim
  have hgood : ∃ s, (backups sampleText Unit).run emptyDirectory duringRewrite = some s ∧
      Removes s (.removeAll ()) () ∧ s.Good () :=
    ⟨_, rfl, ⟨(), rfl, rfl⟩, .inr ⟨_, _, rfl, by decide, rfl, by decide⟩⟩
  obtain ⟨s, hrun, hremoves, hgood⟩ := hgood
  have hreachable : (backups sampleText Unit).Reachable System.Free s :=
    (System.Reachable.initial initial_emptyDirectory).run hrun
  exact hclaim s hreachable _ () hremoves hgood

end Sample

end GelCli.LocalBackup
