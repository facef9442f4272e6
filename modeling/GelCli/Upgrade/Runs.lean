import GelCli.Upgrade.Undo

/-!
# Runs of upgrades and reverts

The commands one after the other on one instance. `Undoable` is what is promised
after each of them: the data is kept, a failed upgrade can be reverted, and after an
upgrade that moved nothing and after a completed revert the instance counts as
normal and can be upgraded again.
-/

namespace GelCli.Upgrade

open GelCli.Foundation

variable {Data : Type} {faults : Faults Data}

/-! ## What is promised -/

/-- The errors of an upgrade that has not moved the data. -/
def CommandError.beforeMove : CommandError → Bool
  | failed step =>
      step ∈ [.install, .dump, .writeMarker, .writeBackupMeta, .removeOldBackup, .renameData]
  | noInstance | noInstallation | alreadyInProgress => true
  | noBackup | badBackup | stillInProgress => false

inductive CommandLine (Data : Type) where
  | upgrade (args : UpgradeArgs) (faults : Faults Data)
  | revert (args : RevertArgs) (faults : Faults Data)

inductive Outcome where
  | none
  | upgraded
  | upgradeFailed (error : CommandError)
  | reverted
  | revertFailed (error : CommandError)
deriving DecidableEq, Repr

structure State (Data : Type) where
  inst : Instance Data
  outcome : Outcome

def next (s : State Data) : CommandLine Data → Option (State Data)
  | .upgrade args faults =>
      match upgradeIncompatible faults args s.inst with
      | .ok _ t => some ⟨t, .upgraded⟩
      | .error e t => some ⟨t, .upgradeFailed e⟩
  | .revert args faults =>
      match revert faults args s.inst with
      | .ok _ t => some ⟨t, .reverted⟩
      | .error e t => some ⟨t, .revertFailed e⟩

def Faults.none : Faults Data where
  fails _ := false
  dumpLeft := .none
  markerLeft := .missing
  backupMetaLeft := .missing
  backupLeft := .none
  dataLeft := ⟨.none, .missing, .missing⟩
  credentialsLeft := .missing
  tmpLeft := .none

/-- A revert, with the upgrading process gone and nothing failing, brings the data back. -/
def Reverts (s : Instance Data) (data : Data) : Prop :=
  ∃ t, revert .none ⟨false, true, false⟩ s = .ok () t ∧ Holds data t.dataDir

/-- The instance counts as normal and an upgrade is not refused as already in progress. -/
def Ready (s : Instance Data) : Prop :=
  dataStatus s = .normal ∧ s.upgradeMarker.there = false

structure Undoable (s : State Data) : Prop where
  kept : Kept s.inst
  reverts : ∀ data, s.inst.moved = some data → Reverts s.inst data
  ready : (∃ e, s.outcome = .upgradeFailed e ∧ e.beforeMove = true) ∨ s.outcome = .reverted →
    Ready s.inst

/-- An instance that runs, with readable credentials. -/
structure Initial (s : State Data) : Prop where
  running : Holds s.inst.working s.inst.dataDir
  ready : Ready s.inst
  credentials : s.inst.credentials ≠ .corrupt
  moved : s.inst.moved = none
  outcome : s.outcome = .none

/-! ## The condition -/

/-- The steps between the marker and the move, and those between the move and the new
data directory. -/
def markedSteps : List Step := [.writeMarker, .writeBackupMeta, .removeOldBackup, .renameData]

def movedSteps : List Step :=
  [.readDump, .askRename, .renameDump, .writeCredentials, .createDataDir]

def restoreSteps : List Step :=
  [.restore, .writeInstanceInfo, .copyCertificates, .removeMarker, .restart]

/-- An upgrade of a normal instance that fails in the installation, in the dump (keeping a
dump while moved data waits for it), or at or after the restore of the data. -/
def UpgradeUnbroken (s : Instance Data) (faults : Faults Data) : Prop :=
  dataStatus s = .normal ∧
  (faults.fails .install = true ∨
    faults.fails .dump = true ∧ (s.moved = none ∨ faults.dumpLeft ≠ none) ∨
    faults.fails .dump = false ∧
      (∀ step ∈ markedSteps ++ movedSteps, faults.fails step = false) ∧
      (s.tmpPath = none ∨ ∀ step ∈ restoreSteps, faults.fails step = false))

/-- A revert that stops before its first rename. -/
def RevertStopped (s : Instance Data) (args : RevertArgs) (faults : Faults Data) : Prop :=
  (∃ e, readBackup args s = .error e) ∨
  (args.noConfirm = false ∧ faults.fails .askRevert = true) ∨
  (∃ step ∈ [.stop, .install, .renameAway], faults.fails step = true) ∨
  s.dataDir = none ∨ s.tmpPath ≠ none

/-- A revert that changes nothing, or one of a finished upgrade whose second rename does
not fail while moved data waits for it. -/
def RevertUnbroken (s : Instance Data) (args : RevertArgs) (faults : Faults Data) : Prop :=
  RevertStopped s args faults ∨
  s.upgradeMarker.there = false ∧
    (s.moved = none ∨ faults.fails .renameBack = false) ∧
    (faults.fails .writeCredentials = false ∨ faults.credentialsLeft ≠ .corrupt)

def Unbroken (s : State Data) : CommandLine Data → Prop
  | .upgrade _ faults => UpgradeUnbroken s.inst faults
  | .revert args faults => RevertUnbroken s.inst args faults

/-! ## The invariant -/

/-- The directory is a complete backup, with its metadata. -/
def Restorable (data : Data) (dir : Option (Contents Data)) : Prop :=
  ∃ contents info version, dir = some contents ∧ contents.data = some data ∧
    contents.backupMeta.read?.isSome ∧ contents.instanceInfo.read? = some info ∧
    info.installation = some version

/-- The moved data can be brought back. -/
structure Waiting (data : Data) (s : Instance Data) : Prop where
  backup : Restorable data s.oldBackupDir
  dataDir : s.dataDir ≠ none
  tmpPath : s.tmpPath = none
  dumpPath : s.dumpPath ≠ none

structure Sound (s : Instance Data) : Prop where
  credentials : s.credentials ≠ .corrupt
  waiting : ∀ data, s.moved = some data → Waiting data s

theorem Sound.of_moved_none {s : Instance Data} (hcredentials : s.credentials ≠ .corrupt)
    (hmoved : s.moved = none) : Sound s where
  credentials := hcredentials
  waiting := by
    intro data hdata
    rw [hmoved] at hdata
    cases hdata

theorem ready_iff {s : Instance Data} :
    Ready s ↔ ∃ contents info, s.dataDir = some contents ∧
      contents.instanceInfo.read? = some info ∧ s.upgradeMarker.there = false := by
  unfold Ready dataStatus
  constructor
  · rintro ⟨hnormal, hmarker⟩
    split at hnormal
    · cases hnormal
    next contents hcontents =>
    rw [hmarker] at hnormal
    obtain ⟨info, hinfo⟩ : ∃ info, contents.instanceInfo.read? = some info := by
      cases hread : contents.instanceInfo.read? with
      | none => simp [hread] at hnormal
      | some info => exact ⟨info, rfl⟩
    exact ⟨contents, info, hcontents, hinfo, hmarker⟩
  · rintro ⟨contents, info, hcontents, hinfo, hmarker⟩
    simp [hcontents, hmarker, hinfo]

/-- A normal instance has no marker. -/
theorem ready_of_normal {s : Instance Data} (h : dataStatus s = .normal) : Ready s := by
  refine ⟨h, ?_⟩
  unfold dataStatus at h
  split at h
  · cases h
  · by_contra hmarker
    rw [Bool.not_eq_false] at hmarker
    rw [if_pos hmarker] at h
    cases h

/-! ## Moved data can be brought back -/

theorem noFault {P : Instance Data → Prop} {step : Step} :
    Triple P (check .none step) (fun _ => P) fun _ _ => False :=
  check_triple fun _ hfails _ => Bool.noConfusion hfails

theorem Waiting.reverts {data : Data} {s : Instance Data} (h : Waiting data s)
    (hcredentials : s.credentials ≠ .corrupt) : Reverts s data := by
  obtain ⟨⟨contents, info, version, hbackup, hdata, hmeta, hinfo, hversion⟩, hdir, htmp, hdump⟩ := h
  have hread : readBackup ⟨false, true, false⟩ s = .ok version := by
    obtain ⟨backupMeta, hmeta⟩ := Option.isSome_iff_exists.mp hmeta
    simp only [readBackup, hbackup, hmeta, hinfo, hversion, Bool.and_false]
    split <;> rfl
  have htriple : Triple (· = s) (revert .none ⟨false, true, false⟩)
      (fun _ t => Holds data t.dataDir) fun _ _ => False := by
    refine Triple.bind (R := fun s' t => t = s ∧ s' = s) (Triple.get fun t ht => ⟨ht, ht⟩)
      fun s' => ?_
    refine Triple.assume (fun t ht => ht.2) ?_
    rintro rfl
    refine Triple.bind (R := fun _ t => t = s') (Triple.ofExcept (fun _ t _ ht => ht.1) ?_)
      fun oldVersion => ?_
    · intro e t herror _
      rw [hread] at herror
      cases herror
    refine Triple.bind (R := fun _ t => t = s') (Triple.pure fun _ ht => ht) fun _ => ?_
    refine Triple.bind noFault fun _ => Triple.bind noFault fun _ => ?_
    -- the data directory goes to the temporary path
    refine Triple.bind (R := fun _ t => t = { s' with dataDir := none, tmpPath := s'.dataDir })
      (operation_triple ?_ ?_ fun _ hfails _ => Bool.noConfusion hfails) fun _ => ?_
    · rintro t t' rfl ht
      obtain ⟨old, hrename, ht⟩ := Option.bind_eq_some_iff.mp ht
      cases ht
      rw [(renameDir_eq_some hrename).1]
    · rintro t rfl ht
      obtain ⟨old, hold⟩ := Option.ne_none_iff_exists'.mp hdir
      simp [renameDir, hold, htmp] at ht
    -- the backup takes its place
    refine Triple.bind (R := fun _ t => t.dataDir = some contents ∧ t.dumpPath ≠ none ∧
      t.credentials ≠ .corrupt)
      (operation_triple ?_ ?_ fun _ hfails _ => Bool.noConfusion hfails) fun _ => ?_
    · rintro t t' rfl ht
      simp only [renameDir, hbackup, Option.bind_eq_bind, Option.bind_some] at ht
      cases ht
      exact ⟨rfl, hdump, hcredentials⟩
    · rintro t rfl ht
      simp [renameDir, hbackup] at ht
    -- the credentials are written back
    refine Triple.bind (revertCredentials_triple (fun t _ ht => ⟨ht.1, ht.2.1, nofun⟩)
      (fun _ hfails _ => Bool.noConfusion hfails) (fun t ht hnone => ht.2.1 hnone)
      (fun t ht hcorrupt => ht.2.2 hcorrupt) fun _ _ hfails _ _ => Bool.noConfusion hfails)
      fun _ => ?_
    -- the instance is started with the data of the backup
    refine Triple.bind (R := fun _ t => t.dataDir = some contents)
      (operation_triple ?_ ?_ fun _ hfails _ => Bool.noConfusion hfails) fun _ => ?_
    · rintro t t' ht hrestart
      obtain ⟨_, _, hrestart⟩ := Option.bind_eq_some_iff.mp hrestart
      obtain ⟨_, _, hrestart⟩ := Option.bind_eq_some_iff.mp hrestart
      cases hrestart
      exact ht.1
    · rintro t ht hrestart
      simp [ht.1, hdata] at hrestart
    -- the backup metadata is removed from it
    refine Triple.bind (R := fun _ t => Holds data t.dataDir)
      (onData_triple ?_ ?_ fun _ hfails _ => Bool.noConfusion hfails) fun _ => ?_
    · rintro t contents' ht hcontents'
      cases ht.symm.trans hcontents'
      exact ⟨_, rfl, hdata⟩
    · intro t ht hnone
      rw [ht] at hnone
      cases hnone
    refine operation_triple ?_ ?_ fun _ hfails _ => Bool.noConfusion hfails
    · rintro t _ ht ⟨⟩
      exact ht
    · rintro t - ⟨⟩
  obtain ⟨_, t, hrun, hholds⟩ := htriple.exists_ok rfl
  exact ⟨t, hrun, hholds⟩

/-! ## Reverts of unbroken runs -/

/-- A revert that stops before its first rename leaves the instance alone. -/
theorem revert_stopped {args : RevertArgs} {s : Instance Data} (h : RevertStopped s args faults) :
    Triple (· = s) (revert faults args) (fun _ _ => False) fun _ t => t = s := by
  refine Triple.bind (R := fun s' t => t = s ∧ s' = s) (Triple.get fun t ht => ⟨ht, ht⟩)
    fun s' => ?_
  refine Triple.assume (fun t ht => ht.2) ?_
  rintro rfl
  refine Triple.bind (R := fun oldVersion t => t = s' ∧ readBackup args s' = .ok oldVersion)
    (Triple.ofExcept (fun _ t hok ht => ⟨ht.1, hok⟩) fun _ t _ ht => ht.1) fun oldVersion => ?_
  refine Triple.assume (fun t ht => ht.2) fun hread => ?_
  refine Triple.bind (R := fun _ t => t = s' ∧
    (args.noConfirm = false → faults.fails .askRevert = false)) ?_ fun _ => ?_
  · refine Triple.ite (fun hconfirm => Triple.pure fun t ht => ⟨ht.1, ?_⟩) fun _ => ?_
    · rw [hconfirm]
      nofun
    · exact (operation_passes (check_triple fun t _ ht => ht.1)).conseq (fun _ ht => ht)
        fun _ t ht => ⟨ht.1.1, fun _ => ht.2⟩
  refine Triple.assume (fun t ht => ht.2) fun hask => ?_
  refine Triple.bind (operation_passes (check_triple fun t _ ht => ht.1)) fun _ => ?_
  refine Triple.assume (fun t ht => ht.2) fun hstop => ?_
  refine Triple.bind (operation_passes (check_triple fun t _ ht => ht.1.1)) fun _ => ?_
  refine Triple.assume (fun t ht => ht.2) fun hinstall => ?_
  refine Triple.bind (R := fun _ _ => False) ?_ fun _ => Triple.unreachable
  refine (operation_passes (operation_triple (Q := fun _ => s'.dataDir ≠ none ∧ s'.tmpPath = none)
    ?_ (fun t ht _ => ht.1.1.1) fun t _ ht => ht.1.1.1)).conseq (fun _ ht => ht) ?_
  · rintro t _ ⟨⟨⟨rfl, -⟩, -⟩, -⟩ ht
    obtain ⟨contents, hrename, -⟩ := Option.bind_eq_some_iff.mp ht
    obtain ⟨hdir, htmp⟩ := renameDir_eq_some hrename
    exact ⟨by rw [hdir]; nofun, htmp⟩
  · rintro - t ⟨⟨hdir, htmp⟩, haway⟩
    rcases h with ⟨e, he⟩ | ⟨hconfirm, hfails⟩ | ⟨step, hstep, hfails⟩ | hnone | hsome
    · rw [hread] at he
      cases he
    · rw [hask hconfirm] at hfails
      cases hfails
    · simp only [List.mem_cons, List.not_mem_nil, or_false] at hstep
      rcases hstep with rfl | rfl | rfl
      · rw [hstop] at hfails
        cases hfails
      · rw [hinstall] at hfails
        cases hfails
      · rw [haway] at hfails
        cases hfails
    · exact hdir hnone
    · exact hsome htmp

/-- The backup that a revert goes back to. -/
theorem readBackup_eq_ok {args : RevertArgs} {s : Instance Data} {version : Build}
    (h : readBackup args s = .ok version) :
    ∃ contents info, s.oldBackupDir = some contents ∧ contents.instanceInfo.read? = some info := by
  unfold readBackup at h
  split at h
  · cases h
  next contents hcontents =>
  split at h
  · next info _ hinfo => exact ⟨contents, info, hcontents, hinfo⟩
  · cases h

/-- After the second rename nothing is moved away any more. -/
structure Reverted (s : Instance Data) : Prop where
  ready : Ready s
  credentials : s.credentials ≠ .corrupt
  moved : s.moved = none

theorem Reverted.sound {s : Instance Data} (h : Reverted s) : Sound s :=
  .of_moved_none h.credentials h.moved

/-- Between the two renames. -/
structure MovedAway (contents : Contents Data) (moved : Option Data) (s : Instance Data) :
    Prop where
  dataDir : s.dataDir = none
  backup : s.oldBackupDir = some contents
  marker : s.upgradeMarker.there = false
  credentials : s.credentials ≠ .corrupt
  moved : s.moved = moved

/-- A revert without a marker: it leaves the instance ready, or stops with nothing moved
away. -/
theorem revert_unmarked {s : Instance Data} (hs : Sound s)
    (hmarker : s.upgradeMarker.there = false)
    (hback : s.moved = none ∨ faults.fails .renameBack = false)
    (hcredentials : faults.fails .writeCredentials = false ∨ faults.credentialsLeft ≠ .corrupt)
    (args : RevertArgs) :
    Triple (· = s) (revert faults args) (fun _ t => Sound t ∧ Ready t) fun _ => Sound := by
  refine Triple.bind (R := fun s' t => t = s ∧ s' = s) (Triple.get fun t ht => ⟨ht, ht⟩)
    fun s' => ?_
  refine Triple.assume (fun t ht => ht.2) ?_
  rintro rfl
  have hsound : ∀ t, t = s' → Sound t := fun t ht => ht ▸ hs
  refine Triple.bind (R := fun oldVersion t => t = s' ∧ readBackup args s' = .ok oldVersion)
    (Triple.ofExcept (fun _ t hok ht => ⟨ht.1, hok⟩) fun _ t _ ht => hsound t ht.1)
    fun oldVersion => ?_
  refine Triple.assume (fun t ht => ht.2) fun hread => ?_
  obtain ⟨contents, info, hbackup, hinfo⟩ := readBackup_eq_ok hread
  refine Triple.bind (R := fun _ t => t = s') (Triple.ite (fun _ => Triple.pure fun t ht => ht.1)
    fun _ => (check_triple fun t _ ht => hsound t ht.1).conseq (fun _ ht => ht)
      fun _ t ht => ht.1) fun _ => ?_
  refine Triple.bind (check_triple fun t _ ht => hsound t ht) fun _ => ?_
  refine Triple.bind (check_triple fun t _ ht => hsound t ht) fun _ => ?_
  refine Triple.bind (R := fun _ => MovedAway contents s'.moved)
    (operation_triple ?_ (fun t ht _ => hsound t ht) fun t _ ht => hsound t ht) fun _ => ?_
  · rintro t _ rfl ht
    obtain ⟨old, -, ht⟩ := Option.bind_eq_some_iff.mp ht
    cases ht
    exact ⟨rfl, hbackup, hmarker, hs.credentials, rfl⟩
  refine Triple.bind (R := fun _ => Reverted) (operation_triple ?_ ?_ ?_) fun _ => ?_
  · rintro t _ ⟨hdir, hbackup, hmarker, hcredentials, -⟩ ht
    simp only [renameDir, hdir, hbackup, Option.bind_eq_bind, Option.bind_some] at ht
    cases ht
    exact ⟨ready_iff.mpr ⟨contents, info, rfl, hinfo, hmarker⟩, hcredentials, rfl⟩
  · rintro t ⟨hdir, hbackup, -⟩ ht
    simp [renameDir, hdir, hbackup] at ht
  · rintro t hfails ⟨-, -, -, hcredentials, hmoved⟩
    -- nothing was waiting for this rename
    rcases hback with hnone | hpasses
    · exact .of_moved_none hcredentials (hmoved.trans hnone)
    · rw [hpasses] at hfails
      cases hfails
  refine Triple.bind (revertCredentials_triple (fun t _ ht => ⟨ht.ready, nofun, ht.moved⟩) ?_
    (fun t ht _ => ht.sound) (fun t ht _ => ht.sound) fun t _ _ _ ht => ht.sound) fun _ => ?_
  · intro t hfails ht
    rcases hcredentials with hpasses | hleft
    · rw [hpasses] at hfails
      cases hfails
    · exact .of_moved_none hleft ht.moved
  refine Triple.bind (R := fun _ => Reverted) (restart_triple ?_ fun t ht => ht.sound) fun _ => ?_
  · exact fun t _ _ ht _ _ => ⟨ht.ready, ht.credentials, ht.moved⟩
  refine Triple.bind (R := fun _ => Reverted) (onData_triple ?_ (fun t ht _ => ht.sound) ?_)
    fun _ => ?_
  · intro t contents' ht hcontents'
    obtain ⟨contents₁, info₁, hdir, hinfo, hmarker⟩ := ready_iff.mp ht.ready
    cases hdir.symm.trans hcontents'
    exact ⟨ready_iff.mpr ⟨_, info₁, rfl, hinfo, hmarker⟩, ht.credentials, ht.moved⟩
  · intro t _ ht
    have hsame : t.dataDir.map id = t.dataDir := Option.map_id_apply
    rw [hsame]
    exact ht.sound
  refine operation_triple ?_ ?_ fun t _ ht => ?_
  · rintro t _ ht ⟨⟩
    exact ⟨.of_moved_none ht.credentials ht.moved, ht.ready⟩
  · rintro t - ⟨⟩
  · exact .of_moved_none ht.credentials ht.moved

/-! ## Upgrades of unbroken runs -/

/-- The directory is that of an installed instance with its data. -/
def Installed (data : Data) (dir : Option (Contents Data)) : Prop :=
  ∃ contents info version, dir = some contents ∧ contents.data = some data ∧
    contents.instanceInfo.read? = some info ∧ info.installation = some version

/-- What the upgrade needs beside the data, once it has a dump. -/
structure Dumped (tmpPath : Option (Contents Data)) (s : Instance Data) : Prop where
  dumpPath : ∃ dump, s.dumpPath = some dump ∧ dump.data.isSome
  credentials : s.credentials ≠ .corrupt
  tmpPath : s.tmpPath = tmpPath

/-- The data is moved away. -/
structure Moved (data : Data) (tmpPath : Option (Contents Data)) (s : Instance Data) : Prop where
  backup : Restorable data s.oldBackupDir
  dumped : Dumped tmpPath s
  moved : s.moved = some data

variable {data : Data} {tmpPath : Option (Contents Data)}

/-- Without a failure the backup takes the data. -/
theorem backup_moves {args : UpgradeArgs} {oldVersion : Build}
    {E : CommandError → Instance Data → Prop}
    (hpass : ∀ step ∈ markedSteps, faults.fails step = false) :
    Triple (fun s => Installed data s.dataDir ∧ Dumped tmpPath s ∧ s.upgradeMarker.there = false)
      (backup faults args oldVersion) (fun _ => Moved data tmpPath) E := by
  have hnever : ∀ {step : Step} {c : Prop}, step ∈ markedSteps →
      faults.fails step = true → c := by
    intro step c hstep hfails
    rw [hpass step hstep] at hfails
    cases hfails
  refine Triple.bind (R := fun s t => (Installed data t.dataDir ∧ Dumped tmpPath t) ∧
    s.upgradeMarker.there = false) (Triple.get fun s hs => ⟨⟨hs.1, hs.2.1⟩, hs.2.2⟩)
    fun s => Triple.ite (fun hmarker => ?_) fun _ => ?_
  · refine Triple.throw fun t ht => ?_
    rw [ht.2] at hmarker
    cases hmarker
  -- the marker of the upgrade
  refine Triple.bind (R := fun _ t => Installed data t.dataDir ∧ Dumped tmpPath t)
    (operation_triple ?_ ?_ fun _ hfails _ => hnever (by simp [markedSteps]) hfails) fun _ => ?_
  · rintro t _ ⟨⟨hdata, hdump, hcredentials, htmp⟩, -⟩ ⟨⟩
    exact ⟨hdata, hdump, hcredentials, htmp⟩
  · rintro t - ⟨⟩
  -- the metadata of the backup
  refine Triple.bind (R := fun _ t => Restorable data t.dataDir ∧ Dumped tmpPath t)
    (onData_triple ?_ ?_ fun _ hfails _ => hnever (by simp [markedSteps]) hfails) fun _ => ?_
  · rintro t contents ⟨⟨_, info, version, hdir, hdata, hinfo, hversion⟩, hdump, hcredentials,
      htmp⟩ hcontents
    cases hcontents.symm.trans hdir
    exact ⟨⟨_, info, version, rfl, hdata, rfl, hinfo, hversion⟩, hdump, hcredentials, htmp⟩
  · rintro t ⟨⟨_, _, _, hdir, -⟩, -⟩ hnone
    rw [hnone] at hdir
    cases hdir
  -- an older backup is removed
  refine Triple.bind (R := fun _ t => Restorable data t.dataDir ∧ Dumped tmpPath t ∧
    t.oldBackupDir = none) ?_ fun _ => ?_
  · refine Triple.bind (R := fun s t => (Restorable data t.dataDir ∧ Dumped tmpPath t) ∧ t = s)
      (Triple.get fun s hs => ⟨hs, rfl⟩) fun s => Triple.ite (fun _ => ?_) fun hsome => ?_
    · refine operation_triple ?_ ?_ fun _ hfails _ => hnever (by simp [markedSteps]) hfails
      · rintro t _ ⟨⟨hdata, hdump, hcredentials, htmp⟩, -⟩ ⟨⟩
        exact ⟨hdata, ⟨hdump, hcredentials, htmp⟩, rfl⟩
      · rintro t - ⟨⟩
    · refine Triple.pure ?_
      rintro t ⟨⟨hdata, hdumped⟩, rfl⟩
      exact ⟨hdata, hdumped, Option.not_isSome_iff_eq_none.mp hsome⟩
  -- the data directory is renamed to the backup
  refine operation_triple ?_ ?_ fun _ hfails _ => hnever (by simp [markedSteps]) hfails
  · rintro t t' ⟨hrestorable, ⟨hdump, hcredentials, htmp⟩, -⟩ ht
    obtain ⟨contents, hrename, ht⟩ := Option.bind_eq_some_iff.mp ht
    obtain ⟨hdir, -⟩ := renameDir_eq_some hrename
    cases ht
    rw [hdir] at hrestorable
    obtain ⟨_, _, _, ⟨⟩, hdata, -⟩ := id hrestorable
    exact ⟨hrestorable, ⟨hdump, hcredentials, htmp⟩, hdata⟩
  · rintro t ⟨⟨_, _, _, hdir, -⟩, -, hnone⟩ ht
    simp [renameDir, hdir, hnone] at ht

/-- The data is moved away and the instance has a data directory again. -/
structure Recreated (data : Data) (tmpPath : Option (Contents Data)) (s : Instance Data) :
    Prop where
  moved : Moved data tmpPath s
  dataDir : s.dataDir ≠ none

theorem Recreated.sound {s : Instance Data} (h : Recreated data tmpPath s)
    (htmp : tmpPath = none) : Sound s where
  credentials := h.moved.dumped.credentials
  waiting := by
    intro data' hdata'
    cases h.moved.moved.symm.trans hdata'
    obtain ⟨dump, hdump, -⟩ := h.moved.dumped.dumpPath
    exact ⟨h.moved.backup, h.dataDir, h.moved.dumped.tmpPath.trans htmp, by rw [hdump]; nofun⟩

theorem Recreated.withData {s : Instance Data} (h : Recreated data tmpPath s)
    (contents : Contents Data) :
    Recreated data tmpPath { s with dataDir := some contents } where
  moved := ⟨h.moved.backup, ⟨h.moved.dumped.dumpPath, h.moved.dumped.credentials,
    h.moved.dumped.tmpPath⟩, h.moved.moved⟩
  dataDir := nofun

theorem Recreated.withMarker {s : Instance Data} (h : Recreated data tmpPath s)
    (marker : JsonFile UpgradeMeta) :
    Recreated data tmpPath { s with upgradeMarker := marker } where
  moved := ⟨h.moved.backup, ⟨h.moved.dumped.dumpPath, h.moved.dumped.credentials,
    h.moved.dumped.tmpPath⟩, h.moved.moved⟩
  dataDir := h.dataDir

/-- The new data directory has its data. -/
def Refilled (data : Data) (tmpPath : Option (Contents Data)) (s : Instance Data) : Prop :=
  Recreated data tmpPath s ∧ ∃ contents, s.dataDir = some contents ∧ contents.data.isSome

/-- What an upgrade that fails after the move leaves can be reverted. -/
def LeftBehind (error : CommandError) (t : Instance Data) : Prop :=
  Sound t ∧ (error.beforeMove = true → Ready t)

theorem Recreated.leftBehind {s : Instance Data} {step : Step} (h : Recreated data tmpPath s)
    (htmp : tmpPath = none) (hstep : step ∈ restoreSteps) : LeftBehind (.failed step) s := by
  refine ⟨h.sound htmp, fun hbefore => ?_⟩
  simp only [restoreSteps, List.mem_cons, List.not_mem_nil, or_false] at hstep
  rcases hstep with rfl | rfl | rfl | rfl | rfl <;> cases hbefore

section Restore

variable {args : UpgradeArgs} {info : InstanceInfo}

/-- Only a failure makes the upgrade end at one of its last steps. -/
theorem restoreStep_left (htmp : tmpPath = none ∨ ∀ step ∈ restoreSteps, faults.fails step = false)
    {step : Step} (hstep : step ∈ restoreSteps) (hfails : faults.fails step = true) :
    tmpPath = none := by
  rcases htmp with htmp | hpasses
  · exact htmp
  · rw [hpasses step hstep] at hfails
    cases hfails

theorem reinitAndRestore_unbroken (hpass : ∀ step ∈ movedSteps, faults.fails step = false)
    (htmp : tmpPath = none ∨ ∀ step ∈ restoreSteps, faults.fails step = false) :
    Triple (Moved data tmpPath) (reinitAndRestore faults args info)
      (fun _ => Refilled data tmpPath) LeftBehind := by
  -- the instance is created again
  refine Triple.bind (R := fun _ => Recreated data tmpPath) (operation_triple ?_ ?_ ?_) fun _ => ?_
  · rintro s _ ⟨hbackup, ⟨hdump, hcredentials, htmp⟩, hmoved⟩ ⟨⟩
    exact ⟨⟨hbackup, ⟨hdump, hcredentials, htmp⟩, hmoved⟩, nofun⟩
  · rintro s - ⟨⟩
  · intro s hfails _
    rw [hpass _ (by simp [movedSteps])] at hfails
    cases hfails
  -- the dump is restored into it
  refine Triple.bind (R := fun _ => Refilled data tmpPath) (operation_triple ?_ ?_ ?_) fun _ => ?_
  · intro s t hs ht
    obtain ⟨contents, -, ht⟩ := Option.bind_eq_some_iff.mp ht
    obtain ⟨dump, -, ht⟩ := Option.bind_eq_some_iff.mp ht
    obtain ⟨restored, -, ht⟩ := Option.bind_eq_some_iff.mp ht
    cases ht
    exact ⟨hs.withData _, _, rfl, rfl⟩
  · intro s hs ht
    obtain ⟨contents, hcontents⟩ := Option.ne_none_iff_exists'.mp hs.dataDir
    obtain ⟨dump, hdump, hsome⟩ := hs.moved.dumped.dumpPath
    obtain ⟨restored, hrestored⟩ := Option.isSome_iff_exists.mp hsome
    simp [hcontents, hdump, hrestored] at ht
  · intro s hfails hs
    have hnone := restoreStep_left htmp (by simp [restoreSteps]) hfails
    exact (hs.withData _).leftBehind hnone (by simp [restoreSteps])
  refine Triple.bind (R := fun _ => Refilled data tmpPath) (onData_triple ?_ ?_ ?_) fun _ => ?_
  · rintro s contents ⟨hs, _, hdir, hsome⟩ hcontents
    cases hdir.symm.trans hcontents
    exact ⟨hs.withData _, _, rfl, hsome⟩
  · rintro s ⟨hs, -⟩ hnone
    exact absurd hnone hs.dataDir
  · rintro s hfails ⟨hs, contents, hdir, -⟩
    have hnone := restoreStep_left htmp (by simp [restoreSteps]) hfails
    rw [hdir]
    exact (hs.withData _).leftBehind hnone (by simp [restoreSteps])
  refine onData_triple ?_ ?_ ?_
  · rintro s contents ⟨hs, _, hdir, hsome⟩ hcontents
    cases hdir.symm.trans hcontents
    exact ⟨hs.withData _, _, rfl, hsome⟩
  · rintro s ⟨hs, -⟩ hnone
    exact absurd hnone hs.dataDir
  · rintro s hfails ⟨hs, contents, hdir, -⟩
    have hnone := restoreStep_left htmp (by simp [restoreSteps]) hfails
    rw [hdir]
    exact (hs.withData _).leftBehind hnone (by simp [restoreSteps])

/-- The end of an upgrade, once the data is in the new directory. -/
theorem finish_unbroken
    (htmp : tmpPath = none ∨ ∀ step ∈ restoreSteps, faults.fails step = false) :
    Triple (Refilled data tmpPath) (do
        operation faults .removeMarker (fun s => { s with upgradeMarker := faults.markerLeft })
          fun s => some { s with upgradeMarker := .missing }
        restart faults
        modify fun s => { s with moved := none })
      (fun _ => Sound) LeftBehind := by
  refine Triple.bind (R := fun _ => Refilled data tmpPath) (operation_triple ?_ ?_ ?_) fun _ => ?_
  · rintro s _ ⟨hs, hdata⟩ ⟨⟩
    exact ⟨hs.withMarker _, hdata⟩
  · rintro s - ⟨⟩
  · rintro s hfails ⟨hs, -⟩
    have hnone := restoreStep_left htmp (by simp [restoreSteps]) hfails
    exact (hs.withMarker _).leftBehind hnone (by simp [restoreSteps])
  refine Triple.bind (R := fun _ s => s.credentials ≠ .corrupt) (operation_triple ?_ ?_ ?_)
    fun _ => ?_
  · rintro s t ⟨hs, -⟩ ht
    obtain ⟨_, -, ht⟩ := Option.bind_eq_some_iff.mp ht
    obtain ⟨_, -, ht⟩ := Option.bind_eq_some_iff.mp ht
    cases ht
    exact hs.moved.dumped.credentials
  · rintro s ⟨-, contents, hdir, hsome⟩ ht
    obtain ⟨restored, hrestored⟩ := Option.isSome_iff_exists.mp hsome
    simp [hdir, hrestored] at ht
  · rintro s hfails ⟨hs, -⟩
    have hnone := restoreStep_left htmp (by simp [restoreSteps]) hfails
    exact hs.leftBehind hnone (by simp [restoreSteps])
  exact Triple.modify fun s hs => .of_moved_none hs rfl

end Restore

theorem upgrade_unbroken {s : Instance Data} (hs : Sound s) (h : UpgradeUnbroken s faults)
    (args : UpgradeArgs) :
    Triple (· = s) (upgradeIncompatible faults args) (fun _ => Sound) LeftBehind := by
  have hready : Ready s := ready_of_normal h.1
  have hsame : ∀ e t, t = s → LeftBehind e t := by
    rintro e t rfl
    exact ⟨hs, fun _ => hready⟩
  refine Triple.bind (R := fun s' t => t = s ∧ s' = s) (Triple.get fun t ht => ⟨ht, ht⟩)
    fun s' => ?_
  refine Triple.assume (fun t ht => ht.2) ?_
  rintro rfl
  split
  · exact Triple.throw fun t ht => hsame _ t ht.1
  next info hread =>
  split
  · exact Triple.throw fun t ht => hsame _ t ht.1
  next oldVersion hversion =>
  obtain ⟨contents, hdir, hinfo⟩ := Option.bind_eq_some_iff.mp hread
  -- the new version is installed
  refine Triple.bind (operation_passes (check_triple fun t _ ht => hsame _ t ht.1)) fun _ => ?_
  refine Triple.assume (fun t ht => ht.2) fun hinstall => ?_
  rcases h.2 with hfails | ⟨hfails, hleft⟩ | ⟨hdump, hpass, htmp⟩
  · rw [hinstall] at hfails
    cases hfails
  · refine Triple.bind (operation_fails hfails ?_) fun _ => Triple.unreachable
    rintro t ⟨⟨rfl, -⟩, -⟩
    refine ⟨⟨hs.credentials, fun data hdata => ?_⟩, fun _ => hready⟩
    have hwaiting := hs.waiting data hdata
    rcases hleft with hnone | hsome
    · rw [hdata] at hnone
      cases hnone
    · exact ⟨hwaiting.backup, hwaiting.dataDir, hwaiting.tmpPath, hsome⟩
  have hmarked : ∀ step ∈ markedSteps, faults.fails step = false :=
    fun step hstep => hpass step (List.mem_append_left _ hstep)
  have hmoved : ∀ step ∈ movedSteps, faults.fails step = false :=
    fun step hstep => hpass step (List.mem_append_right _ hstep)
  -- the database is dumped
  refine Triple.bind (R := fun _ t => ∃ data, Installed data t.dataDir ∧
    Dumped s'.tmpPath t ∧ t.upgradeMarker.there = false)
    (operation_triple ?_ (fun t ht _ => hsame _ t ht.1.1) ?_) fun _ =>
      Triple.of_exists fun data => ?_
  · rintro t _ ⟨⟨rfl, -⟩, -⟩ ht
    rw [hdir, Option.bind_eq_bind, Option.bind_some] at ht
    obtain ⟨data, hdata, hdumped⟩ := Option.bind_eq_some_iff.mp ht
    cases hdumped
    exact ⟨data, ⟨contents, info, oldVersion, rfl, hdata, hinfo, hversion⟩,
      ⟨⟨_, rfl, rfl⟩, hs.credentials, rfl⟩, hready.2⟩
  · intro t hfails _
    rw [hdump] at hfails
    cases hfails
  -- the data directory becomes the backup
  refine Triple.bind (backup_moves hmarked) fun _ => ?_
  -- the default database takes the name of its branch
  refine Triple.bind (renameDefaultDatabase_triple ?_ ?_ ?_ ?_ ?_) fun _ => ?_
  · rintro t files ⟨hbackup, ⟨⟨dump, hdump, hsome⟩, hcredentials, htmp⟩, hmoved⟩
    exact ⟨hbackup, ⟨⟨_, congrArg (Option.map _) hdump, hsome⟩, hcredentials, htmp⟩, hmoved⟩
  · rintro t credentials ⟨hbackup, ⟨hdump, -, htmp⟩, hmoved⟩
    exact ⟨hbackup, ⟨hdump, nofun, htmp⟩, hmoved⟩
  · intro t hfails _
    rw [hmoved _ (by simp [movedSteps])] at hfails
    cases hfails
  · rintro t ⟨-, ⟨⟨dump, hdump, -⟩, -, -⟩, -⟩ hnone
    rw [hnone] at hdump
    cases hdump
  · intro t step hfails hstep _
    rw [hmoved step (by simp only [movedSteps, List.mem_cons] at hstep ⊢; tauto)] at hfails
    cases hfails
  exact Triple.bind (reinitAndRestore_unbroken hmoved htmp) fun _ => finish_unbroken htmp

/-! ## Every command -/

/-- What holds after every command of an unbroken run. -/
structure Intact (s : State Data) : Prop where
  kept : Kept s.inst
  sound : Sound s.inst
  ready : (∃ e, s.outcome = .upgradeFailed e ∧ e.beforeMove = true) ∨ s.outcome = .reverted →
    Ready s.inst

/-- The data is kept by every command, broken or not. -/
theorem kept_next {s s' : State Data} {command : CommandLine Data} (hs : Kept s.inst)
    (hstep : next s command = some s') : Kept s'.inst := by
  cases command with
  | upgrade args faults =>
      simp only [next] at hstep
      split at hstep <;> cases hstep
      · next hrun => exact upgradeIncompatible_kept.of_ok hs hrun
      · next hrun => exact upgradeIncompatible_kept.of_error hs hrun
  | revert args faults =>
      simp only [next] at hstep
      split at hstep <;> cases hstep
      · next hrun => exact revert_kept.of_ok hs hrun
      · next hrun => exact revert_kept.of_error hs hrun

theorem intact_next {s s' : State Data} {command : CommandLine Data} (hs : Intact s)
    (hguard : Unbroken s command) (hstep : next s command = some s') : Intact s' := by
  have hkept := kept_next hs.kept hstep
  cases command with
  | upgrade args faults =>
      have htriple := upgrade_unbroken hs.sound hguard args
      simp only [next] at hstep
      split at hstep <;> cases hstep
      · next hrun =>
        exact ⟨hkept, htriple.of_ok rfl hrun, by simp⟩
      · next hrun =>
        obtain ⟨hsound, hready⟩ := htriple.of_error rfl hrun
        exact ⟨hkept, hsound, by simpa using hready⟩
  | revert args faults =>
      simp only [next] at hstep
      rcases hguard with hstopped | ⟨hmarker, hback, hcredentials⟩
      · have htriple := revert_stopped hstopped
        split at hstep <;> cases hstep
        · next hrun => exact (htriple.of_ok rfl hrun).elim
        · next hrun =>
          have hsame := htriple.of_error rfl hrun
          exact ⟨hkept, hsame ▸ hs.sound, by simp⟩
      · have htriple := revert_unmarked hs.sound hmarker hback hcredentials args
        split at hstep <;> cases hstep
        · next hrun =>
          obtain ⟨hsound, hready⟩ := htriple.of_ok rfl hrun
          exact ⟨hkept, hsound, fun _ => hready⟩
        · next hrun => exact ⟨hkept, htriple.of_error rfl hrun, by simp⟩

def commands (Data : Type) : System (State Data) (CommandLine Data) where
  Initial := Initial
  next := next

/-- **In every run, whatever fails, the data is kept.** -/
theorem kept_of_reachable {s : State Data} (h : (commands Data).Reachable System.Free s) :
    Kept s.inst :=
  h.invariant (fun _ hinitial => .inl hinitial.running) fun _ _ _ hs _ hstep => kept_next hs hstep

/-- **In an unbroken run every upgrade can be undone**: after each command the data of the
last working state is in the data directory, the backup or the directory moved aside,
a revert brings back what a failed upgrade has moved away, and after an upgrade that
moved nothing and after a completed revert the instance counts as normal and can be
upgraded again. -/
theorem undoable_of_reachable {s : State Data} (h : (commands Data).Reachable Unbroken s) :
    Undoable s := by
  have hintact : Intact s := by
    refine h.invariant ?_ fun s command s' hs hguard hstep => intact_next hs hguard hstep
    exact fun s hinitial => ⟨.inl hinitial.running,
      .of_moved_none hinitial.credentials hinitial.moved, fun _ => hinitial.ready⟩
  exact ⟨hintact.kept, fun data hdata =>
    (hintact.sound.waiting data hdata).reverts hintact.sound.credentials, hintact.ready⟩

section Sample

def sampleInfo : InstanceInfo := ⟨some ⟨4, "8".toList⟩, 10701⟩

def runningInstance : Instance Nat where
  dataDir := some ⟨some 7, .holds sampleInfo, .missing⟩
  oldBackupDir := none
  tmpPath := none
  dumpPath := none
  upgradeMarker := .missing
  credentials := .holds ⟨some "edgedb".toList, none⟩
  working := 7
  moved := none

theorem initial_runningInstance : Initial ⟨runningInstance, .none⟩ where
  running := ⟨_, rfl, rfl⟩
  ready := ⟨rfl, rfl⟩
  credentials := nofun
  moved := rfl
  outcome := rfl

def sampleArgs : UpgradeArgs where
  version := ⟨5, "0".toList⟩
  nonInteractive := true
  rename := false
  dumpFiles := [edgedbDump]
  now := 1700000000
  pid := 4242

/-- An upgrade in which one operation fails. -/
def upgradeFailingAt (step : Step) : CommandLine Nat :=
  .upgrade sampleArgs { Faults.none with fails := (· == step) }

/-- An upgrade that fails in the restore, and a new start of the instance's old data. -/
theorem undoable_of_reachable_restore :
    ∃ s : State Nat, (commands Nat).Reachable Unbroken s ∧ s.inst.moved = some 7 ∧
      Undoable s := by
  have hrun : ∃ s, next ⟨runningInstance, .none⟩ (upgradeFailingAt .restore) = some s ∧
      s.inst.moved = some 7 := ⟨_, rfl, rfl⟩
  obtain ⟨s, hrun, hmoved⟩ := hrun
  have hguard : Unbroken ⟨runningInstance, .none⟩ (upgradeFailingAt .restore) :=
    ⟨rfl, .inr (.inr ⟨rfl, by decide, .inl rfl⟩)⟩
  have hreachable : (commands Nat).Reachable Unbroken s :=
    (System.Reachable.initial initial_runningInstance).step hguard hrun
  exact ⟨s, hreachable, hmoved, undoable_of_reachable hreachable⟩

/-- After a failure to make the new data directory there is nothing that a revert could
move aside; after a failure to write the backup's metadata the marker stays. -/
theorem upgrade_not_undoable :
    (∃ s : State Nat, (commands Nat).Reachable System.Free s ∧ s.inst.moved = some 7 ∧
      ¬ Reverts s.inst 7) ∧
    (∃ s : State Nat, (commands Nat).Reachable System.Free s ∧
      s.outcome = .upgradeFailed (.failed .writeBackupMeta) ∧ ¬ Ready s.inst) ∧
    ¬ ∀ s : State Nat, (commands Nat).Reachable System.Free s → Undoable s := by
  have hreachable : ∀ {s} step, next ⟨runningInstance, .none⟩ (upgradeFailingAt step) = some s →
      (commands Nat).Reachable System.Free s := by
    intro s step hrun
    have hinitial : (commands Nat).Reachable System.Free ⟨runningInstance, .none⟩ :=
      .initial initial_runningInstance
    exact hinitial.step (e := upgradeFailingAt step) trivial hrun
  have hmoved : ∃ s, next ⟨runningInstance, .none⟩ (upgradeFailingAt .createDataDir) = some s ∧
      s.inst.moved = some 7 ∧ ¬ Reverts s.inst 7 := by
    refine ⟨_, rfl, rfl, ?_⟩
    rintro ⟨t, hrun, -⟩
    cases hrun
  have hmarked : ∃ s, next ⟨runningInstance, .none⟩ (upgradeFailingAt .writeBackupMeta) = some s ∧
      s.outcome = .upgradeFailed (.failed .writeBackupMeta) ∧ ¬ Ready s.inst := by
    refine ⟨_, rfl, rfl, ?_⟩
    rintro ⟨-, hmarker⟩
    cases hmarker
  obtain ⟨s, hrun, hdata, hreverts⟩ := hmoved
  obtain ⟨t, hrun', houtcome, hready⟩ := hmarked
  refine ⟨⟨s, hreachable _ hrun, hdata, hreverts⟩, ⟨t, hreachable _ hrun', houtcome, hready⟩, ?_⟩
  intro hclaim
  exact hreverts ((hclaim s (hreachable _ hrun)).reverts 7 hdata)

end Sample

end GelCli.Upgrade
