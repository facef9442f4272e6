import GelCli.Foundation.Results
import GelCli.LocalBackup.Restore

/-!
# A restore that fails

Wherever `restore` fails, the old data of the instance is whole: in the data
directory, or in `.restore.old_data.tmp` when the failure falls between the two
renames. What it leaves stands in the way of a later restore only when that
directory is left, which is then to be removed by hand.
-/

namespace GelCli.LocalBackup

open GelCli.Foundation

variable {Uuid Cluster : Type} {env : RestoreEnv Uuid Cluster} {faults : Faults Cluster}

/-- The steps that work with `.restore.old_data.tmp`. -/
def RestoreStep.usesTmpdir2 : RestoreStep → Bool
  | unpackBackup _ | combineBackup | removeChain | setPermissions | renameRestored
  | removeOld => true
  | removeExisting | latest | tryExists | verifyBackup | renameData => false

/-- The backup that is restored, with its chain. -/
def Selected (env : RestoreEnv Uuid Cluster) (fuel : Nat) (restoreType : RestoreType)
    (selected : BackupRecord × Option (List BackupRecord)) : Prop :=
  ∃ id, (restoreType = .specific id ∨ restoreType = .latest ∧ BackupRecord.latest env = some id) ∧
    selectBackup env fuel id = .ok selected

/-- The old data, or the whole restored data when only the removal of the old data is
left to do. -/
def DataKept (env : RestoreEnv Uuid Cluster) (fuel : Nat) (restoreType : RestoreType)
    (old : Tree Cluster) (error : RestoreError) (t : Instance Cluster) : Prop :=
  t.dataDir = some old ∨
    (error = .failed .setPermissions ∨ error = .failed .renameRestored) ∧
      t.dataDir = none ∧ t.restoreTmpdir2 = some old ∨
    error = .failed .removeOld ∧ ∃ selected, Selected env fuel restoreType selected ∧
      t.dataDir = some (.cluster (restoredContents env selected))

/-- What stands in the way of a later restore is left by the steps that use it. -/
def TmpdirKept (before : Option (Tree Cluster)) (error : RestoreError) (t : Instance Cluster) :
    Prop :=
  t.restoreTmpdir2 = before ∨ ∃ step, error = .failed step ∧ step.usesTmpdir2 = true

section Steps

variable {fuel : Nat} {restoreType : RestoreType} {old : Tree Cluster}
  {before : Option (Tree Cluster)}

/-- Both of an error and the state it leaves. -/
def Kept (env : RestoreEnv Uuid Cluster) (fuel : Nat) (restoreType : RestoreType)
    (old : Tree Cluster) (before : Option (Tree Cluster)) (error : RestoreError)
    (t : Instance Cluster) : Prop :=
  DataKept env fuel restoreType old error t ∧ TmpdirKept before error t

/-- The state before the swap: the old data in place. -/
def Before (old : Tree Cluster) (before : Option (Tree Cluster)) (s : Instance Cluster) : Prop :=
  s.dataDir = some old ∧ s.restoreTmpdir2 = before

theorem Before.kept {s : Instance Cluster} (h : Before old before s) (error : RestoreError) :
    Kept env fuel restoreType old before error s :=
  ⟨.inl h.1, .inl h.2⟩

theorem check_triple {P : Instance Cluster → Prop} {step : RestoreStep}
    {E : RestoreError → Instance Cluster → Prop} (h : ∀ s, P s → E (.failed step) s) :
    Triple P (check faults step) (fun _ => P) E := by
  refine Triple.attempt ?_ ?_ ?_
  · rintro s t hs ⟨⟩
    exact hs
  · rintro s - ⟨⟩
  · intro g s hg hs
    obtain ⟨left, -, rfl⟩ := Option.map_eq_some_iff.mp hg
    exact h s hs

theorem onTmpdir_triple {step : RestoreStep}
    {f : Option (Tree Cluster) → Option (Tree Cluster)} :
    Triple (Before old before) (onTmpdir faults step f)
      (fun _ s => Before old before s ∧ ∃ tree, s.restoreTmpdir = f tree)
      (Kept env fuel restoreType old before) := by
  refine Triple.attempt ?_ ?_ ?_
  · rintro s t hs ⟨⟩
    exact ⟨hs, _, rfl⟩
  · rintro s - ⟨⟩
  · intro g s hg hs
    obtain ⟨left, -, rfl⟩ := Option.map_eq_some_iff.mp hg
    exact Before.kept hs _

theorem clearRestore_triple :
    Triple (Before old before) (clearRestore faults) (fun _ => Before old before)
      (Kept env fuel restoreType old before) := by
  refine Triple.bind (Triple.get fun s hs => hs) fun s => Triple.ite (fun _ => ?_) fun _ => ?_
  · exact onTmpdir_triple.conseq (fun _ hs => hs) fun _ _ hs => hs.1
  · exact Triple.pure fun _ hs => hs

theorem checkRestore_triple {otherInstance : Bool} :
    Triple (Before old before) (checkRestore env otherInstance)
      (fun _ s => Before old none s ∧ before = none)
      (Kept env fuel restoreType old before) := by
  refine Triple.bind (R := fun s t => Before old before t ∧ t = s)
    (Triple.get fun s hs => ⟨hs, rfl⟩) fun s => Triple.ofExcept ?_ ?_
  · rintro _ t hok ⟨⟨hdata, htmpdir2⟩, rfl⟩
    split at hok
    · cases hok
    next hsome =>
    have hnone := Option.not_isSome_iff_eq_none.mp hsome
    exact ⟨⟨hdata, hnone⟩, htmpdir2.symm.trans hnone⟩
  · rintro e t - ⟨ht, -⟩
    exact ht.kept e

theorem chooseBackup_triple :
    Triple (Before old before) (chooseBackup env faults restoreType)
      (fun id s => Before old before s ∧ (restoreType = .specific id ∨
        restoreType = .latest ∧ BackupRecord.latest env = some id))
      (Kept env fuel restoreType old before) := by
  cases restoreType with
  | specific id => exact Triple.pure fun s hs => ⟨hs, .inl rfl⟩
  | latest =>
      refine Triple.bind (check_triple fun s hs => hs.kept _) fun _ => ?_
      cases hlatest : BackupRecord.latest env with
      | none => exact Triple.throw fun s hs => hs.kept _
      | some id => exact Triple.pure fun s hs => ⟨hs, .inr ⟨rfl, rfl⟩⟩

theorem findBackup_triple :
    Triple (Before old before) (findBackup env faults fuel restoreType)
      (fun selected s => Before old before s ∧ Selected env fuel restoreType selected)
      (Kept env fuel restoreType old before) := by
  refine Triple.bind chooseBackup_triple fun id => ?_
  refine Triple.bind (check_triple fun s hs => hs.1.kept _) fun _ => ?_
  refine Triple.ite (fun _ => ?_) fun _ => Triple.throw fun s hs => hs.1.kept _
  refine Triple.ofExcept ?_ fun e s _ hs => hs.1.kept e
  exact fun selected s hselected hs => ⟨hs.1, id, hs.2, mapError_eq_ok.mp hselected⟩

/-- The chain is unpacked into `.restore.old_data.tmp`, the old data stays in place. -/
theorem onTmpdir2_triple {step : RestoreStep} (hstep : step.usesTmpdir2 = true)
    {f : Option (Tree Cluster) → Option (Tree Cluster)} :
    Triple (fun s => s.dataDir = some old) (onTmpdir2 faults step f)
      (fun _ s => s.dataDir = some old ∧ ∃ tree, s.restoreTmpdir2 = f tree)
      (Kept env fuel restoreType old before) := by
  refine Triple.attempt ?_ ?_ ?_
  · rintro s t hs ⟨⟩
    exact ⟨hs, _, rfl⟩
  · rintro s - ⟨⟩
  · intro g s hg hs
    obtain ⟨left, -, rfl⟩ := Option.map_eq_some_iff.mp hg
    exact ⟨.inl hs, .inr ⟨step, rfl, hstep⟩⟩

theorem unpackChain_triple {chain : List BackupRecord} {index : Nat} :
    Triple (fun s => s.dataDir = some old) (unpackChain env faults index chain)
      (fun _ s => s.dataDir = some old) (Kept env fuel restoreType old before) := by
  induction chain generalizing index with
  | nil => exact Triple.pure fun _ hs => hs
  | cons record chain ih =>
      refine Triple.bind (onTmpdir2_triple rfl) fun _ => ?_
      exact ih.conseq (fun _ hs => hs.1) fun _ _ hs => hs

/-- The restored data is whole beside the old data. -/
def Prepared (env : RestoreEnv Uuid Cluster) (old : Tree Cluster)
    (selected : BackupRecord × Option (List BackupRecord)) (s : Instance Cluster) : Prop :=
  Before old none s ∧ s.restoreTmpdir = some (.cluster (restoredContents env selected))

theorem prepare_triple {selected : BackupRecord × Option (List BackupRecord)} :
    Triple (Before old none) (prepare env faults selected)
      (fun _ => Prepared env old selected) (Kept env fuel restoreType old none) := by
  obtain ⟨record, _ | chain⟩ := selected
  · refine Triple.bind onTmpdir_triple fun _ => ?_
    refine (check_triple fun s hs => hs.1.kept _).conseq (fun _ hs => hs) ?_
    rintro - s ⟨hs, _, htmpdir⟩
    exact ⟨hs, htmpdir⟩
  · refine Triple.bind (unpackChain_triple.conseq (fun _ hs => hs.1) fun _ _ hs => hs) fun _ => ?_
    refine Triple.bind (R := fun _ s => s.dataDir = some old ∧
      s.restoreTmpdir = some (.cluster (restoredContents env (record, some chain)))) ?_ fun _ => ?_
    · refine Triple.attempt ?_ ?_ ?_
      · rintro s t hs ⟨⟩
        exact ⟨hs, rfl⟩
      · rintro s - ⟨⟩
      · intro g s hg hs
        obtain ⟨left, -, rfl⟩ := Option.map_eq_some_iff.mp hg
        exact ⟨.inl hs, .inr ⟨_, rfl, rfl⟩⟩
    refine Triple.bind (R := fun _ => Prepared env old (record, some chain)) ?_ fun _ => ?_
    · refine Triple.attempt ?_ ?_ ?_
      · rintro s t ⟨hs, htmpdir⟩ ⟨⟩
        exact ⟨⟨hs, rfl⟩, htmpdir⟩
      · rintro s - ⟨⟩
      · intro g s hg hs
        obtain ⟨left, -, rfl⟩ := Option.map_eq_some_iff.mp hg
        exact ⟨.inl hs.1, .inr ⟨_, rfl, rfl⟩⟩
    exact check_triple fun s hs => hs.1.kept _

/-- The swap. -/
theorem finalize_triple {selected : BackupRecord × Option (List BackupRecord)}
    (hselected : Selected env fuel restoreType selected) :
    Triple (Prepared env old selected) (finalize faults)
      (fun _ s => s = ⟨some (.cluster (restoredContents env selected)), none, none⟩)
      (Kept env fuel restoreType old none) := by
  refine Triple.bind (R := fun _ s => s.dataDir = none ∧ s.restoreTmpdir2 = some old ∧
    s.restoreTmpdir = some (.cluster (restoredContents env selected))) ?_ fun _ => ?_
  · refine Triple.attempt ?_ ?_ ?_
    · rintro s t ⟨⟨hdata, htmpdir2⟩, htmpdir⟩ hrename
      rw [renameData, hdata, htmpdir2] at hrename
      cases hrename
      exact ⟨rfl, rfl, htmpdir⟩
    · exact fun s hs _ => hs.1.kept _
    · intro g s hg hs
      obtain ⟨left, -, rfl⟩ := Option.map_eq_some_iff.mp hg
      exact hs.1.kept _
  refine Triple.bind (check_triple fun s hs => ?_) fun _ => ?_
  · exact ⟨.inr (.inl ⟨.inl rfl, hs.1, hs.2.1⟩), .inr ⟨_, rfl, rfl⟩⟩
  refine Triple.bind (R := fun _ s =>
    s.dataDir = some (.cluster (restoredContents env selected)) ∧ s.restoreTmpdir = none)
    ?_ fun _ => ?_
  · refine Triple.attempt ?_ ?_ ?_
    · rintro s t ⟨hdata, htmpdir2, htmpdir⟩ hrename
      rw [renameRestored, hdata, htmpdir] at hrename
      cases hrename
      exact ⟨rfl, rfl⟩
    · exact fun s hs _ =>
        ⟨.inr (.inl ⟨.inr rfl, hs.1, hs.2.1⟩), .inr ⟨_, rfl, rfl⟩⟩
    · intro g s hg hs
      obtain ⟨left, -, rfl⟩ := Option.map_eq_some_iff.mp hg
      exact ⟨.inr (.inl ⟨.inr rfl, hs.1, hs.2.1⟩), .inr ⟨_, rfl, rfl⟩⟩
  refine Triple.attempt ?_ ?_ ?_
  · rintro ⟨_, _, _⟩ t ⟨hdata, htmpdir⟩ ⟨⟩
    cases hdata
    cases htmpdir
    rfl
  · rintro s - ⟨⟩
  · intro g s hg hs
    obtain ⟨left, -, rfl⟩ := Option.map_eq_some_iff.mp hg
    exact ⟨.inr (.inr ⟨rfl, selected, hselected, hs.1⟩), .inr ⟨_, rfl, rfl⟩⟩

theorem restore_triple {otherInstance : Bool} :
    Triple (Before old before) (restore env faults fuel otherInstance restoreType)
      (fun _ s => ∃ selected, Selected env fuel restoreType selected ∧
        s = ⟨some (.cluster (restoredContents env selected)), none, none⟩)
      (Kept env fuel restoreType old before) := by
  refine Triple.bind clearRestore_triple fun _ => ?_
  refine Triple.bind checkRestore_triple fun _ => ?_
  refine Triple.assume (fun s hs => hs.2) ?_
  rintro rfl
  refine Triple.bind (findBackup_triple.conseq (fun s hs => hs.1) fun _ _ hs => hs)
    fun selected => ?_
  refine Triple.assume (fun s hs => hs.2) fun hselected => ?_
  refine Triple.bind (prepare_triple.conseq (fun s hs => hs.1) fun _ _ hs => hs) fun _ => ?_
  exact (finalize_triple hselected).conseq (fun _ hs => hs)
    fun _ s hs => ⟨selected, hselected, hs⟩

end Steps

/-! ## Refusals -/

def NotRefused (error : RestoreError) (_ : Instance Cluster) : Prop :=
  error ≠ .incompleteRestore

theorem failed_triple {P : Instance Cluster → Prop} {step : RestoreStep}
    {fault : Option (Instance Cluster → Instance Cluster)}
    {f : Instance Cluster → Option (Instance Cluster)} :
    Triple P (attempt (.failed step) fault f) (fun _ _ => True) NotRefused :=
  Triple.attempt (fun _ _ _ _ => trivial) (fun _ _ _ => nofun) fun _ _ _ _ => nofun

theorem clearRestore_notRefused :
    Triple (fun s => s.restoreTmpdir2 = none) (clearRestore faults)
      (fun _ s => s.restoreTmpdir2 = none) NotRefused := by
  refine Triple.bind (R := fun _ s => s.restoreTmpdir2 = none) (Triple.get fun s hs => hs)
    fun s => Triple.ite (fun _ => ?_) fun _ => ?_
  · refine Triple.attempt ?_ (fun _ _ _ => nofun) fun _ _ _ _ => nofun
    rintro s t hs ⟨⟩
    exact hs
  · exact Triple.pure fun _ hs => hs

theorem checkRestore_notRefused {otherInstance : Bool} :
    Triple (fun s => s.restoreTmpdir2 = none) (checkRestore env otherInstance)
      (fun _ _ => True) NotRefused := by
  refine Triple.bind (R := fun s _ => s.restoreTmpdir2 = none)
    (Triple.get fun s hs => hs) fun s => Triple.ofExcept (fun _ _ _ _ => trivial) ?_
  rintro e t herror hnone rfl
  rw [hnone] at herror
  split at herror
  · contradiction
  split at herror
  · cases herror
  split at herror <;> cases herror

theorem findBackup_notRefused {P : Instance Cluster → Prop} {fuel : Nat}
    {restoreType : RestoreType} :
    Triple P (findBackup env faults fuel restoreType) (fun _ _ => True) NotRefused := by
  refine Triple.bind (R := fun _ _ => True) ?_ fun id => ?_
  · cases restoreType with
    | specific id => exact Triple.pure fun _ _ => trivial
    | latest =>
        refine Triple.bind failed_triple fun _ => ?_
        cases BackupRecord.latest env with
        | none => exact Triple.throw fun _ _ => nofun
        | some id => exact Triple.pure fun _ _ => trivial
  refine Triple.bind failed_triple fun _ => Triple.ite (fun _ => ?_) fun _ => ?_
  · refine Triple.ofExcept (fun _ _ _ _ => trivial) ?_
    rintro e s herror - rfl
    cases hselect : selectBackup env fuel id with
    | ok selected =>
        rw [hselect] at herror
        cases herror
    | error error =>
        rw [hselect] at herror
        cases herror
  · exact Triple.throw fun _ _ => nofun

theorem unpackChain_notRefused {P : Instance Cluster → Prop} {chain : List BackupRecord}
    {index : Nat} :
    Triple P (unpackChain env faults index chain) (fun _ _ => True) NotRefused := by
  induction chain generalizing P index with
  | nil => exact Triple.pure fun _ _ => trivial
  | cons record chain ih => exact Triple.bind failed_triple fun _ => ih

theorem prepare_notRefused {P : Instance Cluster → Prop}
    {selected : BackupRecord × Option (List BackupRecord)} :
    Triple P (prepare env faults selected) (fun _ _ => True) NotRefused := by
  obtain ⟨record, _ | chain⟩ := selected
  · exact Triple.bind failed_triple fun _ => failed_triple
  · exact Triple.bind unpackChain_notRefused fun _ => Triple.bind failed_triple fun _ =>
      Triple.bind failed_triple fun _ => failed_triple

/-- Only `.restore.old_data.tmp` makes a restore refuse to begin. -/
theorem restore_notRefused {fuel : Nat} {otherInstance : Bool} {restoreType : RestoreType} :
    Triple (fun s => s.restoreTmpdir2 = none) (restore env faults fuel otherInstance restoreType)
      (fun _ _ => True) NotRefused := by
  refine Triple.bind clearRestore_notRefused fun _ => ?_
  refine Triple.bind checkRestore_notRefused fun _ => ?_
  refine Triple.bind findBackup_notRefused fun selected => ?_
  refine Triple.bind prepare_notRefused fun _ => ?_
  exact Triple.bind failed_triple fun _ => Triple.bind failed_triple fun _ =>
    Triple.bind failed_triple fun _ => failed_triple

/-- The instance is as it was, or wholly restored up to the removal of the old data, and
no later restore is refused. -/
def LeftAsItWas (env : RestoreEnv Uuid Cluster) (fuel : Nat) (restoreType : RestoreType)
    (old : Tree Cluster) (error : RestoreError) (t : Instance Cluster) : Prop :=
  (t.dataDir = some old ∨
    error = .failed .removeOld ∧ ∃ selected, Selected env fuel restoreType selected ∧
      t.dataDir = some (.cluster (restoredContents env selected))) ∧
  ∀ (faults' : Faults Cluster) t',
    restore env faults' fuel false restoreType t ≠ .error .incompleteRestore t'

section Sample

def completedMetadata (strategy : BackupStrategy) (parent : Option Text) : BackupMetadata :=
  { (BackupMetadata.starting 0 4242 "6.4".toList).completed 60 100 with
    backupStrategy := strategy
    incremental := parent.map fun id => ⟨id, 1, 60⟩ }

/-- A full backup and an incremental one on top of it. -/
def sampleEnv : RestoreEnv Unit Nat where
  text := sampleText
  rank _ := 1
  latestFile := none
  entries := none
  document id :=
    if id = "full".toList then some (.written (completedMetadata .full none))
    else if id = "incremental".toList then
      some (.written (completedMetadata .incremental (some "full".toList)))
    else none
  tryExists _ := true
  unpacked id := id.length
  combineBackup := List.sum
  socketExists := false
  now _ := 3600

/-- The instance before the restore. -/
def running : Instance Nat := ⟨some (.cluster 7), none, none⟩

/-- The unpacking of the second backup of the chain fails. -/
def unpackFails : Faults Nat
  | .unpackBackup 1 => some (some (.chain [("full".toList, 4)]))
  | _ => none

/-- The second rename fails. -/
def renameFails : Faults Nat
  | .renameRestored => some none
  | _ => none

end Sample

end GelCli.LocalBackup
