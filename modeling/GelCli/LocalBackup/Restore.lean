import GelCli.Foundation.Commands
import GelCli.LocalBackup.Listing

/-!
# Restoring a backup

`LocalBackup::restore`: the backup is unpacked into `.restore.new_data.tmp`, for an
incremental one through a chain of backups unpacked into `.restore.old_data.tmp`,
and the data directory is swapped with the new one by two renames, the first of
which keeps the old data in `.restore.old_data.tmp`.

Every operation on these directories may fail. A failed rename leaves everything as
it was; whatever else fails leaves its directory in any state.
-/

namespace GelCli.LocalBackup

open GelCli.Foundation

/-! ## What is there -/

/-- The contents of a directory: a database cluster, a chain of unpacked backups under
their ids, or what an operation that failed has left. -/
inductive Tree (Cluster : Type) where
  | cluster (contents : Cluster)
  | chain (unpacked : List (Text × Cluster))
  | remains (n : Nat)
deriving DecidableEq, Repr

/-- The data directory, `.restore.new_data.tmp` and `.restore.old_data.tmp`. -/
structure Instance (Cluster : Type) where
  dataDir : Option (Tree Cluster)
  restoreTmpdir : Option (Tree Cluster)
  restoreTmpdir2 : Option (Tree Cluster)
deriving DecidableEq, Repr

/-- What `restore` reads: the backups directory, what the archives in it unpack to,
`pg_combinebackup`, the socket, and the clock at each reading of a `backup.json`. -/
structure RestoreEnv (Uuid Cluster : Type) where
  text : UuidText Uuid
  rank : Uuid → Nat
  latestFile : Option Text
  entries : Option (List Text)
  document : Text → Option Document
  tryExists : Text → Bool
  unpacked : Text → Cluster
  combineBackup : List Cluster → Cluster
  socketExists : Bool
  now : Nat → SystemTime

inductive RestoreType where
  | latest
  | specific (id : Text)
deriving DecidableEq, Repr

/-- The operations of `restore` that may fail. -/
inductive RestoreStep where
  | removeExisting
  | latest
  | tryExists
  | unpackBackup (index : Nat)
  | combineBackup
  | removeChain
  | verifyBackup
  | renameData
  | setPermissions
  | renameRestored
  | removeOld
deriving DecidableEq, Repr

/-- Why a backup cannot be restored. `walking` is no end: the chain goes on. -/
inductive BackupError where
  | metadata (id : Text) (error : MetadataError)
  | incomplete (id : Text)
  | corrupt (id : Text)
  | notRestorable (id : Text)
  | walking
deriving DecidableEq, Repr

inductive RestoreError where
  | failed (step : RestoreStep)
  | incompleteRestore
  | socketFound
  | notImplemented
  | noBackups
  | notFound (id : Text)
  | backup (error : BackupError)
deriving DecidableEq, Repr

structure BackupRecord where
  id : Text
  metadata : BackupMetadata
deriving DecidableEq, Repr

section Restore

variable {Uuid Cluster : Type} (env : RestoreEnv Uuid Cluster)

/-! ## Reading the backups -/

def BackupRecord.fromFile (id : Text) (now : SystemTime) : Except BackupError BackupRecord :=
  match BackupMetadata.fromFile (env.document id) now with
  | .ok metadata => .ok ⟨id, metadata⟩
  | .error error => .error (.metadata id error)

/-- One entry of the scan in `BackupRecord::latest`; `none` is the nil UUID. -/
def BackupRecord.laterOf (latest : Option Uuid) (name : Text) : Option Uuid :=
  match env.text.parseStr name with
  | none => latest
  | some uuid =>
      if (latest.map env.rank).getD 0 < env.rank uuid then
        match BackupMetadata.fromFile (env.document name) (env.now 0) with
        | .ok metadata => if metadata.completedAt.isSome then some uuid else latest
        | .error _ => latest
      else latest

/-- `BackupRecord::latest`. -/
def BackupRecord.latest : Option Text :=
  let fromLatestFile := do
    let id ← env.latestFile
    if env.tryExists id then env.text.parseStr id else none
  match fromLatestFile with
  | some uuid => some (env.text.toText uuid)
  | none => ((env.entries.getD []).foldl (laterOf env) none).map env.text.toText

/-- The walk from an incremental backup's parent to the full backup. -/
def walkChain : Nat → Nat → Text → List BackupRecord → Except BackupError (List BackupRecord)
  | 0, _, _, _ => .error .walking
  | fuel + 1, index, current, backupChain => do
      let record ← BackupRecord.fromFile env current (env.now index)
      match record.metadata.backupStrategy with
      | .full => .ok (backupChain ++ [record])
      | _ =>
          match record.metadata.incremental with
          | none => .error (.corrupt record.id)
          | some incremental =>
              walkChain fuel (index + 1) incremental.parentBackupId (backupChain ++ [record])

/-- The backup that is restored, and the whole chain from the full backup on when it is
an incremental one. -/
def selectBackup (fuel : Nat) (backupId : Text) :
    Except BackupError (BackupRecord × Option (List BackupRecord)) := do
  let record ← BackupRecord.fromFile env backupId (env.now 1)
  if record.metadata.isIncomplete (env.now 2) then .error (.incomplete record.id) else
  match record.metadata.backupStrategy with
  | .full => .ok (record, none)
  | .incremental =>
      match record.metadata.incremental with
      | none => .error (.corrupt record.id)
      | some incremental =>
          (walkChain env fuel 3 incremental.parentBackupId [record]).map
            fun chain => (record, some chain.reverse)
  | _ => .error (.notRestorable record.id)

/-- What a backup restores to. -/
def restoredContents (selected : BackupRecord × Option (List BackupRecord)) : Cluster :=
  match selected.2 with
  | none => env.unpacked selected.1.id
  | some chain => env.combineBackup (chain.map fun record => env.unpacked record.id)

/-! ## The steps -/

/-- What a failed operation leaves of its directory. -/
abbrev Faults (Cluster : Type) := RestoreStep → Option (Option (Tree Cluster))

variable (faults : Faults Cluster)

abbrev Restoring (Cluster : Type) := EStateM RestoreError (Instance Cluster)

def onTmpdir (step : RestoreStep) (f : Option (Tree Cluster) → Option (Tree Cluster)) :
    Restoring Cluster Unit :=
  attempt (.failed step) ((faults step).map fun left s => { s with restoreTmpdir := left })
    fun s => some { s with restoreTmpdir := f s.restoreTmpdir }

def onTmpdir2 (step : RestoreStep) (f : Option (Tree Cluster) → Option (Tree Cluster)) :
    Restoring Cluster Unit :=
  attempt (.failed step) ((faults step).map fun left s => { s with restoreTmpdir2 := left })
    fun s => some { s with restoreTmpdir2 := f s.restoreTmpdir2 }

/-- An operation that changes no directory. -/
def check (step : RestoreStep) : Restoring Cluster Unit :=
  attempt (.failed step) ((faults step).map fun _ s => s) some

/-- The directories of an earlier restore. -/
def clearRestore : Restoring Cluster Unit := do
  let s ← get
  if s.restoreTmpdir.isSome then
    onTmpdir faults .removeExisting fun _ => none
  else pure ()

def checkRestore (otherInstance : Bool) : Restoring Cluster Unit := do
  let s ← get
  ofExcept <|
    if s.restoreTmpdir2.isSome then .error .incompleteRestore
    else if env.socketExists then .error .socketFound
    else if otherInstance then .error .notImplemented
    else .ok ()

def chooseBackup (restoreType : RestoreType) : Restoring Cluster Text :=
  match restoreType with
  | .latest => do
      check faults .latest
      match BackupRecord.latest env with
      | none => throw .noBackups
      | some id => pure id
  | .specific id => pure id

def findBackup (fuel : Nat) (restoreType : RestoreType) :
    Restoring Cluster (BackupRecord × Option (List BackupRecord)) := do
  let backupId ← chooseBackup env faults restoreType
  check faults .tryExists
  if env.tryExists backupId then
    ofExcept ((selectBackup env fuel backupId).mapError .backup)
  else throw (.notFound backupId)

/-- One backup of a chain is unpacked under its id. -/
def unpackInto (record : BackupRecord) (unpacked : Option (Tree Cluster)) :
    Option (Tree Cluster) :=
  match unpacked with
  | some (.chain others) => some (.chain (others ++ [(record.id, env.unpacked record.id)]))
  | _ => some (.chain [(record.id, env.unpacked record.id)])

def unpackChain : Nat → List BackupRecord → Restoring Cluster Unit
  | _, [] => pure ()
  | index, record :: chain => do
      onTmpdir2 faults (.unpackBackup index) (unpackInto env record)
      unpackChain (index + 1) chain

/-- `restore_tmpdir` with the contents of the backup. -/
def prepare (selected : BackupRecord × Option (List BackupRecord)) : Restoring Cluster Unit :=
  match selected.2 with
  | none => do
      onTmpdir faults (.unpackBackup 0) fun _ => some (.cluster (restoredContents env selected))
      check faults .verifyBackup
  | some chain => do
      unpackChain env faults 0 chain
      onTmpdir faults .combineBackup fun _ => some (.cluster (restoredContents env selected))
      onTmpdir2 faults .removeChain fun _ => none
      check faults .verifyBackup

/-- `rename(&data_dir, &restore_tmpdir2)`. -/
def renameData (s : Instance Cluster) : Option (Instance Cluster) :=
  match s.dataDir, s.restoreTmpdir2 with
  | some tree, none => some { s with dataDir := none, restoreTmpdir2 := some tree }
  | _, _ => none

/-- `rename(&restore_tmpdir, &data_dir)`. -/
def renameRestored (s : Instance Cluster) : Option (Instance Cluster) :=
  match s.restoreTmpdir, s.dataDir with
  | some tree, none => some { s with restoreTmpdir := none, dataDir := some tree }
  | _, _ => none

/-- The two renames, each whole or not at all, and the removal of the old data. -/
def finalize : Restoring Cluster Unit := do
  attempt (.failed .renameData) ((faults .renameData).map fun _ s => s) renameData
  check faults .setPermissions
  attempt (.failed .renameRestored) ((faults .renameRestored).map fun _ s => s) renameRestored
  onTmpdir2 faults .removeOld fun _ => none

def restore (fuel : Nat) (otherInstance : Bool) (restoreType : RestoreType) :
    Restoring Cluster Unit := do
  clearRestore faults
  checkRestore env otherInstance
  let selected ← findBackup env faults fuel restoreType
  prepare env faults selected
  finalize faults

end Restore

end GelCli.LocalBackup
