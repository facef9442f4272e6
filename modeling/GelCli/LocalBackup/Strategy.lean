import Mathlib.Order.BoundedOrder.Basic
import GelCli.Foundation.Results
import GelCli.LocalBackup.Listing

/-!
# The strategy of a backup

`LocalBackup::backup` as one step on the completed backups of an instance: which backup
is the latest, whether it becomes the parent of an incremental one, and what the
metadata of the new backup says.
-/

namespace GelCli.LocalBackup

open GelCli.Foundation

inductive RequestedBackupStrategy where
  | auto
  | full
  | incremental
deriving DecidableEq, Repr

def maxIncrementalAge : Duration := .fromSecs (60 * 60 * 24 * 7)

def maxIncrementalGeneration : Nat := 5

/-- The backups of an instance, under their ids, and the id in the file `latest`. -/
structure BackupsDir (Uuid : Type) where
  backups : List (Uuid × BackupMetadata)
  latest : Option Uuid

/-- What becomes of the file `latest` when a backup is renamed. -/
inductive LatestFile where
  | updated
  | kept
  | removed
deriving DecidableEq, Repr

/-- How far a backup comes: it fails before its directory is renamed, or it is there. -/
inductive Ending where
  | failed
  | renamed (latest : LatestFile)
deriving DecidableEq, Repr

/-- A call of `backup`: the id it draws, what the clock reads at the call, at the look at
the parent and at the end, and how its commands and files fare. -/
structure Attempt (Uuid : Type) where
  id : Uuid
  startedAt : SystemTime
  checkedAt : SystemTime
  completedAt : SystemTime
  ourPid : Nat
  serverVersion : Text
  size : Nat
  incrementalSucceeds : Bool
  ending : Ending

/-- A possible parent, with the metadata that was read. -/
abbrev ParentRecord (Uuid : Type) := Uuid × BackupMetadata

section Latest

variable {Uuid : Type} [LinearOrder Uuid] [OrderBot Uuid]

namespace BackupsDir

def backupJson (s : BackupsDir Uuid) (id : Uuid) : Option Document :=
  (s.backups.lookup id).map Document.written

/-- One entry of the directory in the search for the latest backup. -/
def scanEntry (s : BackupsDir Uuid) (now : SystemTime) (latest uuid : Uuid) : Uuid :=
  if latest < uuid then
    match BackupMetadata.fromFile (s.backupJson uuid) now with
    | .ok metadata => if metadata.completedAt.isSome then uuid else latest
    | .error _ => latest
  else latest

def scanLatest (s : BackupsDir Uuid) (now : SystemTime) : Option Uuid :=
  let latest := (s.backups.map Prod.fst).foldl (s.scanEntry now) ⊥
  if latest = ⊥ then none else some latest

/-- `BackupRecord::latest` -/
def latestId (s : BackupsDir Uuid) (now : SystemTime) : Option Uuid :=
  match s.latest with
  | some id => if (s.backups.lookup id).isSome then some id else s.scanLatest now
  | none => s.scanLatest now

/-- `BackupRecord::from_file` -/
def record (s : BackupsDir Uuid) (now : SystemTime) (id : Uuid) :
    Except MetadataError (ParentRecord Uuid) :=
  (BackupMetadata.fromFile (s.backupJson id) now).map fun metadata => (id, metadata)

end BackupsDir

/-! ## The parent -/

/-- What the `Auto` strategy makes of the latest backup. -/
def autoParent (now : SystemTime) : Option (ParentRecord Uuid) → Option (ParentRecord Uuid)
  | none => none
  | some parent =>
      if parent.2.completedAt.isNone then none
      else
        match parent.2.incremental with
        | some incremental =>
            if incremental.incrementalGeneration > maxIncrementalGeneration ∨
                (SystemTime.elapsed now incremental.fullBackupCompletedAt).getD Duration.max >
                  maxIncrementalAge then none
            else some parent
        | none => some parent

inductive ParentError where
  | noPrevious
  | metadata (error : MetadataError)
deriving DecidableEq, Repr

/-- `latest_backup_id.map(..).transpose()?` -/
def recordOf (s : BackupsDir Uuid) (now : SystemTime) :
    Option Uuid → Except ParentError (Option (ParentRecord Uuid))
  | none => .ok none
  | some id => ((s.record now id).map some).mapError .metadata

def incrementalParent (s : BackupsDir Uuid) (strategy : RequestedBackupStrategy)
    (now : SystemTime) : Except ParentError (Option (ParentRecord Uuid)) :=
  if strategy = .incremental ∨ strategy = .auto then do
    let latest := s.latestId now
    require (¬ (latest.isNone ∧ strategy = .incremental)) .noPrevious
    let record ← recordOf s now latest
    return if strategy = .auto then autoParent now record else record
  else .ok none

/-! ## The backup -/

variable (U : UuidText Uuid)

/-- The record of an incremental backup; `none` is the panic on a parent that is not
completed. -/
def incrementalMetadata (parent : ParentRecord Uuid) : Option IncrementalMetadata :=
  parent.2.completedAt.map fun completedAt =>
    { parentBackupId := U.toText parent.1
      incrementalGeneration :=
        (parent.2.incremental.map IncrementalMetadata.incrementalGeneration).getD 0 + 1
      fullBackupCompletedAt :=
        (parent.2.incremental.map IncrementalMetadata.fullBackupCompletedAt).getD completedAt }

/-- The metadata after the base backup, incremental or not. -/
def baseMetadata (a : Attempt Uuid) : Option (ParentRecord Uuid) → Option BackupMetadata
  | none => some (.starting a.startedAt a.ourPid a.serverVersion)
  | some parent =>
      let metadata : BackupMetadata :=
        { BackupMetadata.starting a.startedAt a.ourPid a.serverVersion with
          backupStrategy := .incremental }
      if a.incrementalSucceeds then
        (incrementalMetadata U parent).map fun incremental =>
          { metadata with incremental := some incremental }
      else some { metadata with backupStrategy := .full }

def LatestFile.after (latest : Option Uuid) (id : Uuid) : LatestFile → Option Uuid
  | updated => some id
  | kept => latest
  | removed => none

/-- The rename of the finished directory, to a name that must be free. -/
def BackupsDir.rename (s : BackupsDir Uuid) (id : Uuid) (metadata : BackupMetadata)
    (latest : LatestFile) : BackupsDir Uuid :=
  if (s.backups.lookup id).isSome then s
  else
    { backups := s.backups ++ [(id, metadata)]
      latest := latest.after s.latest id }

/-- What follows the base backup. -/
def finish (s : BackupsDir Uuid) (a : Attempt Uuid) (metadata : BackupMetadata) :
    BackupsDir Uuid :=
  match a.ending with
  | .failed => s
  | .renamed latest => s.rename a.id (metadata.completed a.completedAt a.size) latest

/-- `LocalBackup::backup`: the backups after the call. -/
def backup (strategy : RequestedBackupStrategy) (s : BackupsDir Uuid) (a : Attempt Uuid) :
    BackupsDir Uuid :=
  match incrementalParent s strategy a.checkedAt with
  | .error _ => s
  | .ok parent =>
      match baseMetadata U a parent with
      | none => s
      | some metadata => finish s a metadata

end Latest

end GelCli.LocalBackup
