import Mathlib.Data.Int.Notation
import GelCli.Foundation.Text

/-!
# Backup metadata

`BackupMetadata` of `gel-cli-instance/src/local/localbackup.rs`, the `backup.json`
of a backup directory: when a backup counts as timed out, and what reading the
file answers.
-/

namespace GelCli.LocalBackup

open GelCli.Foundation

/-! ## Times -/

/-- `SystemTime`, in nanoseconds from the epoch. -/
abbrev SystemTime := Int

/-- `Duration`, in nanoseconds. -/
abbrev Duration := Nat

def Duration.fromSecs (secs : Nat) : Duration := secs * 1000000000

def Duration.max : Duration := fromSecs (2 ^ 64 - 1) + 999999999

/-- `SystemTime::elapsed` with the clock at `now`: an error when the clock is
behind the time. -/
def SystemTime.elapsed (now time : SystemTime) : Option Duration :=
  if time ≤ now then some (now - time).toNat else none

def backupTimeout : Duration := .fromSecs (60 * 60)

theorem SystemTime.elapsed_getD_le {now time : SystemTime} {d : Duration} (hle : time ≤ now)
    (hd : now - time ≤ d) : (elapsed now time).getD Duration.max ≤ d := by
  rw [elapsed, if_pos hle, Option.getD_some]
  exact Int.toNat_le.mpr hd

/-! ## The metadata -/

inductive BackupType where
  | automated
  | manual
  | unknown (name : Text)
deriving DecidableEq, Repr

inductive BackupStrategy where
  | full
  | incremental
  | differential
  | unknown (name : Text)
deriving DecidableEq, Repr

structure IncrementalMetadata where
  parentBackupId : Text
  incrementalGeneration : Nat
  fullBackupCompletedAt : SystemTime
deriving DecidableEq, Repr

structure BackupMetadata where
  version : Nat
  startedAt : SystemTime
  lastUpdatedAt : SystemTime
  completedAt : Option SystemTime
  pid : Option Nat
  backupType : BackupType
  backupStrategy : BackupStrategy
  incremental : Option IncrementalMetadata
  size : Option Nat
  serverVersion : Text
deriving DecidableEq, Repr

namespace BackupMetadata

/-- The metadata a backup starts with. -/
def starting (now : SystemTime) (ourPid : Nat) (serverVersion : Text) : BackupMetadata where
  version := 1
  startedAt := now
  lastUpdatedAt := now
  completedAt := none
  pid := some ourPid
  backupType := .manual
  backupStrategy := .full
  incremental := none
  size := none
  serverVersion := serverVersion

/-- The metadata after one round of the liveness task. -/
def updated (metadata : BackupMetadata) (now : SystemTime) : BackupMetadata :=
  { metadata with lastUpdatedAt := now }

/-- The metadata of the final rewrite. -/
def completed (metadata : BackupMetadata) (now : SystemTime) (size : Nat) : BackupMetadata :=
  { metadata with
    lastUpdatedAt := now
    pid := none
    completedAt := some now
    size := some size }

def isIncomplete (metadata : BackupMetadata) (now : SystemTime) : Bool :=
  metadata.completedAt.isNone &&
    decide ((SystemTime.elapsed now metadata.lastUpdatedAt).getD Duration.max > backupTimeout)

end BackupMetadata

/-! ## Reading `backup.json` -/

/-- What the file holds: nothing yet, between the truncation and the write of one
`fs::write`, or a whole serialization. -/
inductive Document where
  | truncated
  | written (metadata : BackupMetadata)
deriving DecidableEq, Repr

inductive MetadataError where
  | notFound
  | malformed
  | timedOut
deriving DecidableEq, Repr

/-- `BackupMetadata::from_file` on what the path names, with the clock at `now`. -/
def BackupMetadata.fromFile (file : Option Document) (now : SystemTime) :
    Except MetadataError BackupMetadata :=
  match file with
  | none => .error .notFound
  | some .truncated => .error .malformed
  | some (.written metadata) =>
      if metadata.completedAt.isNone &&
          decide ((SystemTime.elapsed now metadata.lastUpdatedAt).getD Duration.max >
            backupTimeout) then
        .error .timedOut
      else
        .ok metadata

/-! ## What is listed -/

structure Backup where
  id : Text
  createdOn : SystemTime
  status : String
  backupType : BackupType
  backupStrategy : BackupStrategy
  serverVersion : Text
  size : Option Nat
  location : Option Text
deriving DecidableEq, Repr

def BackupMetadata.intoBackup (metadata : BackupMetadata) (id : Text) (location : Option Text) :
    Backup where
  id := id
  createdOn := metadata.startedAt
  status := (metadata.completedAt.map fun _ => "completed").getD "in progress"
  backupType := metadata.backupType
  backupStrategy := metadata.backupStrategy
  serverVersion := metadata.serverVersion
  size := metadata.size
  location := location

end GelCli.LocalBackup
