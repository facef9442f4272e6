import GelCli.Foundation.Commands
import GelCli.Foundation.Text

/-!
# Upgrading and reverting an instance

`upgrade_incompatible` of `src/instance/upgrade.rs` and `run` of
`src/instance/revert.rs`, over the paths of one instance: the data directory, the
backup directory, the dump, the upgrade marker, the directory that `revert` moves
the data aside to, and the credentials file.

Every operation may fail and end the command. A failed rename leaves everything as
it was; whatever else fails leaves what it worked on in any state.

`working` and `moved` are kept beside the paths: the data the instance last ran
with, and the data that an upgrade has moved away and nothing has brought back.
-/

namespace GelCli.Upgrade

open GelCli.Foundation

/-! ## The paths of an instance -/

/-- `ver::Build`, of which the commands only look at the major version. -/
structure Build where
  major : Nat
  rest : Text
deriving DecidableEq, Repr

structure InstanceInfo where
  installation : Option Build
  port : Nat
deriving DecidableEq, Repr

structure UpgradeMeta where
  source : Build
  target : Build
  started : Int
  pid : Nat
deriving DecidableEq, Repr

structure BackupMeta where
  timestamp : Int
deriving DecidableEq, Repr

/-- A JSON file: missing, not readable as what it should hold, or readable. -/
inductive JsonFile (α : Type) where
  | missing
  | corrupt
  | holds (value : α)
deriving DecidableEq, Repr

namespace JsonFile

variable {α : Type}

def read? : JsonFile α → Option α
  | holds value => some value
  | missing | corrupt => none

def there : JsonFile α → Bool
  | missing => false
  | corrupt | holds _ => true

end JsonFile

/-- A data directory. `data` is there when the database in it is complete. -/
structure Contents (Data : Type) where
  data : Option Data
  instanceInfo : JsonFile InstanceInfo
  backupMeta : JsonFile BackupMeta
deriving DecidableEq, Repr

/-- A dump directory: its files, and the data when the dump is complete. -/
structure Dump (Data : Type) where
  files : List Text
  data : Option Data
deriving DecidableEq, Repr

structure Credentials where
  database : Option Text
  branch : Option Text
deriving DecidableEq, Repr

structure Instance (Data : Type) where
  dataDir : Option (Contents Data)
  oldBackupDir : Option (Contents Data)
  tmpPath : Option (Contents Data)
  dumpPath : Option (Dump Data)
  upgradeMarker : JsonFile UpgradeMeta
  credentials : JsonFile Credentials
  working : Data
  moved : Option Data
deriving DecidableEq, Repr

/-! ## The status -/

inductive DataDirectory where
  | absent
  | noMetadata
  | upgrading (marker : JsonFile UpgradeMeta)
  | normal
deriving DecidableEq, Repr

variable {Data : Type}

/-- The `data_status` of `status_from_meta`. -/
def dataStatus (s : Instance Data) : DataDirectory :=
  match s.dataDir with
  | none => .absent
  | some contents =>
      if s.upgradeMarker.there then .upgrading s.upgradeMarker
      else if contents.instanceInfo.read?.isSome then .normal
      else .noMetadata

/-! ## Failing operations -/

inductive Step where
  | install
  | dump
  | writeMarker
  | writeBackupMeta
  | removeOldBackup
  | renameData
  | readDump
  | askRename
  | renameDump
  | writeCredentials
  | createDataDir
  | restore
  | writeInstanceInfo
  | copyCertificates
  | removeMarker
  | restart
  | askRevert
  | stop
  | renameAway
  | renameBack
  | readCredentials
  | removeBackupMeta
  | removeTmp
deriving DecidableEq, Repr

/-- Which operations of a command fail, and what they leave. -/
structure Faults (Data : Type) where
  fails : Step → Bool
  dumpLeft : Option (Dump Data)
  markerLeft : JsonFile UpgradeMeta
  backupMetaLeft : JsonFile BackupMeta
  backupLeft : Option (Contents Data)
  dataLeft : Contents Data
  credentialsLeft : JsonFile Credentials
  tmpLeft : Option (Contents Data)

inductive CommandError where
  | failed (step : Step)
  | noInstance
  | noInstallation
  | alreadyInProgress
  | noBackup
  | badBackup
  | stillInProgress
deriving DecidableEq, Repr

abbrev Command (Data : Type) := EStateM CommandError (Instance Data)

variable (faults : Faults Data)

/-- An operation and what it leaves when it fails. -/
def operation (step : Step) (left : Instance Data → Instance Data)
    (f : Instance Data → Option (Instance Data)) : Command Data Unit :=
  attempt (.failed step) (if faults.fails step then some left else none) f

/-- An operation that changes nothing here. -/
def check (step : Step) : Command Data Unit := operation faults step id some

/-- `write_json` to the upgrade marker. -/
def writeMarker (marker : UpgradeMeta) : Command Data Unit :=
  operation faults .writeMarker (fun s => { s with upgradeMarker := faults.markerLeft })
    fun s => some { s with upgradeMarker := .holds marker }

/-- A write into the data directory, which has to be there. -/
def onData (step : Step) (left : Contents Data → Contents Data)
    (f : Contents Data → Contents Data) : Command Data Unit :=
  operation faults step (fun s => { s with dataDir := s.dataDir.map left })
    fun s => s.dataDir.map fun contents => { s with dataDir := some (f contents) }

/-- A rename between two directories: the old one has to be there, the new one not. -/
def renameDir (old new : Option (Contents Data)) : Option (Contents Data) :=
  match old, new with
  | some contents, none => some contents
  | _, _ => none

/-- `control::do_restart`. The instance runs with the data of its directory. -/
def restart : Command Data Unit :=
  operation faults .restart id fun s => do
    let contents ← s.dataDir
    let data ← contents.data
    pure { s with working := data }

/-! ## Upgrading -/

structure UpgradeArgs where
  version : Build
  nonInteractive : Bool
  rename : Bool
  dumpFiles : List Text
  now : Int
  pid : Nat

variable (args : UpgradeArgs)

/-- `dump_and_stop`: the instance runs while it is dumped. -/
def dumpAndStop : Command Data Unit :=
  operation faults .dump (fun s => { s with dumpPath := faults.dumpLeft }) fun s => do
    let contents ← s.dataDir
    let data ← contents.data
    pure { s with dumpPath := some ⟨args.dumpFiles, some data⟩, working := data }

/-- `rename(&paths.data_dir, &paths.old_backup_dir)`. -/
def moveData : Command Data Unit :=
  operation faults .renameData id fun s => do
    let contents ← renameDir s.dataDir s.oldBackupDir
    pure { s with dataDir := none, oldBackupDir := some contents, moved := contents.data }

def removeOldBackup : Command Data Unit := do
  let s ← get
  if s.oldBackupDir.isSome then
    operation faults .removeOldBackup (fun s => { s with oldBackupDir := faults.backupLeft })
      fun s => some { s with oldBackupDir := none }
  else pure ()

def backup (oldVersion : Build) : Command Data Unit := do
  let s ← get
  if s.upgradeMarker.there then throw .alreadyInProgress
  else do
    writeMarker faults ⟨oldVersion, args.version, args.now, args.pid⟩
    onData faults .writeBackupMeta
      (fun contents => { contents with backupMeta := faults.backupMetaLeft })
      fun contents => { contents with backupMeta := .holds ⟨args.now⟩ }
    removeOldBackup faults
    moveData faults

def edgedbDump : Text := "edgedb.dump".toList

def mainDump : Text := "main.dump".toList

def askRename : Command Data Unit :=
  if args.nonInteractive then pure () else check faults .askRename

def renameDump : Command Data Unit :=
  operation faults .renameDump id fun s => some { s with
    dumpPath := s.dumpPath.map fun dump =>
      { dump with files := dump.files.map fun file =>
          if file = edgedbDump then mainDump else file } }

def renameCredentials : Command Data Unit := do
  let s ← get
  if s.credentials.read?.bind Credentials.database = some "edgedb".toList then
    operation faults .writeCredentials
      (fun s => { s with credentials := faults.credentialsLeft })
      fun s => some { s with credentials := .holds ⟨none, none⟩ }
  else pure ()

/-- The default database of an instance before 5.0 takes its new name in the dump and
in the credentials. -/
def renameDefaultDatabase (oldVersion : Build) : Command Data Unit :=
  if oldVersion.major ≤ 4 ∧ 5 ≤ args.version.major then do
    check faults .readDump
    let s ← get
    match s.dumpPath with
    | none => throw (.failed .readDump)
    | some dump =>
        if mainDump ∈ dump.files then pure ()
        else if edgedbDump ∈ dump.files then do
          askRename faults args
          if args.nonInteractive || args.rename then do
            renameDump faults
            renameCredentials faults
          else pure ()
        else pure ()
  else pure ()

/-- `reinit_and_restore` with the new installation. -/
def reinitAndRestore (info : InstanceInfo) : Command Data Unit := do
  operation faults .createDataDir id fun s =>
    some { s with dataDir := some (s.dataDir.getD ⟨none, .missing, .missing⟩) }
  operation faults .restore (fun s => { s with dataDir := some faults.dataLeft }) fun s => do
    let contents ← s.dataDir
    let dump ← s.dumpPath
    let data ← dump.data
    pure { s with dataDir := some { contents with data := some data } }
  onData faults .writeInstanceInfo (fun _ => faults.dataLeft)
    fun contents => { contents with
      instanceInfo := .holds { info with installation := some args.version } }
  onData faults .copyCertificates (fun _ => faults.dataLeft) id

def upgradeIncompatible : Command Data Unit := do
  let s ← get
  match s.dataDir.bind fun contents => contents.instanceInfo.read? with
  | none => throw .noInstance
  | some info =>
      match info.installation with
      | none => throw .noInstallation
      | some oldVersion => do
          check faults .install
          dumpAndStop faults args
          backup faults args oldVersion
          renameDefaultDatabase faults args oldVersion
          reinitAndRestore faults args info
          operation faults .removeMarker (fun s => { s with upgradeMarker := faults.markerLeft })
            fun s => some { s with upgradeMarker := .missing }
          restart faults
          modify fun s => { s with moved := none }

/-! ## Reverting -/

structure RevertArgs where
  ignorePidCheck : Bool
  noConfirm : Bool
  pidExists : Bool

/-- The checks before anything is changed: the backup's metadata, and the process of an
upgrade that may still be running. -/
def readBackup (args : RevertArgs) (s : Instance Data) : Except CommandError Build :=
  match s.oldBackupDir with
  | none => .error .noBackup
  | some contents =>
      match contents.backupMeta.read?, contents.instanceInfo.read? with
      | some _, some info =>
          match info.installation with
          | none => .error .noInstallation
          | some oldVersion =>
              match dataStatus s with
              | .upgrading (.holds _) =>
                  if !args.ignorePidCheck && args.pidExists then .error .stillInProgress
                  else .ok oldVersion
              | _ => .ok oldVersion
      | _, _ => .error .badBackup

def currentVersion (s : Instance Data) : Option Build := do
  let contents ← s.dataDir
  let info ← contents.instanceInfo.read?
  info.installation

/-- `rename(&paths.data_dir, &tmp_path)`. -/
def moveAway : Command Data Unit :=
  operation faults .renameAway id fun s => do
    let contents ← renameDir s.dataDir s.tmpPath
    pure { s with dataDir := none, tmpPath := some contents }

/-- `rename(&paths.old_backup_dir, &paths.data_dir)`. -/
def moveBack : Command Data Unit :=
  operation faults .renameBack id fun s => do
    let contents ← renameDir s.oldBackupDir s.dataDir
    pure { s with oldBackupDir := none, dataDir := some contents, moved := none }

/-- The default database of an instance before 5.0 takes its old name in the
credentials. -/
def revertCredentials (oldVersion : Build) (current : Option Build) : Command Data Unit :=
  match current with
  | none => pure ()
  | some current =>
      if oldVersion.major ≤ 4 ∧ 5 ≤ current.major then do
        check faults .readDump
        let s ← get
        match s.dumpPath with
        | none => throw (.failed .readDump)
        | some dump =>
            if edgedbDump ∉ dump.files ∧ mainDump ∈ dump.files then do
              check faults .readCredentials
              match s.credentials with
              | .missing => pure ()
              | .corrupt => throw (.failed .readCredentials)
              | .holds _ =>
                  operation faults .writeCredentials
                    (fun s => { s with credentials := faults.credentialsLeft })
                    fun s => some { s with
                      credentials := .holds ⟨some "edgedb".toList, some "edgedb".toList⟩ }
            else pure ()
      else pure ()

def askRevert (args : RevertArgs) : Command Data Unit :=
  if args.noConfirm then pure () else check faults .askRevert

def revert (args : RevertArgs) : Command Data Unit := do
  let s ← get
  let oldVersion ← ofExcept (readBackup args s)
  askRevert faults args
  check faults .stop
  check faults .install
  moveAway faults
  moveBack faults
  revertCredentials faults oldVersion (currentVersion s)
  restart faults
  onData faults .removeBackupMeta id fun contents => { contents with backupMeta := .missing }
  operation faults .removeTmp (fun s => { s with tmpPath := faults.tmpLeft })
    fun s => some { s with tmpPath := none }

end GelCli.Upgrade
