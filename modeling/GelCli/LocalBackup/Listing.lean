import GelCli.Foundation.Directory
import GelCli.Foundation.Transition
import GelCli.LocalBackup.Metadata

/-!
# Backups and listings of one backups directory

`LocalBackup::backup` and `LocalBackup::list_backups` as processes that share the
backups directory of an instance. One event is one file operation of one process;
a `fs::write` is two, the truncation and the write. The clock may read anything,
and the time that really passes is kept beside it.

A backup has one directory, so the directory is named by the backup's id: its
inode stays the same when `.<id>.tmp` is renamed to `<id>`.
-/

namespace GelCli.LocalBackup

open GelCli.Foundation

/-! ## Names -/

/-- The texts of `uuid::Uuid`. -/
structure UuidText (Uuid : Type) where
  toText : Uuid → Text
  parseStr : Text → Option Uuid
  parseStr_toText : ∀ id, parseStr (toText id) = some id
  head_toText : ∀ id, (toText id).head? ≠ some '.'

def backupTmpSuffix : Text := ".tmp".toList

namespace UuidText

variable {Uuid : Type} (U : UuidText Uuid)

/-- The name of `target_dir`. -/
def targetName (id : Uuid) : Text := U.toText id

/-- The name of `temp_dir`. -/
def tempName (id : Uuid) : Text := '.' :: U.toText id ++ backupTmpSuffix

/-- The id a directory name stands for; `none` is the panic of the `unwrap` when the
period belongs to the suffix. -/
def parseName (name : Text) : Option (Option Uuid) :=
  if name.head? = some '.' ∧ backupTmpSuffix <:+ name then
    if backupTmpSuffix <:+ name.tail then
      some (U.parseStr (name.tail.take (name.tail.length - backupTmpSuffix.length)))
    else none
  else some (U.parseStr name)

theorem parseName_targetName (id : Uuid) : U.parseName (U.targetName id) = some (some id) := by
  have hhead : ¬ ((U.targetName id).head? = some '.' ∧ backupTmpSuffix <:+ U.targetName id) :=
    fun h => U.head_toText id h.1
  rw [parseName, if_neg hhead, targetName, U.parseStr_toText]

theorem parseName_tempName (id : Uuid) : U.parseName (U.tempName id) = some (some id) := by
  have hsuffix : backupTmpSuffix <:+ (U.tempName id).tail := ⟨U.toText id, rfl⟩
  have hhead : (U.tempName id).head? = some '.' ∧ backupTmpSuffix <:+ U.tempName id :=
    ⟨rfl, hsuffix.trans (List.tail_suffix _)⟩
  rw [parseName, if_pos hhead, if_pos hsuffix]
  simp [tempName, U.parseStr_toText]

theorem targetName_injective {id id' : Uuid} (h : U.targetName id = U.targetName id') :
    id = id' := by
  have hparse := U.parseName_targetName id
  rw [h, U.parseName_targetName id'] at hparse
  cases hparse
  rfl

theorem targetName_ne_tempName (id id' : Uuid) : U.targetName id ≠ U.tempName id' := by
  intro h
  exact U.head_toText id (by rw [targetName] at h; rw [h]; rfl)

end UuidText

/-- One UUID and its text. -/
def sampleText : UuidText Unit where
  toText _ := "0193b3c4-5d6e-7f80-9a1b-2c3d4e5f6071".toList
  parseStr text := if text = "0193b3c4-5d6e-7f80-9a1b-2c3d4e5f6071".toList then some () else none
  parseStr_toText _ := rfl
  head_toText _ := by decide

/-! ## States -/

/-- What an entry of the backups directory is: the directory of a backup, another
directory, or a file such as `latest`. -/
inductive Inode (Uuid : Type) where
  | backup (id : Uuid)
  | folder (n : Nat)
  | file (n : Nat)
deriving DecidableEq

inductive Phase where
  | created
  | live
  | finalizing
  | finalized
  | completed
  | stopped
deriving DecidableEq, Repr

/-- A running, completed or stopped backup. `stampedAt` is the real time at which
the clock was read for `metadata`, `refreshedAt` the one of the metadata last
written. -/
structure Process where
  phase : Phase
  writing : Bool
  metadata : BackupMetadata
  stampedAt : Nat
  refreshedAt : Option Nat
deriving DecidableEq, Repr

/-- Where a call of `list_backups` stands. -/
inductive Listing (Uuid : Type) where
  | idle
  | scanning (pending toRemove : List Text) (backups : List Backup)
  | reading (name : Text) (id : Uuid) (pending toRemove : List Text) (backups : List Backup)
  | removing (toRemove : List Text) (backups : List Backup)
  | clearing (name : Text) (inode : Inode Uuid) (toRemove : List Text) (backups : List Backup)
  | listed (backups : List Backup)

namespace Listing

variable {Uuid : Type}

/-- The paths on the list to be removed. -/
def toRemove : Listing Uuid → List Text
  | idle | listed _ => []
  | scanning _ toRemove _ | reading _ _ _ toRemove _ | removing toRemove _
  | clearing _ _ toRemove _ => toRemove

/-- The directory that `remove_dir_all` has opened. -/
def opened : Listing Uuid → Option (Inode Uuid)
  | clearing _ inode _ _ => some inode
  | idle | scanning _ _ _ | reading _ _ _ _ _ | removing _ _ | listed _ => none

/-- The names that `read_dir` answered and that may still be used. -/
def seen : Listing Uuid → List Text
  | idle | listed _ => []
  | scanning pending toRemove _ => pending ++ toRemove
  | reading name _ pending toRemove _ => name :: pending ++ toRemove
  | removing toRemove _ => toRemove
  | clearing _ _ toRemove _ => toRemove

theorem mem_seen {listing : Listing Uuid} {name : Text} (h : name ∈ listing.toRemove) :
    name ∈ listing.seen := by
  cases listing <;> simp_all [toRemove, seen]

end Listing

variable {Uuid Lister : Type} [DecidableEq Uuid] [DecidableEq Lister]

structure State (Uuid Lister : Type) where
  names : Directory Text (Inode Uuid)
  document : Inode Uuid → Option Document
  processes : Uuid → Option Process
  listings : Lister → Listing Uuid
  time : Nat

namespace State

def setListing (s : State Uuid Lister) (l : Lister) (listing : Listing Uuid) :
    State Uuid Lister :=
  { s with listings := Function.update s.listings l listing }

def setProcess (s : State Uuid Lister) (id : Uuid) (process : Process) : State Uuid Lister :=
  { s with processes := Function.update s.processes id (some process) }

def setDocument (s : State Uuid Lister) (inode : Inode Uuid) (document : Option Document) :
    State Uuid Lister :=
  { s with document := Function.update s.document inode document }

end State

inductive Event (Uuid Lister : Type) where
  | createDir (id : Uuid) (metadata : BackupMetadata)
  | openMetadata (id : Uuid) (now : SystemTime)
  | openFinal (id : Uuid) (now : SystemTime) (size : Nat)
  | writeMetadata (id : Uuid)
  | rename (id : Uuid)
  | stop (id : Uuid) (cleanup : Bool)
  | startList (l : Lister)
  | readDir (l : Lister) (names : List Text)
  | stat (l : Lister)
  | readMetadata (l : Lister) (now : SystemTime)
  | endScan (l : Lister)
  | openRemoved (l : Lister)
  | removeAll (l : Lister)
  | finishList (l : Lister)
  | tick (elapsed : Nat)

/-! ## The steps of a backup -/

variable (U : UuidText Uuid)

/-- `create_dir_all(&temp_dir)`, after the first reading of the clock. -/
def createDir (s : State Uuid Lister) (id : Uuid) (metadata : BackupMetadata) :
    Option (State Uuid Lister) :=
  match s.processes id, s.names (U.tempName id) with
  | none, none =>
      if metadata.completedAt = none then
        some (({ s with names := s.names.link (U.tempName id) (.backup id) }.setDocument
          (.backup id) none).setProcess id ⟨.created, false, metadata, s.time, none⟩)
      else none
  | _, _ => none

/-- The open and truncation of a `fs::write` to `metadata_file`. The first one fails
the backup when the directory is gone, the liveness task goes on. -/
def openMetadata (s : State Uuid Lister) (id : Uuid) (now : SystemTime) :
    Option (State Uuid Lister) := do
  let process ← s.processes id
  if process.writing then none else
  match process.phase with
  | .created =>
      if s.names (U.tempName id) = some (.backup id) then
        some ((s.setDocument (.backup id) (some .truncated)).setProcess id
          { process with writing := true })
      else some (s.setProcess id { process with phase := .stopped })
  | .live =>
      if s.names (U.tempName id) = some (.backup id) then
        some ((s.setDocument (.backup id) (some .truncated)).setProcess id
          { process with
            writing := true
            metadata := process.metadata.updated now
            stampedAt := s.time })
      else some (s.setProcess id { process with metadata := process.metadata.updated now })
  | .finalizing | .finalized | .completed | .stopped => none

/-- The final rewrite, after the liveness task was awaited: the clock is read and
the file opened and truncated. -/
def openFinal (s : State Uuid Lister) (id : Uuid) (now : SystemTime) (size : Nat) :
    Option (State Uuid Lister) := do
  let process ← s.processes id
  if process.writing then none else
  match process.phase with
  | .live =>
      if s.names (U.tempName id) = some (.backup id) then
        some ((s.setDocument (.backup id) (some .truncated)).setProcess id
          { process with
            phase := .finalizing
            writing := true
            metadata := process.metadata.completed now size
            stampedAt := s.time })
      else some (s.setProcess id { process with phase := .stopped })
  | .created | .finalizing | .finalized | .completed | .stopped => none

/-- The write of a `fs::write`. It reaches the file only if that is still there. -/
def writeMetadata (s : State Uuid Lister) (id : Uuid) : Option (State Uuid Lister) := do
  let process ← s.processes id
  if process.writing then
    let written := (s.document (.backup id)).map fun _ => .written process.metadata
    let refreshedAt := if written.isSome then some process.stampedAt else process.refreshedAt
    let done := (s.setDocument (.backup id) written).setProcess id
    match process.phase with
    | .created | .live =>
        some (done { process with
          phase := .live
          writing := false
          refreshedAt := refreshedAt })
    | .finalizing =>
        some (done { process with
          phase := .finalized
          writing := false
          refreshedAt := refreshedAt })
    | .finalized | .completed | .stopped => none
  else none

/-- `rename(temp_dir, target_dir)`. -/
def rename (s : State Uuid Lister) (id : Uuid) : Option (State Uuid Lister) := do
  let process ← s.processes id
  if process.phase = .finalized then
    if s.names (U.tempName id) = some (.backup id) ∧ s.names (U.targetName id) = none then
      some ({ s with names := s.names.rename (U.tempName id) (U.targetName id) }.setProcess id
        { process with phase := .completed })
    else some (s.setProcess id { process with phase := .stopped, writing := false })
  else none

/-- The backup ends with an error or is killed. While the liveness task runs, an
error removes the directory. -/
def stop (s : State Uuid Lister) (id : Uuid) (cleanup : Bool) : Option (State Uuid Lister) := do
  let process ← s.processes id
  if process.phase = .completed then none else
  let stopped := s.setProcess id { process with phase := .stopped, writing := false }
  if cleanup && decide (process.phase = .live) then
    some { stopped with names := s.names.unlink (U.tempName id) }
  else some stopped

/-! ## The steps of a listing -/

def startList (s : State Uuid Lister) (l : Lister) : Option (State Uuid Lister) :=
  match s.listings l with
  | .idle | .listed _ => some (s.setListing l (.scanning [] [] []))
  | _ => none

/-- `read_dir` answers names that are there. -/
def readDir (s : State Uuid Lister) (l : Lister) (names : List Text) :
    Option (State Uuid Lister) :=
  match s.listings l with
  | .scanning pending toRemove backups =>
      if names.all fun name => (s.names name).isSome then
        some (s.setListing l (.scanning (pending ++ names) toRemove backups))
      else none
  | _ => none

/-- `entry.metadata()` and the reading of the name. -/
def stat (s : State Uuid Lister) (l : Lister) : Option (State Uuid Lister) :=
  match s.listings l with
  | .scanning (name :: pending) toRemove backups =>
      match s.names name with
      | none => some (s.setListing l (.scanning pending (toRemove ++ [name]) backups))
      | some (.file _) => some (s.setListing l (.scanning pending toRemove backups))
      | some (.backup _) | some (.folder _) =>
          match U.parseName name with
          | none => some (s.setListing l .idle)
          | some none => some (s.setListing l (.scanning pending (toRemove ++ [name]) backups))
          | some (some id) => some (s.setListing l (.reading name id pending toRemove backups))
  | _ => none

/-- `BackupMetadata::from_file` on the `backup.json` of what the name names now. -/
def readMetadata (s : State Uuid Lister) (l : Lister) (now : SystemTime) :
    Option (State Uuid Lister) :=
  match s.listings l with
  | .reading name id pending toRemove backups =>
      match BackupMetadata.fromFile ((s.names name).bind s.document) now with
      | .error _ => some (s.setListing l (.scanning pending (toRemove ++ [name]) backups))
      | .ok metadata =>
          some (s.setListing l (.scanning pending toRemove
            (backups ++ [metadata.intoBackup (U.toText id) (some name)])))
  | _ => none

def endScan (s : State Uuid Lister) (l : Lister) : Option (State Uuid Lister) :=
  match s.listings l with
  | .scanning [] toRemove backups => some (s.setListing l (.removing toRemove backups))
  | _ => none

/-- `remove_dir_all` opens the directory that the path names. -/
def openRemoved (s : State Uuid Lister) (l : Lister) : Option (State Uuid Lister) :=
  match s.listings l with
  | .removing (name :: toRemove) backups =>
      match s.names name with
      | none | some (.file _) => some (s.setListing l (.removing toRemove backups))
      | some inode => some (s.setListing l (.clearing name inode toRemove backups))
  | _ => none

/-- `remove_dir_all` empties the directory it has opened, and removes the name if it
still names that directory. -/
def removeAll (s : State Uuid Lister) (l : Lister) : Option (State Uuid Lister) :=
  match s.listings l with
  | .clearing name inode toRemove backups =>
      let cleared := (s.setDocument inode none).setListing l (.removing toRemove backups)
      if s.names name = some inode then
        some { cleared with names := s.names.unlink name }
      else some cleared
  | _ => none

def finishList (s : State Uuid Lister) (l : Lister) : Option (State Uuid Lister) :=
  match s.listings l with
  | .removing [] backups =>
      some (s.setListing l (.listed
        (backups.mergeSort fun a b => decide (a.createdOn ≤ b.createdOn))))
  | _ => none

/-! ## The system -/

def next (s : State Uuid Lister) : Event Uuid Lister → Option (State Uuid Lister)
  | .createDir id metadata => createDir U s id metadata
  | .openMetadata id now => openMetadata U s id now
  | .openFinal id now size => openFinal U s id now size
  | .writeMetadata id => writeMetadata s id
  | .rename id => rename U s id
  | .stop id cleanup => stop U s id cleanup
  | .startList l => startList s l
  | .readDir l names => readDir s l names
  | .stat l => stat U s l
  | .readMetadata l now => readMetadata U s l now
  | .endScan l => endScan s l
  | .openRemoved l => openRemoved s l
  | .removeAll l => removeAll s l
  | .finishList l => finishList s l
  | .tick elapsed => some { s with time := s.time + elapsed }

/-- Backups taken before are completed or have stopped; a completed one has its
directory under its own name and its completion recorded. -/
structure Initial (s : State Uuid Lister) : Prop where
  idle : ∀ l, s.listings l = .idle
  settled : ∀ id process, s.processes id = some process →
    (process.phase = .completed ∨ process.phase = .stopped) ∧ process.writing = false
  named : ∀ name id, s.names name = some (.backup id) →
    name = U.tempName id ∨ name = U.targetName id
  target : ∀ id, s.names (U.targetName id) ≠ none →
    ∃ process, s.processes id = some process ∧ process.phase = .completed
  recorded : ∀ id process, s.processes id = some process → process.phase = .completed →
    ∃ metadata, s.document (.backup id) = some (.written metadata) ∧
      metadata.completedAt.isSome

def backups (Lister : Type) [DecidableEq Lister] :
    System (State Uuid Lister) (Event Uuid Lister) where
  Initial := Initial U
  next := next U

end GelCli.LocalBackup
