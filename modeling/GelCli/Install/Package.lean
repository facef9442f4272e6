import GelCli.Foundation.Directory
import GelCli.Foundation.Sole
import GelCli.Foundation.Transition

/-!
# Installing a package

`package` of `src/portable/server/install.rs`, as the elementary steps of any number of
processes that install the same version. The directory of the version and the temporary
directory beside it are the same for all of them; the name of the cache file is that of
the package. A process that has opened the cache file goes on with the file it has
opened, also when its name is unlinked.

Nothing orders the steps of different processes, and a process may stop at any of them,
with an error or killed. What it was working on is left in any state then.
-/

namespace GelCli.Install

open GelCli.Foundation

abbrev Inode := Nat

/-- What the processes install. `entries` are the entries that an archive yields before it
ends or breaks off, `whole` whether it ends. -/
structure Setup (Process Name Bytes Digest Entry Info : Type) where
  cacheFileName : Process → Name
  hash : Process → Digest
  digest : Bytes → Digest
  nothing : Bytes
  entries : Bytes → List Entry
  whole : Bytes → Bool
  info : Process → Info

/-! ## The file system -/

/-- A cache file. `writer` is the process that has truncated it when no other one has
written to it since. -/
structure CacheFile (Process Bytes : Type) where
  bytes : Bytes
  writer : Option Process
deriving DecidableEq, Repr

/-- A directory with what is unpacked in it, and its `install_info.json`. -/
structure Tree (Entry Info : Type) where
  entries : List Entry
  info : Option Info
deriving DecidableEq, Repr

def Tree.empty {Entry Info : Type} : Tree Entry Info := ⟨[], none⟩

/-- Where a process stands. A process that downloads knows what it has `received`. -/
inductive Phase (Bytes : Type) where
  | called
  | checked
  | downloading (file : Inode) (received : Bytes)
  | downloaded
  | removed
  | created
  | unpacking (file : Inode) (position : Nat)
  | unpacked
  | described
  | renamed
  | returned
  | failed
deriving DecidableEq, Repr

namespace Phase

variable {Bytes : Type}

/-- From the start of the download to the last entry that is read. -/
def usesCache : Phase Bytes → Bool
  | downloading .. | downloaded | removed | created | unpacking .. => true
  | called | checked | unpacked | described | renamed | returned | failed => false

/-- From the removal of the temporary directory to the rename. -/
def usesTmp : Phase Bytes → Bool
  | removed | created | unpacking .. | unpacked | described => true
  | called | checked | downloading .. | downloaded | renamed | returned | failed => false

/-- The cache file that is open. -/
def opened : Phase Bytes → Option Inode
  | downloading file _ | unpacking file _ => some file
  | called | checked | downloaded | removed | created | unpacked | described | renamed
  | returned | failed => none

end Phase

structure State (Process Name Bytes Entry Info : Type) where
  cache : Directory Name Inode
  file : Inode → CacheFile Process Bytes
  fresh : Inode
  tmpTarget : Option (Tree Entry Info)
  targetDir : Option (Tree Entry Info)
  phase : Process → Phase Bytes

variable {Process Name Bytes Digest Entry Info : Type} [DecidableEq Process] [DecidableEq Name]

namespace State

def setPhase (s : State Process Name Bytes Entry Info) (p : Process) (phase : Phase Bytes) :
    State Process Name Bytes Entry Info :=
  { s with phase := Function.update s.phase p phase }

def setFile (s : State Process Name Bytes Entry Info) (i : Inode)
    (file : CacheFile Process Bytes) : State Process Name Bytes Entry Info :=
  { s with file := Function.update s.file i file }

end State

/-! ## The steps -/

inductive Event (Process Bytes Entry Info : Type) where
  | check (p : Process)
  /-- `File::create` of the cache file. -/
  | create (p : Process)
  /-- A chunk is written. In a file that another process works on as well, the bytes are
  any. -/
  | chunk (p : Process) (received left : Bytes)
  | verify (p : Process)
  | removeTmp (p : Process)
  | createTmp (p : Process)
  | openCache (p : Process)
  | unpackEntry (p : Process)
  /-- A write that fails when the file is dropped goes unnoticed. -/
  | writeInfo (p : Process) (written : Bool)
  | rename (p : Process)
  | unlinkCache (p : Process) (removed : Bool)
  /-- An error, or a kill. -/
  | stop (p : Process)
  /-- The same while the process works on the temporary directory. -/
  | stopInTmp (p : Process) (left : Option (Tree Entry Info))

section Steps

variable (setup : Setup Process Name Bytes Digest Entry Info)
  (s : State Process Name Bytes Entry Info) (p : Process)

/-- A file that is there is truncated. -/
def createCache : State Process Name Bytes Entry Info :=
  match s.cache (setup.cacheFileName p) with
  | some i => (s.setFile i ⟨setup.nothing, some p⟩).setPhase p (.downloading i setup.nothing)
  | none =>
      { (s.setFile s.fresh ⟨setup.nothing, some p⟩).setPhase p
          (.downloading s.fresh setup.nothing) with
        cache := s.cache.link (setup.cacheFileName p) s.fresh
        fresh := s.fresh + 1 }

def writeChunk (i : Inode) (received left : Bytes) : State Process Name Bytes Entry Info :=
  (s.setFile i (if (s.file i).writer = some p then ⟨received, some p⟩ else ⟨left, none⟩)).setPhase
    p (.downloading i received)

/-- The digest is that of what was received. -/
def verifyDigest [DecidableEq Digest] (received : Bytes) : State Process Name Bytes Entry Info :=
  s.setPhase p (if setup.digest received = setup.hash p then .downloaded else .failed)

def openArchive : State Process Name Bytes Entry Info :=
  match s.cache (setup.cacheFileName p) with
  | some i => s.setPhase p (.unpacking i 0)
  | none => s.setPhase p .failed

/-- The next entry of the archive; without the temporary directory it cannot be
unpacked. -/
def unpackNext (i : Inode) (position : Nat) : State Process Name Bytes Entry Info :=
  match (setup.entries (s.file i).bytes)[position]?, s.tmpTarget with
  | some entry, some tree =>
      { s.setPhase p (.unpacking i (position + 1)) with
        tmpTarget := some { tree with entries := tree.entries ++ [entry] } }
  | some _, none => s.setPhase p .failed
  | none, _ => s.setPhase p (if setup.whole (s.file i).bytes then .unpacked else .failed)

/-- `write_json`, which creates the directory when it is missing. -/
def writeInfo (written : Bool) : State Process Name Bytes Entry Info :=
  { s.setPhase p .described with
    tmpTarget := some { s.tmpTarget.getD .empty with
      info := if written then some (setup.info p) else none } }

/-- A directory is replaced only when it is empty. -/
def renameTmp : State Process Name Bytes Entry Info :=
  match s.tmpTarget with
  | none => s.setPhase p .failed
  | some tree =>
      match s.targetDir with
      | some ⟨_ :: _, _⟩ | some ⟨_, some _⟩ => s.setPhase p .failed
      | some ⟨[], none⟩ | none =>
          { s.setPhase p .renamed with tmpTarget := none, targetDir := some tree }

def unlinkCache (removed : Bool) : State Process Name Bytes Entry Info :=
  if removed then
    { s.setPhase p .returned with cache := s.cache.unlink (setup.cacheFileName p) }
  else s.setPhase p .returned

end Steps

def next [DecidableEq Digest] (setup : Setup Process Name Bytes Digest Entry Info)
    (s : State Process Name Bytes Entry Info) :
    Event Process Bytes Entry Info → Option (State Process Name Bytes Entry Info)
  | .check p =>
      match s.phase p with
      | .called => some (s.setPhase p (if s.targetDir.isSome then .returned else .checked))
      | _ => none
  | .create p =>
      match s.phase p with
      | .checked => some (createCache setup s p)
      | _ => none
  | .chunk p received left =>
      match s.phase p with
      | .downloading i _ => some (writeChunk s p i received left)
      | _ => none
  | .verify p =>
      match s.phase p with
      | .downloading _ received => some (verifyDigest setup s p received)
      | _ => none
  | .removeTmp p =>
      match s.phase p with
      | .downloaded => some { s.setPhase p .removed with tmpTarget := none }
      | _ => none
  | .createTmp p =>
      match s.phase p with
      | .removed => some { s.setPhase p .created with tmpTarget := some (s.tmpTarget.getD .empty) }
      | _ => none
  | .openCache p =>
      match s.phase p with
      | .created => some (openArchive setup s p)
      | _ => none
  | .unpackEntry p =>
      match s.phase p with
      | .unpacking i position => some (unpackNext setup s p i position)
      | _ => none
  | .writeInfo p written =>
      match s.phase p with
      | .unpacked => some (writeInfo setup s p written)
      | _ => none
  | .rename p =>
      match s.phase p with
      | .described => some (renameTmp s p)
      | _ => none
  | .unlinkCache p removed =>
      match s.phase p with
      | .renamed => some (unlinkCache setup s p removed)
      | _ => none
  | .stop p => some (s.setPhase p .failed)
  | .stopInTmp p left =>
      match s.phase p with
      | .downloaded | .unpacking .. | .unpacked =>
          some { s.setPhase p .failed with tmpTarget := left }
      | _ => none

/-- What each step does, and where the process stands before it. -/
inductive Steps [DecidableEq Digest] (setup : Setup Process Name Bytes Digest Entry Info)
    (s : State Process Name Bytes Entry Info) :
    Event Process Bytes Entry Info → State Process Name Bytes Entry Info → Prop where
  | check {p : Process} : s.phase p = .called →
      Steps setup s (.check p) (s.setPhase p (if s.targetDir.isSome then .returned else .checked))
  | create {p : Process} : s.phase p = .checked → Steps setup s (.create p) (createCache setup s p)
  | chunk {p : Process} {i : Inode} {before received left : Bytes} :
      s.phase p = .downloading i before →
      Steps setup s (.chunk p received left) (writeChunk s p i received left)
  | verify {p : Process} {i : Inode} {received : Bytes} : s.phase p = .downloading i received →
      Steps setup s (.verify p) (verifyDigest setup s p received)
  | removeTmp {p : Process} : s.phase p = .downloaded →
      Steps setup s (.removeTmp p) { s.setPhase p .removed with tmpTarget := none }
  | createTmp {p : Process} : s.phase p = .removed →
      Steps setup s (.createTmp p)
        { s.setPhase p .created with tmpTarget := some (s.tmpTarget.getD .empty) }
  | openCache {p : Process} : s.phase p = .created →
      Steps setup s (.openCache p) (openArchive setup s p)
  | unpackEntry {p : Process} {i : Inode} {position : Nat} : s.phase p = .unpacking i position →
      Steps setup s (.unpackEntry p) (unpackNext setup s p i position)
  | writeInfo {p : Process} {written : Bool} : s.phase p = .unpacked →
      Steps setup s (.writeInfo p written) (writeInfo setup s p written)
  | rename {p : Process} : s.phase p = .described → Steps setup s (.rename p) (renameTmp s p)
  | unlinkCache {p : Process} {removed : Bool} : s.phase p = .renamed →
      Steps setup s (.unlinkCache p removed) (unlinkCache setup s p removed)
  | stop {p : Process} : Steps setup s (.stop p) (s.setPhase p .failed)
  | stopInTmp {p : Process} {left : Option (Tree Entry Info)} :
      Steps setup s (.stopInTmp p left) { s.setPhase p .failed with tmpTarget := left }

theorem steps_of_next [DecidableEq Digest] {setup : Setup Process Name Bytes Digest Entry Info}
    {s t : State Process Name Bytes Entry Info} {e : Event Process Bytes Entry Info}
    (h : next setup s e = some t) : Steps setup s e t := by
  cases e with
  | stop p =>
      cases h
      exact .stop
  | stopInTmp p left =>
      simp only [next] at h
      split at h
      · cases h
        exact .stopInTmp
      · cases h
        exact .stopInTmp
      · cases h
        exact .stopInTmp
      · cases h
  | check p | create p | chunk p received left | verify p | removeTmp p | createTmp p
  | openCache p | unpackEntry p | writeInfo p written | rename p | unlinkCache p removed =>
      simp only [next] at h
      split at h
      · next hphase =>
        cases h
        constructor
        exact hphase
      · cases h

/-- The version is not installed, or it is with all that belongs to it. Whatever else
killed processes have left is there. -/
structure Initial (Complete : Tree Entry Info → Prop) (s : State Process Name Bytes Entry Info) :
    Prop where
  called : ∀ p, s.phase p = .called
  target : ∀ tree, s.targetDir = some tree → Complete tree
  linked : ∀ name other i, s.cache name = some i → s.cache other = some i → name = other
  fresh : ∀ name i, s.cache name = some i → i < s.fresh

/-- Every entry of a package whose digest was verified, and the metadata. -/
def Complete (setup : Setup Process Name Bytes Digest Entry Info) (tree : Tree Entry Info) : Prop :=
  ∃ p bytes, setup.digest bytes = setup.hash p ∧
    (∀ entry ∈ setup.entries bytes, entry ∈ tree.entries) ∧ tree.info = some (setup.info p)

def installs [DecidableEq Digest] (setup : Setup Process Name Bytes Digest Entry Info) :
    System (State Process Name Bytes Entry Info) (Event Process Bytes Entry Info) where
  Initial := Initial (Complete setup)
  next := next setup

end GelCli.Install
