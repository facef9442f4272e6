import GelCli.Foundation.LockTable
import GelCli.Foundation.Transition
import Mathlib.Logic.Function.Basic

/-!
# File locks

The locks of `src/locking.rs` on one path, as the elementary file operations of any number
of processes: `try_create_lock_inner` with its retries, `downgrade` and the drop of a
`LockInner`. The system locks an opened file, and the path may name another file by then.

A process may be killed anywhere, which closes its file.
-/

namespace GelCli.Locking

open GelCli.Foundation

abbrev Inode := Nat

/-- Where a process stands. -/
inductive Phase where
  | idle
  | opened (file : Inode) (type : LockType)
  /-- The file is locked and not written yet. -/
  | locked (file : Inode) (type : LockType)
  /-- A `LockInner::Local`. -/
  | holding (file : Inode) (type : LockType)
  /-- A `LockInner::NoLock`. -/
  | noLock
  /-- A shared lock that is dropped was upgraded. -/
  | upgraded (file : Inode)
  /-- The lock is dropped, the file about to be closed. -/
  | closing (file : Inode) (type : LockType)
deriving DecidableEq, Repr

/-- The lock that the system keeps for a process. -/
def Phase.osLock : Phase → Option (Inode × LockType)
  | idle | opened .. | noLock => none
  | locked i type | holding i type | closing i type => some (i, type)
  | upgraded i => some (i, .exclusive)

/-- Between locking the file and unlinking the path. -/
def Phase.attached : Phase → Option Inode
  | idle | opened .. | noLock | closing .. => none
  | locked i _ | holding i _ | upgraded i => some i

/-- `path` is the file that the path names. -/
structure State (Process : Type) where
  path : Option Inode
  fresh : Inode
  locks : Inode → LockTable Process
  phase : Process → Phase

variable {Process : Type} [DecidableEq Process]

namespace State

def setPhase (s : State Process) (p : Process) (phase : Phase) : State Process :=
  { s with phase := Function.update s.phase p phase }

def grant (s : State Process) (p : Process) (i : Inode) (type : LockType) : State Process :=
  { s with locks := Function.update s.locks i ((s.locks i).grant p type) }

/-- A file that is closed is locked no more. -/
def release (s : State Process) (p : Process) (lock : Option (Inode × LockType)) :
    State Process :=
  match lock with
  | some (i, _) => { s with locks := Function.update s.locks i ((s.locks i).release p) }
  | none => s

end State

inductive Event (Process : Type) where
  | openFile (p : Process) (type : LockType)
  /-- A shared lock in a hook. -/
  | takeNoLock (p : Process)
  | dropNoLock (p : Process)
  | tryLock (p : Process)
  /-- The data of the process is written; where that fails the file is closed. -/
  | writeData (p : Process) (written : Bool)
  | downgrade (p : Process)
  | tryUpgrade (p : Process)
  | unlink (p : Process) (removed : Bool)
  | close (p : Process)
  | kill (p : Process)
deriving DecidableEq, Repr

section Steps

variable (s : State Process) (p : Process)

/-- `open` with `create`. -/
def openFile (type : LockType) : State Process :=
  match s.path with
  | some i => s.setPhase p (.opened i type)
  | none => { s.setPhase p (.opened s.fresh type) with path := some s.fresh, fresh := s.fresh + 1 }

def tryLock (i : Inode) (type : LockType) : State Process :=
  if (s.locks i).grants p type then (s.grant p i type).setPhase p (.locked i type)
  else s.setPhase p .idle

def writeData (i : Inode) (type : LockType) (written : Bool) : State Process :=
  if written then s.setPhase p (.holding i type)
  else (s.release p (some (i, type))).setPhase p .idle

def downgrade (i : Inode) : State Process := (s.grant p i .shared).setPhase p (.holding i .shared)

/-- A shared lock that others hold as well leaves the path alone. -/
def tryUpgrade (i : Inode) : State Process :=
  if (s.locks i).grants p .exclusive then (s.grant p i .exclusive).setPhase p (.upgraded i)
  else s.setPhase p (.closing i .shared)

def unlink (i : Inode) (removed : Bool) : State Process :=
  { s.setPhase p (.closing i .exclusive) with path := if removed then none else s.path }

def close : State Process := (s.release p (s.phase p).osLock).setPhase p .idle

end Steps

def next (s : State Process) : Event Process → Option (State Process)
  | .openFile p type =>
      match s.phase p with
      | .idle => some (openFile s p type)
      | _ => none
  | .takeNoLock p =>
      match s.phase p with
      | .idle => some (s.setPhase p .noLock)
      | _ => none
  | .dropNoLock p =>
      match s.phase p with
      | .noLock => some (s.setPhase p .idle)
      | _ => none
  | .tryLock p =>
      match s.phase p with
      | .opened i type => some (tryLock s p i type)
      | _ => none
  | .writeData p written =>
      match s.phase p with
      | .locked i type => some (writeData s p i type written)
      | _ => none
  | .downgrade p =>
      match s.phase p with
      | .holding i .exclusive => some (downgrade s p i)
      | _ => none
  | .tryUpgrade p =>
      match s.phase p with
      | .holding i .shared => some (tryUpgrade s p i)
      | _ => none
  | .unlink p removed =>
      match s.phase p with
      | .holding i .exclusive | .upgraded i => some (unlink s p i removed)
      | _ => none
  | .close p =>
      match s.phase p with
      | .closing .. => some (close s p)
      | _ => none
  | .kill p => some (close s p)

/-- What each step does, and where the process stands before it. -/
inductive Steps (s : State Process) : Event Process → State Process → Prop where
  | openFile {p : Process} {type : LockType} : s.phase p = .idle →
      Steps s (.openFile p type) (openFile s p type)
  | takeNoLock {p : Process} : s.phase p = .idle → Steps s (.takeNoLock p) (s.setPhase p .noLock)
  | dropNoLock {p : Process} : s.phase p = .noLock → Steps s (.dropNoLock p) (s.setPhase p .idle)
  | tryLock {p : Process} {i : Inode} {type : LockType} : s.phase p = .opened i type →
      Steps s (.tryLock p) (tryLock s p i type)
  | writeData {p : Process} {i : Inode} {type : LockType} {written : Bool} :
      s.phase p = .locked i type → Steps s (.writeData p written) (writeData s p i type written)
  | downgrade {p : Process} {i : Inode} : s.phase p = .holding i .exclusive →
      Steps s (.downgrade p) (downgrade s p i)
  | tryUpgrade {p : Process} {i : Inode} : s.phase p = .holding i .shared →
      Steps s (.tryUpgrade p) (tryUpgrade s p i)
  | unlink {p : Process} {i : Inode} {removed : Bool} :
      s.phase p = .holding i .exclusive ∨ s.phase p = .upgraded i →
      Steps s (.unlink p removed) (unlink s p i removed)
  | close {p : Process} {i : Inode} {type : LockType} : s.phase p = .closing i type →
      Steps s (.close p) (close s p)
  | kill {p : Process} : Steps s (.kill p) (close s p)

theorem steps_of_next {s t : State Process} {e : Event Process} (h : next s e = some t) :
    Steps s e t := by
  cases e with
  | kill p =>
      cases h
      exact .kill
  | unlink p removed =>
      simp only [next] at h
      split at h
      · next hphase =>
        cases h
        exact .unlink (.inl hphase)
      · next hphase =>
        cases h
        exact .unlink (.inr hphase)
      · cases h
  | openFile p type | takeNoLock p | dropNoLock p | tryLock p | writeData p written
  | downgrade p | tryUpgrade p | close p =>
      simp only [next] at h
      split at h
      · next hphase =>
        cases h
        constructor
        exact hphase
      · cases h

/-- No process has opened the file, which may be there. -/
structure Initial (s : State Process) : Prop where
  idle : ∀ p, s.phase p = .idle
  locks : ∀ i, s.locks i = []
  fresh : ∀ i, s.path = some i → i < s.fresh

def fileLocks (Process : Type) [DecidableEq Process] : System (State Process) (Event Process) where
  Initial := Initial
  next := next

end GelCli.Locking
