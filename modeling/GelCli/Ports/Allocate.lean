import Mathlib.Data.List.Dedup
import Mathlib.Data.List.Sort
import GelCli.Foundation.Dict
import GelCli.Foundation.Transition

/-!
# Allocating ports

`allocate_port` of `src/portable/local.rs`, as the elementary steps of any number of
calls on one ports file: read the file, probe a port, truncate the file, write the
new mapping. Nothing orders the steps of different calls.
-/

namespace GelCli.Ports

open GelCli.Foundation

/-! ## Searching for a port -/

def minPort : UInt16 := 10700

/-- `reserved` is what is left of the ports in use, in increasing order. -/
structure NextMinPort where
  reserved : List UInt16
  prev : UInt16
deriving DecidableEq, Repr

/-- `collect::<BTreeSet<_>>()`. -/
def sorted (ports : List UInt16) : List UInt16 := ports.dedup.insertionSort (· ≤ ·)

abbrev PortMap (Name : Type) := Dict Name UInt16

namespace NextMinPort

def search {Name : Type} (portMap : PortMap Name) : NextMinPort where
  reserved := sorted (portMap.items.map Prod.snd)
  prev := minPort - 1

/-- `checked_add(1)`. -/
def checkedSucc (port : UInt16) : Option UInt16 :=
  if port = 65535 then none else some (port + 1)

/-- `saturating_add(1)`. -/
def saturatingSucc (port : UInt16) : UInt16 := if port = 65535 then port else port + 1

def nextFrom (prev : UInt16) : List UInt16 → Option UInt16 × NextMinPort
  | [] => (checkedSucc prev, ⟨[], saturatingSucc prev⟩)
  | next :: reserved =>
      if next > prev + 1 then (some (prev + 1), ⟨next :: reserved, prev + 1⟩)
      else nextFrom next reserved

def next (it : NextMinPort) : Option UInt16 × NextMinPort := nextFrom it.prev it.reserved

end NextMinPort

/-! ## The ports file -/

inductive PortFile (Name : Type) where
  | missing
  | empty
  | corrupt
  | holds (portMap : PortMap Name)

variable {Name : Type}

/-- `_read_ports`. -/
def PortFile.read : PortFile Name → Option (PortMap Name)
  | missing | empty => some .empty
  | corrupt => none
  | holds portMap => some portMap

/-! ## The calls -/

/-- What `TcpListener::bind` may answer. -/
inductive Bind where
  | ok
  | addrInUse
  | failed
deriving DecidableEq, Repr

/-- Where a call of `allocate_port` stands. -/
inductive Phase (Name : Type) where
  | called
  | searching (portMap : PortMap Name) (it : NextMinPort)
  | found (portMap : PortMap Name) (port : UInt16)
  | truncated (portMap : PortMap Name) (port : UInt16)
  | returned (port : UInt16)
  | failed

/-- Between reading the file and writing it. -/
def Phase.busy : Phase Name → Bool
  | searching .. | found .. | truncated .. => true
  | called | returned _ | failed => false

/-- `before` is what the file held before the first call. -/
structure State (Call Name : Type) where
  file : PortFile Name
  phase : Call → Phase Name
  before : Option (PortMap Name)

inductive Event (Call Name : Type) where
  | read (call : Call)
  /-- The answers on `127.0.0.1` and on `::1`. -/
  | probe (call : Call) (v4 v6 : Bind)
  | truncate (call : Call) (created : Bool)
  | write (call : Call)
  /-- A write that fails may go unnoticed: what is buffered is written when the file is
  dropped. -/
  | writeFails (call : Call) (left : PortFile Name) (noticed : Bool)

variable {Call : Type} [DecidableEq Call] [DecidableEq Name]

def State.setPhase (s : State Call Name) (call : Call) (phase : Phase Name) : State Call Name :=
  { s with phase := Function.update s.phase call phase }

def readPorts (name : Name) (file : PortFile Name) : Phase Name :=
  match file.read with
  | none => .failed
  | some portMap =>
      match portMap.get name with
      | some port => .returned port
      | none => .searching portMap (.search portMap)

def probePort (portMap : PortMap Name) (it : NextMinPort) (v4 v6 : Bind) : Phase Name :=
  match it.next with
  | (none, _) => .failed
  | (some port, it) =>
      if v4 = .addrInUse ∨ v6 = .addrInUse then .searching portMap it else .found portMap port

/-- Each call is for the instance `name call`. -/
def next (name : Call → Name) (s : State Call Name) : Event Call Name → Option (State Call Name)
  | .read call =>
      match s.phase call with
      | .called => some (s.setPhase call (readPorts (name call) s.file))
      | _ => none
  | .probe call v4 v6 =>
      match s.phase call with
      | .searching portMap it => some (s.setPhase call (probePort portMap it v4 v6))
      | _ => none
  | .truncate call created =>
      match s.phase call with
      | .found portMap port =>
          if created then
            some { s.setPhase call (.truncated portMap port) with file := .empty }
          else some (s.setPhase call .failed)
      | _ => none
  | .write call =>
      match s.phase call with
      | .truncated portMap port =>
          some { s.setPhase call (.returned port) with
            file := .holds (portMap.set (name call) port) }
      | _ => none
  | .writeFails call left noticed =>
      match s.phase call with
      | .truncated _ port =>
          some { s.setPhase call (if noticed then .failed else .returned port) with file := left }
      | _ => none

structure Initial (s : State Call Name) : Prop where
  called : ∀ call, s.phase call = .called
  before : s.before = s.file.read

def allocations (name : Call → Name) : System (State Call Name) (Event Call Name) where
  Initial := Initial
  next := next name

end GelCli.Ports
