import GelCli.Foundation.Commands
import GelCli.Foundation.Directory
import GelCli.Foundation.PathComponents

/-!
# Unpacking a package

`unpack_package` and `build_path` of `src/portable/server/install.rs`. A path is the
list of its names below the target directory; the target itself is the empty list.
Whatever the command creates or replaces is recorded with the files as they were then.

What the system and the `tar` crate do is a parameter. Unpacking to a path replaces what
the path names and does not follow it.
-/

namespace GelCli.Install

open GelCli.Foundation

/-! ## Archives -/

inductive Kind where
  | directory
  | file
  | symlink (target : Text)
  | hardLink (target : Text)
deriving DecidableEq, Repr

structure Entry where
  path : Text
  kind : Kind
deriving DecidableEq, Repr

/-- An entry that cannot be read ends the archive with an error. -/
abbrev Archive := List (Option Entry)

/-! ## The files -/

abbrev Path := List Text

/-- What `symlink_metadata` tells apart. -/
inductive FileType where
  | directory
  | file
  | symlink
  | other
deriving DecidableEq, Repr

abbrev Files := Directory Path FileType

inductive Call where
  | createTarget
  | createDir
  | unpack
deriving DecidableEq, Repr

/-- A path that is created or replaced, for the entry with the number `source`. -/
structure Write where
  source : Option Nat
  call : Call
  path : Path
  files : Files

structure Disk where
  files : Files
  writes : List Write

/-- The operations around the unpacking. -/
inductive Operation where
  | removeTarget
  | canonicalize
  | openCache
  | metadata
  | decoder
  | entries
deriving DecidableEq, Repr

/-- `behind` is what lies behind symlinks, `unreadable` where `symlink_metadata` fails,
`creates` where `create_dir` works; `unpack` tells what a path names after an entry was
unpacked to it, and whether that worked. `fails` says which other operations fail. -/
structure Host where
  targetExists : Bool
  fails : Operation → Bool
  behind : Files → Path → Option FileType
  unreadable : Files → Path → Bool
  creates : Files → Path → Bool
  unpack : Entry → Files → Path → Option FileType × Bool

/-- A proper part of the path, below the target, is a symlink. -/
def throughSymlink (files : Files) (path : Path) : Bool :=
  (List.range path.length).any fun n => n ≠ 0 && files (path.take n) = some .symlink

inductive UnpackError where
  | failed
  | unreadableEntry
  | erroneousPath (path : Text)
  | symlinkedDir (path : Text) (dest : Path)
  | notADirectory (dest : Path) (path : Text)
  | createDir (dest : Path)
  | unpack (dest : Path)
deriving DecidableEq, Repr

abbrev Run := EStateM UnpackError Disk

variable (host : Host)

def symlinkMetadata (files : Files) (path : Path) : Option FileType :=
  if host.unreadable files path then none
  else if throughSymlink files path then host.behind files path
  else files path

/-- A write that fails may have replaced what was there. -/
def write (source : Option Nat) (call : Call) (path : Path) (error : UnpackError)
    (left : Option FileType) (works : Bool) : Run Unit := do
  modify fun disk => ⟨Function.update disk.files path left,
    disk.writes ++ [⟨source, call, path, disk.files⟩]⟩
  if works then pure () else throw error

def createDir (source : Option Nat) (call : Call) (dest : Path) : Run Unit := do
  let disk ← get
  if host.creates disk.files dest then
    write source call dest (.createDir dest) (some .directory) true
  else throw (.createDir dest)

/-! ## `build_path` -/

/-- What is left of the components: the names, and the error of a `..`. -/
def part (path : Text) : Component → Option (Except UnpackError Text)
  | .normal name => some (.ok name)
  | .rootDir | .curDir => none
  | .parentDir => some (.error (.erroneousPath path))

def parts (path : Text) : List (Except UnpackError Text) := (components path).filterMap (part path)

/-- A directory on the way to the path of an entry. -/
def enter (source : Option Nat) (path : Text) (dest : Path) : Run Unit := do
  let disk ← get
  match symlinkMetadata host disk.files dest with
  | some .symlink => throw (.symlinkedDir path dest)
  | some .file => throw (.notADirectory dest path)
  | some .directory | some .other => pure ()
  | none => createDir host source .createDir dest

def walk (source : Option Nat) (path : Text) :
    Path → List (Except UnpackError Text) → Run Path
  | dest, [] => pure dest
  | dest, component :: rest => do
      let component ← MonadExcept.ofExcept component
      enter host source path dest
      walk source path (dest ++ [component]) rest

def buildPath (source : Option Nat) (path : Text) : Run (Option Path) :=
  match parts path with
  | [] => pure none
  | directoryName :: rest => do
      let _ ← MonadExcept.ofExcept directoryName
      match rest with
      | [] => pure none
      | component :: rest => do
          let component ← MonadExcept.ofExcept component
          let dest ← walk host source path [component] rest
          pure (some dest)

/-! ## `unpack_package` -/

def unpackTo (source : Option Nat) (entry : Entry) (path : Path) : Run Unit := do
  let disk ← get
  let left := host.unpack entry disk.files path
  write source .unpack path (.unpack path) left.1 left.2

def unpackEntry (index : Nat) (entry : Entry) : Run Unit := do
  match ← buildPath host (some index) entry.path with
  | some path => unpackTo host (some index) entry path
  | none => pure ()

def unpackEntries : Nat → Archive → Run Unit
  | _, [] => pure ()
  | _, none :: _ => throw .unreadableEntry
  | index, some entry :: rest => do
      unpackEntry host index entry
      unpackEntries (index + 1) rest

def check (operation : Operation) : Run Unit := if host.fails operation then throw .failed else pure ()

/-- `fs::remove_dir_all`. -/
def removeTarget : Run Unit :=
  if host.targetExists then do
    check host .removeTarget
    modify fun disk => { disk with files := fun _ => none }
  else pure ()

def unpackPackage (archive : Archive) : Run Unit := do
  removeTarget host
  createDir host none .createTarget []
  check host .canonicalize
  check host .openCache
  check host .metadata
  check host .decoder
  check host .entries
  unpackEntries host 0 archive

end GelCli.Install
