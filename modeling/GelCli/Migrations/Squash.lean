import GelCli.Foundation.Drain
import GelCli.Foundation.Results
import GelCli.Foundation.Text

/-!
# Squashing: which fixups are kept

`TwoStageRemove::rename_fixups` of `src/migrations/squash.rs`. The fixups directory is
read, the fixups are grouped by the revision they lead to, and from the revisions that
are wanted the groups are drained along the fixups; what is left is renamed, and removed
at the end of the squash. Files are named within the directory.
-/

namespace GelCli.Migrations.Squash

open GelCli.Foundation

inductive FileKind where
  | file
  | other
deriving DecidableEq, Repr

/-- The directory, in the order in which it is listed. -/
abbrev Folder := Dict Text FileKind

/-- The errors that the calls of the file system answer with. -/
structure Faults where
  readDir : Option String
  nextEntry : Text → Option String
  fileType : Text → Option String
  rename : Text → Option String

def raise : Option String → Except String PUnit
  | some e => .error e
  | none => .ok ⟨⟩

/-- `str::strip_suffix` -/
def stripSuffix (suffix t : Text) : Option Text :=
  if suffix <:+ t then some (t.take (t.length - suffix.length)) else none

/-- The revisions in front of and behind the dash of a fixup's name. -/
def ends (name : Text) : Option (Text × Text) :=
  match (stripSuffix ".edgeql".toList name).map (List.splitOn '-') with
  | some (source :: target :: _) => some (source, target)
  | _ => none

def old (name : Text) : Text := name ++ ".old".toList

/-- The source and the file of each fixup, by its target. -/
abbrev ByTarget := Dict Text (List (Text × Text))

/-- One turn of `while let Some(item) = dir.next_entry()`. -/
def readTurn (faults : Faults) (s : ByTarget × List Text) (item : Text × FileKind) :
    Except String (ByTarget × List Text) := do
  raise (faults.nextEntry item.1)
  if item.1.head? = some '.' then return s
  raise (faults.fileType item.1)
  if item.2 ≠ .file then return s
  match ends item.1 with
  | some (source, target) => return (s.1.push target (source, item.1), s.2)
  | none =>
      if ".edgeql.old".toList <:+ item.1 then return (s.1, s.2 ++ [item.1]) else return s

structure Remover where
  fixups : Folder
  filenames : List Text

def Remover.rename (faults : Faults) (s : Remover) (path : Text) : Except String Remover := do
  raise (faults.rename path)
  match s.fixups.get path with
  | none => .error "No such file or directory"
  | some kind => return ⟨(s.fixups.erase path).set (old path) kind, s.filenames ++ [old path]⟩

/-- The files of the groups, which a `BTreeMap` lists by their targets. -/
def paths (byTarget : ByTarget) : List Text :=
  (Text.sorted byTarget.keys).flatMap fun target => (byTarget.groupOf target).map Prod.snd

/-- A missing directory, which is no error, is an empty one here. -/
def renameFixups (faults : Faults) (fixups : Folder) (filenames revs : List Text) :
    Except String Remover := do
  raise faults.readDir
  let (byTarget, filenames) ← fixups.items.foldlM (readTurn faults) (.empty, filenames)
  (paths (drain Prod.fst revs.reverse byTarget)).foldlM (Remover.rename faults) ⟨fixups, filenames⟩

end GelCli.Migrations.Squash
