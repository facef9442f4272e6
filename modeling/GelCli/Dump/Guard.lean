import GelCli.Dump.RoundTrip
import GelCli.Foundation.DeferredFile
import GelCli.Foundation.Directory
import GelCli.Foundation.PathComponents
import GelCli.Versions.Build

/-!
# Where a dump is written

`Guard` and `dump_db` of `src/commands/dump.rs` on the files of a system. A dump goes to
the standard output, straight to its target, or to a temporary file that is renamed when
the last chunk has been handed over.
-/

namespace GelCli.Dump

open GelCli.Foundation

/-! ## The system -/

/-- A file and how often it was changed. -/
structure File where
  content : Bytes
  changes : Nat
deriving DecidableEq, Repr

abbrev Path := List Component

abbrev Files := Foundation.Directory Path File

/-- The system a dump runs on: which of its operations succeed, how `tokio::fs::File` cuts
what it is given, and what becomes of the chunks. -/
structure System where
  windows : Bool
  metadata : Bool
  removeTmp : Bool
  opens : Bool
  renames : Bool
  cut : Bytes → List Bytes
  medium : Medium
  flatten_cut : ∀ bytes, (cut bytes).flatten = bytes

/-- What the server delivers: the header, and blocks up to the end or up to an error. -/
structure Delivered where
  content : Content
  fits : content.Fits
  ending : Option String

structure Connection where
  version : Except String Versions.Specific
  dump : (includeSecrets : Bool) → Except String Delivered

inductive DumpError where
  | server (message : String)
  | alreadyExists
  | openFailed
  | writeFailed
  | commitFailed
deriving DecidableEq, Repr

/-! ## `Guard` -/

inductive OutputKind where
  | stdout
  | direct
  | temporary (name : Text)
deriving DecidableEq, Repr

def outputKind (windows : Bool) (filename : Text) : OutputKind :=
  if filename = ['-'] then .stdout
  else if windows ∨ [.rootDir, .normal "dev".toList] <+: components filename then .direct
  else
    match (components filename).getLast? with
    | some (.normal name) => .temporary name
    | _ => .direct

def tmpFileName (name : Text) : Text := ".~".toList ++ name ++ ".tmp".toList

/-- `filename.with_file_name(tmp_file_name(filename))` -/
def tmpPath (path : Path) (name : Text) : Path := path.dropLast ++ [.normal (tmpFileName name)]

/-- `filenames`: the temporary file, the target, and whether it may be overwritten. -/
abbrev Guard := Option (Path × Path × Bool)

section Guard

variable (sys : System) (filename : Text) (overwriteExisting : Bool)

/-- Opened for writing, and truncated. -/
def openAt (disk : Files) (path : Path) : Files :=
  disk.link path ⟨[], ((disk path).map fun file => file.changes + 1).getD 0⟩

/-- `Guard::open`: the file that is written, if it is one, and the guard. -/
def Guard.open (disk : Files) : Files × Except DumpError (Option Path × Guard) :=
  let target := components filename
  match outputKind sys.windows filename with
  | .stdout => (disk, .ok (none, none))
  | .direct =>
      if sys.opens ∧ (overwriteExisting ∨ disk target = none) then
        (openAt disk target, .ok (some target, none))
      else (disk, .error .openFailed)
  | .temporary name =>
      if !overwriteExisting ∧ sys.metadata ∧ disk target ≠ none then (disk, .error .alreadyExists)
      else
        let tmp := tmpPath target name
        let disk := if sys.removeTmp then disk.unlink tmp else disk
        if sys.opens then
          (openAt disk tmp, .ok (some tmp, some (tmp, target, overwriteExisting)))
        else (disk, .error .openFailed)

/-- `Guard::commit` -/
def Guard.commit (guard : Guard) (disk : Files) : Files × Except DumpError Unit :=
  match guard with
  | none => (disk, .ok ())
  | some (tmp, target, overwriteExisting) =>
      if sys.renames ∧ (overwriteExisting ∨ disk target = none) then
        (disk.rename tmp target, .ok ())
      else (disk, .error .commitFailed)

end Guard

/-! ## `dump_db` -/

section Dump

variable (sys : System) (sha1 : Bytes → Vector UInt8 20)

abbrev Output := DeferredFile UInt8

/-- `output.write_all(bytes).await?` -/
def writeAll (output : Output) (bytes : Bytes) : Except (Output × DumpError) Output :=
  (sys.cut bytes).foldlM (DeferredFile.put sys.medium .writeFailed) output

def headerBuf (packetType : PacketType) (data : Bytes) : Bytes :=
  packetType.tag :: (sha1 data).toList ++ toBeBytes data.length

def writePacket (packetType : PacketType) (output : Output) (data : Bytes) :
    Except (Output × DumpError) Output := do
  let output ← writeAll sys output (headerBuf sha1 packetType data)
  writeAll sys output data

/-- What is written, to the end of the blocks. -/
def writeDump (conn : Connection) (includeSecrets : Bool) : Except (Output × DumpError) Output := do
  let output ← writeAll sys .empty (magic ++ dumpVersion)
  match conn.dump includeSecrets with
  | .error message => .error (output, .server message)
  | .ok delivered =>
      let output ← writePacket sys sha1 .header output delivered.content.header
      let output ← delivered.content.blocks.foldlM (writePacket sys sha1 .block) output
      match delivered.ending with
      | some message => .error (output, .server message)
      | none => .ok output

/-- The file holds what is there of the output when the call returns. -/
def store (disk : Files) (path : Option Path) (output : Output) : Files :=
  match path with
  | none => disk
  | some path => disk.link path
      ⟨output.contents sys.medium, ((disk path).map fun file => file.changes + 1).getD 0⟩

/-- Databases before 4.0-alpha.2 do not dump secrets. -/
def dumpsSecrets (version : Versions.Specific) (includeSecrets : Bool) : Bool :=
  if version < ⟨4, .alpha 2⟩ then false else includeSecrets

/-- `dump_db`: the files at its return, and its result. -/
def dumpDbTo (conn : Connection) (filename : Text) (includeSecrets overwriteExisting : Bool)
    (disk : Files) : Files × Except DumpError Unit :=
  match conn.version with
  | .error message => (disk, .error (.server message))
  | .ok version =>
      match Guard.open sys filename overwriteExisting disk with
      | (disk, .error error) => (disk, .error error)
      | (disk, .ok (path, guard)) =>
          match writeDump sys sha1 conn (dumpsSecrets version includeSecrets) with
          | .error (output, error) => (store sys disk path output, .error error)
          | .ok output => Guard.commit sys guard (store sys disk path output)

end Dump

end GelCli.Dump
