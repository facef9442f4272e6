import GelCli.Migrations.Applied

/-!
# Applying migrations to a database

`run_inner` of `src/migrations/apply.rs` outside of dev mode. A database whose last
migration is in the directory gets the files after it; any other one goes through
`fixup`, which takes a path over migrations and fixups and rewrites the history as
the chain at the end of every fixup.

The revision to go to is given in full.
-/

namespace GelCli.Migrations

open GelCli.Foundation

structure Command where
  toRevision : Option String
  noIndexBuild : Bool
  singleTransaction : Bool
deriving DecidableEq, Repr

/-- The two directories as `read_all` and `read_fixups` accept them, the targets of the
fixups being in the chain. -/
structure Checkout (H : Hasher) where
  chain : FileChain H
  normal : ∀ migration ∈ chain.migrations, migration.2.fixupTarget = none
  fixups : List MigrationFile
  targets : ∀ file ∈ fixups, ∃ target ∈ chain.keys, file.fixupTarget = some target
  hashed : ∀ file ∈ fixups, ∃ text, file.data.id = H.make file.data.parentId text

variable (S : Server)

/-- The place of a revision in the directory. -/
def indexOf (migrations : List (String × MigrationFile)) (revision : String) : Option Nat :=
  migrations.findIdx? fun migration => migration.1 = revision

/-- `get_range(start..end)`. -/
def range (migrations : List (String × MigrationFile)) (start stop : Nat) :
    Option (List (String × MigrationFile)) :=
  if start ≤ stop ∧ stop ≤ migrations.length then
    some ((migrations.take stop).drop start)
  else none

/-- `start` is exclusive and `stop` is inclusive. -/
def slice (migrations : List (String × MigrationFile)) (start stop : Option String) :
    Option (List (String × MigrationFile)) :=
  let startIndex := ((start.bind (indexOf migrations)).map (· + 1)).getD 0
  let endIndex := ((stop.bind (indexOf migrations)).map (· + 1)).getD migrations.length
  range migrations startIndex endIndex

/-! ## Fixups -/

def elemOperations (migrations : List (String × MigrationFile)) :
    PathElem → Except MigrateError (List Operation)
  | .normal file => .ok [.apply file]
  | .fixup file =>
      match file.fixupTarget with
      | none => .error .notAFixup
      | some target =>
          match indexOf migrations target with
          | none => .error .targetNotInHistory
          | some last =>
              match range migrations 0 (last + 1) with
              | none => .error .slicingError
              | some slice => .ok [.apply file, .rewrite slice]

def pathOperations (migrations : List (String × MigrationFile)) :
    List PathElem → Except MigrateError (List Operation)
  | [] => .ok []
  | elem :: path =>
      match elemOperations migrations elem, pathOperations migrations path with
      | .ok operations, .ok rest => .ok (operations ++ rest)
      | .error e, _ => .error e
      | .ok _, .error e => .error e

/-- The result of the path search as an error of the command; the texts that tell why
there is no path are left out. -/
def foundPath : Option FindResult → Except MigrateError (List PathElem)
  | none => .error .searching
  | some (.error e) => .error (.bug e)
  | some (.ok none) => .error .noPath
  | some (.ok (some path)) => .ok path

/-- `fuel` bounds the turns of the path search. -/
def fixup (fuel : Nat) (ctx : Context) (cmd : Command)
    (migrations : List (String × MigrationFile)) (fixups : List MigrationFile)
    (lastDbRev target : String) : Run Unit := do
  external S
  let path ← ofExcept (foundPath (findPath fuel migrations fixups lastDbRev target))
  let operations ← ofExcept (pathOperations migrations path)
  applyMigrations S ctx operations cmd.singleTransaction

/-! ## The command -/

/-- `upToDate` stands for `Err(ExitCode::new(0))`. -/
inductive Ending where
  | done
  | upToDate
deriving DecidableEq, Repr

/-- The revision of `--to-revision`, if the database does not have it. -/
inductive TargetRev where
  | applied
  | toApply (revision : Option String)
deriving DecidableEq, Repr

def targetRev (cmd : Command) (migrations : List (String × MigrationFile)) : Run TargetRev :=
  match cmd.toRevision with
  | none => pure (.toApply none)
  | some revision => do
      execute S .query
      let s ← get
      if revision ∈ s.current then pure .applied
      else if revision ∈ migrations.map Prod.fst then pure (.toApply (some revision))
      else throw .unknownRevision

def buildIndexes (cmd : Command) : Run Unit :=
  if cmd.noIndexBuild then pure () else execute S .query

def disableDdl (dbMigrations : List String) : Run Unit :=
  if dbMigrations.isEmpty then execute S .query else pure ()

/-- The migrations after the last one of the database. -/
def applySlice (ctx : Context) (cmd : Command) (migrations : List (String × MigrationFile))
    (dbMigrations : List String) (target : Option String) : Run Unit :=
  match slice migrations dbMigrations.getLast? target with
  | none => throw .slicingError
  | some [] => buildIndexes S cmd
  | some migrations => do
      autoBackup S ctx
      applyMigrations S ctx (migrations.map fun migration => .apply migration.2)
        cmd.singleTransaction
      buildIndexes S cmd
      disableDdl S dbMigrations

def applyTo (fuel : Nat) (ctx : Context) (cmd : Command)
    (migrations : List (String × MigrationFile)) (fixups : List MigrationFile)
    (dbMigrations : List String) (target : Option String) : Run Unit :=
  match dbMigrations.getLast? with
  | none => applySlice S ctx cmd migrations dbMigrations target
  | some lastDbRev =>
      match migrations.getLast? with
      | none => throw .emptyDirectory
      | some (last, _) =>
          if lastDbRev ∈ migrations.map Prod.fst then
            applySlice S ctx cmd migrations dbMigrations target
          else do
            autoBackup S ctx
            fixup S fuel ctx cmd migrations fixups lastDbRev (target.getD last)

def runInner (fuel : Nat) (ctx : Context) (cmd : Command)
    (migrations : List (String × MigrationFile)) (fixups : List MigrationFile) : Run Ending := do
  external S
  execute S .query
  let s ← get
  match ← targetRev S cmd migrations with
  | .applied => pure .upToDate
  | .toApply target => do
      applyTo S fuel ctx cmd migrations fixups s.current target
      pure .done

end GelCli.Migrations
