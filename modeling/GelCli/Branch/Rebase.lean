import GelCli.Foundation.Commands
import GelCli.Foundation.Decimal
import GelCli.Foundation.Dict
import Mathlib.Data.List.Sort

/-!
# Rebasing a branch

`main` of `src/branch/rebase.rs` with `do_rebase` of `src/migrations/rebase.rs` and the
connections of `src/branch/connections.rs`, over the branches of the server and the
migration files of the project.

Every operation may fail and end the command. A statement that fails changes nothing
on the server, and a copy that fails may leave a part of the file. The names that
`Uuid::new_v4` makes are given beforehand.
-/

namespace GelCli.Branch

open GelCli.Foundation

/-! ## Migrations -/

structure DbMigration where
  name : Text
  script : Text
  parentNames : List Text
deriving DecidableEq, Repr

/-- Migrations by their ids, in the order of the history. -/
abbrev History := List (Text × DbMigration)

structure RebaseMigrations where
  baseMigrations : History
  sourceMigrations : History
  targetMigrations : History
deriving DecidableEq, Repr

structure RebaseMigration where
  key : Nat
  migration : DbMigration
  parentOverride : Option Text
deriving DecidableEq, Repr

namespace RebaseMigration

def parent (m : RebaseMigration) : Text :=
  match m.parentOverride with
  | some parent => parent
  | none => m.migration.parentNames.head?.getD "initial".toList

/-- `str::lines`. -/
def lines (text : Text) : List Text :=
  let parts := text.splitOn '\n'
  let parts := if parts.getLast? = some [] then parts.dropLast else parts
  parts.map fun line => if line.getLast? = some '\r' then line.dropLast else line

/-- `MigrationKey::Index` and the first seven characters of the id. -/
def fileName (m : RebaseMigration) : Text :=
  let digits := Decimal.ofNat m.key
  List.replicate (5 - digits.length) '0' ++ digits ++ '-' :: m.migration.name.take 7 ++
    ".edgeql".toList

/-- What `_write_migration` writes. -/
def text (m : RebaseMigration) : Text :=
  "CREATE MIGRATION ".toList ++ m.migration.name ++ "\n    ONTO ".toList ++ m.parent ++
    "\n\x7b\n".toList ++
    (lines m.migration.script).flatMap (fun line => "  ".toList ++ line ++ ['\n']) ++
    "\x7d;\n".toList

end RebaseMigration

namespace RebaseMigrations

/-- The first of the migrations is put on top of the last one before them. -/
def onTop (last : Option DbMigration) : History → List (DbMigration × Option Text)
  | [] => []
  | first :: rest => (first.2, last.map DbMigration.name) :: rest.map fun m => (m.2, none)

def flatten (m : RebaseMigrations) : List RebaseMigration :=
  let base := m.baseMigrations.map fun item => (item.2, none)
  let target := base ++ onTop (base.getLast?.map Prod.fst) m.targetMigrations
  let source := target ++ onTop (target.getLast?.map Prod.fst) m.sourceMigrations
  (source.zipIdx 1).map fun item => ⟨item.2, item.1.1, item.1.2⟩

/-- `update_id`, which keeps the place of the migration. -/
def updateId (old new : Text) (migrations : History) : History :=
  match migrations.findIdx? fun item => item.1 = old with
  | none => migrations
  | some i =>
      match migrations[i]? with
      | none => migrations
      | some item => ((migrations.eraseIdx i).filter fun other => other.1 ≠ new).insertIdx i
          (new, item.2)

def updateIds (m : RebaseMigrations) (changed : List (Text × Text)) : RebaseMigrations :=
  changed.foldl (fun m ids => ⟨updateId ids.1 ids.2 m.baseMigrations,
    updateId ids.1 ids.2 m.sourceMigrations, updateId ids.1 ids.2 m.targetMigrations⟩) m

end RebaseMigrations

/-- The last migration of the target that the source has as well, with its index. -/
def lastCommon (source target : History) : Option ((Text × DbMigration) × Nat) :=
  target.zipIdx.reverse.find? fun item => source.any fun m => m.1 = item.1.1

/-- `get_diverging_migrations`; nothing where the target is up to date already. -/
def divergingMigrations (source target : History) : Option RebaseMigrations :=
  if source = [] then some ⟨[], [], target⟩
  else
    match lastCommon source target with
    | none => some ⟨[], source, target⟩
    | some (m, index) =>
        if index = target.length - 1 then none
        else
          let sourceIndex := source.findIdx fun item => item.1 = m.1
          some ⟨source.take (sourceIndex + 1), source.drop (sourceIndex + 1),
            target.drop (index + 1)⟩

/-! ## The server and the files -/

/-- What the server keeps of a branch, and what it does with it. -/
structure Server (Content : Type) where
  empty : Content
  history : Content → History
  /-- The migrations in one transaction. -/
  commit : List (Text × Text) → Content → Option Content

/-- What the command takes from the parser and the hasher of migration texts. -/
structure Texts where
  /-- `fix_migration_ids`: the files with their new texts and the ids that have changed. -/
  fixIds : Dict Text Text → Option (Dict Text Text × List (Text × Text))
  /-- `migration::read_all` with its checks: the ids and the texts. -/
  readAll : Dict Text Text → Option (List (Text × Text))

/-- A branch keeps its `id` when it is renamed. -/
structure StoredBranch (Content : Type) where
  id : Text
  content : Content
deriving DecidableEq, Repr

structure Session (Content : Type) where
  branches : Dict Text (StoredBranch Content)
  files : Dict Text Text

/-- A connection to a branch by its name. -/
structure Connection where
  branch : Text
  id : Text
deriving DecidableEq, Repr

/-- The name that `Uuid::new_v4` makes. -/
structure Uuid where
  text : Text
  hyphen : '-' ∈ text

/-- A name in a statement: quoted by `quote_name`, or as it is. -/
inductive Written where
  | quoted (name : Text)
  | bare (name : Text)

/-- What the server reads; a bare name has to be an identifier. -/
def Written.read : Written → Option Text
  | .quoted name => some name
  | .bare name => if name.all fun c => c.isAlphanum || c == '_' then some name else none

variable {Content : Type}

namespace Session

/-- A forced drop or rename of its branch ends a connection. -/
def connected (s : Session Content) (c : Connection) : Bool :=
  (s.branches.get c.branch).any fun b => b.id = c.id

def setBranch (s : Session Content) (name : Text) (b : StoredBranch Content) : Session Content :=
  { s with branches := s.branches.set name b }

def eraseBranch (s : Session Content) (name : Text) : Session Content :=
  { s with branches := s.branches.erase name }

def create (s : Session Content) (name : Text) (content : Content) : Option (Session Content) :=
  match s.branches.get name with
  | none => some (s.setBranch name ⟨name, content⟩)
  | some _ => none

/-- `create data branch name from other`. -/
def createData (s : Session Content) (name other : Text) : Option (Session Content) :=
  (s.branches.get other).bind fun b => s.create name b.content

/-- `drop branch name force`, not for the branch of the connection itself. -/
def drop (s : Session Content) (c : Connection) (written : Written) :
    Option (Session Content) :=
  written.read.bind fun name =>
    if c.branch = name then none
    else (s.branches.get name).map fun _ => s.eraseBranch name

/-- `alter branch old force rename to new`. -/
def rename (s : Session Content) (c : Connection) (old new : Text) : Option (Session Content) :=
  if c.branch = old ∨ (s.branches.get new).isSome then none
  else (s.branches.get old).map fun b => (s.eraseBranch old).setBranch new b

end Session

/-! ## Failing operations -/

/-- What a second connection is for. -/
inductive Phase where
  | rename
  | cleanUp
deriving DecidableEq, Repr

/-- The second connection of a phase, or the one that its `clean` takes. -/
inductive Use where
  | modify
  | clean
deriving DecidableEq, Repr

inductive Step where
  | currentBranch
  | project
  | clone
  | connectClone
  | readSource
  | readTarget
  | context
  | tempFiles
  | readNames
  | removeOld (i : Nat)
  | readNewNames
  | copyNew (i : Nat)
  | readFiles
  | apply
  | afterApply
  | dropSource
  | listBranches (phase : Phase) (use : Use)
  | connectOther (phase : Phase) (use : Use)
  | createHelper (phase : Phase)
  | connectHelper (phase : Phase)
  | rename
  | dropClone
  | connectDefault (phase : Phase)
  | dropHelper (phase : Phase)
deriving DecidableEq, Repr

/-- `copied` is what a copy that fails leaves of the file. -/
structure Faults where
  fails : Step → Bool
  copied : Nat → Option Text

inductive RebaseError where
  | failed (step : Step)
  | notInProject
  | onTopOfItself
  | upToDate
  | badFiles
  | unknownBranch (name : Text)
  | noOtherBranch
  | tempToRemoveTemp
deriving DecidableEq, Repr

structure Command where
  targetBranch : Text
  noApply : Bool

/-- `contextBranch` is the current branch of the project or of the credentials,
`connectionNamed` whether the branch of the connection is known without asking,
`connParams` the branch that the options of the command line connect to. -/
structure Env (Content : Type) where
  server : Server Content
  texts : Texts
  contextBranch : Option Text
  connectionNamed : Bool
  project : Bool
  connParams : Text
  temp : Uuid
  helper : Phase → Uuid

abbrev Run (Content : Type) := EStateM RebaseError (Session Content)

variable (env : Env Content) (faults : Faults)

def fault (step : Step) (f : Session Content → Session Content) :
    Option (Session Content → Session Content) :=
  if faults.fails step then some f else none

/-- An operation outside the server and the project. -/
def check (step : Step) : Run Content Unit :=
  attempt (.failed step) (fault faults step id) some

def execute (step : Step) (c : Connection) (f : Session Content → Option (Session Content)) :
    Run Content Unit :=
  attempt (.failed step) (fault faults step id) fun s => if s.connected c then f s else none

def connect (step : Step) (branch : Text) : Run Content Connection := do
  check faults step
  let s ← get
  match s.branches.get branch with
  | some b => pure ⟨branch, b.id⟩
  | none => throw (.unknownBranch branch)

/-! ## Connections to modify a branch -/

structure BranchConnection where
  connection : Connection
  branchName : Text
  isTemp : Bool
  hyphen : isTemp = true → '-' ∈ branchName

def getConnectionThatIsNot (phase : Phase) (use : Use) (targetBranch : Text) (c : Connection) :
    Run Content BranchConnection := do
  execute faults (.listBranches phase use) c some
  let s ← get
  match s.branches.keys.find? fun branch => branch ≠ targetBranch with
  | some branch => do
      let connection ← connect faults (.connectOther phase use) branch
      pure ⟨connection, branch, false, nofun⟩
  | none => throw .noOtherBranch

def createEmptyBranch (phase : Phase) (c : Connection) : Run Content BranchConnection := do
  execute faults (.createHelper phase) c fun s =>
    s.create (env.helper phase).text env.server.empty
  let connection ← connect faults (.connectHelper phase) (env.helper phase).text
  pure ⟨connection, (env.helper phase).text, true, fun _ => (env.helper phase).hyphen⟩

def getConnectionToModify (phase : Phase) (branch : Text) (c : Connection) :
    Run Content BranchConnection :=
  tryCatch (getConnectionThatIsNot faults phase .modify branch c) fun _ =>
    createEmptyBranch env faults phase c

/-- `BranchConnection::clean`; the name of the branch is not quoted there. -/
def clean (phase : Phase) (self : BranchConnection) : Run Content Unit :=
  if self.isTemp then do
    let default ← connect faults (.connectDefault phase) env.connParams
    let branch ← getConnectionThatIsNot faults phase .clean self.branchName default
    execute faults (.dropHelper phase) branch.connection fun s =>
      s.drop branch.connection (.bare self.branchName)
    if branch.isTemp then throw .tempToRemoveTemp
  else pure ()

/-! ## The migration files -/

def readAll (step : Step) (c : Connection) : Run Content History := do
  execute faults step c some
  let s ← get
  match s.branches.get c.branch with
  | some b => pure (env.server.history b.content)
  | none => throw (.failed step)

def getDivergingMigrations (source target : Connection) : Run Content RebaseMigrations := do
  let sourceMigrations ← readAll env faults .readSource source
  let targetMigrations ← readAll env faults .readTarget target
  match divergingMigrations sourceMigrations targetMigrations with
  | some migrations => pure migrations
  | none => throw .upToDate

/-- The files in the temporary directory, and the migrations with their ids corrected. -/
def newMigrationFiles (migrations : RebaseMigrations) :
    Option (RebaseMigrations × Dict Text Text) :=
  let written := migrations.flatten.foldl (fun files m => files.set m.fileName m.text) Dict.empty
  (env.texts.fixIds written).map fun fixed => (migrations.updateIds fixed.2, fixed.1)

def removeFile (i : Nat) (name : Text) : Run Content Unit :=
  attempt (.failed (.removeOld i)) (fault faults (.removeOld i) id) fun s =>
    some { s with files := s.files.erase name }

def removeFiles : Nat → List Text → Run Content Unit
  | _, [] => pure ()
  | i, name :: rest => do
      removeFile faults i name
      removeFiles (i + 1) rest

/-- `fs::copy`, broken off. -/
def copyPart (i : Nat) (name : Text) (files : Dict Text Text) : Dict Text Text :=
  match faults.copied i with
  | some part => files.set name part
  | none => files

def copyFile (i : Nat) (file : Text × Text) : Run Content Unit :=
  attempt (.failed (.copyNew i))
    (fault faults (.copyNew i) fun s => { s with files := copyPart faults i file.1 s.files })
    fun s => some { s with files := s.files.set file.1 file.2 }

def copyFiles : Nat → List (Text × Text) → Run Content Unit
  | _, [] => pure ()
  | i, file :: rest => do
      copyFile faults i file
      copyFiles (i + 1) rest

/-- The files of the temporary directory in the order of their names. -/
def sortedFiles (files : Dict Text Text) : List (Text × Text) :=
  files.items.insertionSort fun a b => a.1 ≤ b.1

def doRebase (migrations : RebaseMigrations) : Run Content RebaseMigrations := do
  check faults .tempFiles
  match newMigrationFiles env migrations with
  | none => throw .badFiles
  | some (migrations, newFiles) => do
      check faults .readNames
      let s ← get
      removeFiles faults 0 s.files.keys
      check faults .readNewNames
      copyFiles faults 0 (sortedFiles newFiles)
      pure migrations

/-- Of the files those that are rebased. -/
def migrationsToApply (migrations : RebaseMigrations) (files : List (Text × Text)) :
    List (Text × Text) :=
  files.filter fun file => migrations.sourceMigrations.any fun m => m.1 = file.1

def applyMigrations (c : Connection) (migrations : List (Text × Text)) : Run Content Unit := do
  execute faults .apply c fun s =>
    (s.branches.get c.branch).bind fun b =>
      (env.server.commit migrations b.content).map fun content =>
        s.setBranch c.branch { b with content := content }
  check faults .afterApply

def writeRebasedMigrationFiles (migrations : RebaseMigrations) (c : Connection) :
    Run Content Unit := do
  check faults .readFiles
  let s ← get
  match env.texts.readAll s.files with
  | none => throw .badFiles
  | some files => applyMigrations env faults c (migrationsToApply migrations files)

def applyRebased (apply : Bool) (migrations : RebaseMigrations) (c : Connection) :
    Run Content Unit :=
  if apply then writeRebasedMigrationFiles env faults migrations c else pure ()

/-! ## The command -/

def renameTempToSource (tempBranch sourceBranch : Text) (c : Connection) : Run Content Unit := do
  let renameConnection ← getConnectionToModify env faults .rename tempBranch c
  execute faults .rename renameConnection.connection fun s =>
    s.rename renameConnection.connection tempBranch sourceBranch
  clean env faults .rename renameConnection

def rebase (currentBranch branch : Text) (source target : Connection) (apply : Bool) :
    Run Content Unit := do
  let migrations ← getDivergingMigrations env faults source target
  check faults .context
  let migrations ← doRebase env faults migrations
  applyRebased env faults apply migrations target
  execute faults .dropSource target fun s => s.drop target (.quoted currentBranch)
  renameTempToSource env faults branch currentBranch target

def getCurrentBranch (c : Connection) : Run Content Text :=
  match env.contextBranch with
  | some branch => pure branch
  | none =>
      if env.connectionNamed then pure c.branch
      else do
        execute faults .currentBranch c some
        pure c.branch

def cloneTargetBranch (branch : Text) (c : Connection) : Run Content Unit :=
  execute faults .clone c fun s => s.createData env.temp.text branch

/-- What `main` does with an error of the rebase. -/
def cleanUp (source : Connection) : Run Content Unit := do
  let renameConnection ← getConnectionToModify env faults .cleanUp env.temp.text source
  execute faults .dropClone renameConnection.connection fun s =>
    s.drop renameConnection.connection (.quoted env.temp.text)
  clean env faults .cleanUp renameConnection

/-- `main` from the clone of the target on. -/
def rebaseClone (cmd : Command) (currentBranch : Text) (source : Connection) :
    Run Content Unit := do
  cloneTargetBranch env faults cmd.targetBranch source
  let target ← connect faults .connectClone env.temp.text
  tryCatch (rebase env faults currentBranch env.temp.text source target (!cmd.noApply)) fun _ =>
    cleanUp env faults source

def main (cmd : Command) (source : Connection) : Run Content Unit := do
  let currentBranch ← getCurrentBranch env faults source
  check faults .project
  if env.project then
    if cmd.targetBranch = currentBranch then throw .onTopOfItself
    else rebaseClone env faults cmd currentBranch source
  else throw .notInProject

end GelCli.Branch
