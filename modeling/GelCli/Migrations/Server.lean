import GelCli.Foundation.Commands
import GelCli.Foundation.Lineage
import GelCli.Migrations.FindPath

/-!
# A connection that migrations are applied over

The migration history of the database with the transaction and the migration rewrite
that the connection has open, and `apply_migrations` of `src/migrations/apply.rs`
over it. Whatever is asked of the server, of a hook or of the file system may fail,
and the connection may get lost, which rolls back what is open.

The ids are hashes over the parent and the text of a migration.
-/

namespace GelCli.Migrations

open GelCli.Foundation

/-- `NULL_MIGRATION`, the parent of the first migration, is the `initial` of the hasher. -/
abbrev Hasher := Naming String String

/-! ## The connection -/

/-- `rewrite` is the history of an open migration rewrite, `saved` the history at the
start of an open transaction. -/
structure Session where
  history : List String
  rewrite : Option (List String)
  saved : Option (List String)
  connected : Bool
  clock : Nat
deriving DecidableEq, Repr

namespace Session

/-- A connection on which nothing is open. -/
def fresh (history : List String) (clock : Nat) : Session where
  history := history
  rewrite := none
  saved := none
  connected := true
  clock := clock

/-- What the statements of the connection see. -/
def current (s : Session) : List String := s.rewrite.getD s.history

def push (s : Session) (id : String) : Session :=
  match s.rewrite with
  | none => { s with history := s.history ++ [id] }
  | some ids => { s with rewrite := some (ids ++ [id]) }

def rollback (s : Session) : Session :=
  { s with history := s.saved.getD s.history, saved := none, rewrite := none }

def disconnect (s : Session) : Session := { s.rollback with connected := false }

/-- A new connection to the same database. -/
def reconnect (s : Session) : Session := { s.rollback with connected := true }

def inTransaction (s : Session) : Bool := s.saved.isSome || s.rewrite.isSome

def tick (s : Session) : Session := { s with clock := s.clock + 1 }

end Session

inductive Action where
  | startTransaction
  | commit
  | rollback
  | startRewrite
  | commitRewrite
  | abortRewrite
  | createMigration (id parentId : String)
  | createDevMigration (text : String)
  | query
deriving DecidableEq, Repr

inductive Fault where
  | none
  | error
  | disconnect
deriving DecidableEq, Repr

/-- `fault` is what happens at each time, `schemaDiff` the statements that bring the
schema of the database up to date then. -/
structure Server where
  hasher : Hasher
  fault : Nat → Fault
  schemaDiff : Nat → List String
  devModeSupported : Bool

inductive MigrateError where
  | failed (action : Action)
  | external
  | devModeNotSupported
  | skipOutOfRange
  | slicingError
  | notAFixup
  | targetNotInHistory
  | emptyDirectory
  | noPath
  | searching
  | bug (error : BugError)
  | unknownRevision
deriving DecidableEq, Repr

abbrev Run := EStateM MigrateError Session

variable (S : Server)

/-- What the server makes of an action; a new migration has to name the last one as its
parent. -/
def Session.after (s : Session) : Action → Option Session
  | .startTransaction => if s.inTransaction then none else some { s with saved := some s.history }
  | .commit => s.saved.map fun _ => { s with saved := none }
  | .rollback => s.saved.map fun _ => s.rollback
  | .startRewrite => if s.rewrite.isSome then none else some { s with rewrite := some [] }
  | .commitRewrite => s.rewrite.map fun ids => { s with history := ids, rewrite := none }
  | .abortRewrite => s.rewrite.map fun _ => { s with rewrite := none }
  | .createMigration id parentId =>
      if S.hasher.last s.current = parentId then some (s.push id) else none
  | .createDevMigration text => some (s.push (S.hasher.make (S.hasher.last s.current) text))
  | .query => some s

def Fault.effect : Fault → Option (Session → Session)
  | none => .none
  | error => some Session.tick
  | disconnect => some fun s => s.tick.disconnect

/-- `execute`, and the queries that change nothing. -/
def execute (action : Action) : Run Unit := do
  let s ← get
  attempt (.failed action) (S.fault s.clock).effect fun s =>
    if s.connected then (s.after S action).map Session.tick else none

def executeIfConnected (action : Action) : Run Unit := do
  let s ← get
  if s.connected then execute S action else pure ()

/-- What the server has no part in: a hook, a backup, the reading of files. -/
def external : Run Unit := do
  let s ← get
  attempt .external (S.fault s.clock).effect fun s => some s.tick

/-! ## Applying migrations -/

structure Context where
  skipHooks : Bool
  hasProject : Bool
  quiet : Bool
  autoBackup : Bool
deriving DecidableEq, Repr

inductive Operation where
  | apply (file : MigrationFile)
  | rewrite (migrations : List (String × MigrationFile))
deriving DecidableEq, Repr

/-- The file is read again before it is executed. -/
def applyMigration (migration : MigrationFile) : Run Unit := do
  external S
  execute S (.createMigration migration.data.id migration.data.parentId)

def applyEach : List MigrationFile → Run Unit
  | [] => pure ()
  | migration :: migrations => do
      applyMigration S migration
      applyEach migrations

def applyOperation : Operation → Run Unit
  | .apply migration => applyMigration S migration
  | .rewrite migrations => do
      execute S .startRewrite
      withUndo (applyEach S (migrations.map Prod.snd)) (executeIfConnected S .abortRewrite)
        (execute S .commitRewrite)

def applyMigrationsInner : List Operation → Run Unit
  | [] => pure ()
  | operation :: operations => do
      applyOperation S operation
      applyMigrationsInner operations

/-- `migration.apply` and `schema.update`. -/
def runHooks (enabled : Bool) : Run Unit :=
  if enabled then do
    external S
    external S
  else pure ()

def inhibitForTransaction : Run Unit := do
  execute S .query
  execute S .query

def restoreForTransaction : Run Unit := executeIfConnected S .query

def autoBackup (ctx : Context) : Run Unit :=
  if ctx.autoBackup then external S else pure ()

/-- The hooks after the migrations do not look at `skip_hooks`. -/
def applyMigrations (ctx : Context) (operations : List Operation) (singleTransaction : Bool) :
    Run Unit := do
  runHooks S (!ctx.skipHooks && ctx.hasProject)
  inhibitForTransaction S
  withFinally
    (if singleTransaction then do
      execute S .startTransaction
      withUndo (applyMigrationsInner S operations) (executeIfConnected S .rollback)
        (execute S .commit)
    else applyMigrationsInner S operations)
    (restoreForTransaction S)
  runHooks S ctx.hasProject

/-! ## A small directory -/

/-- Ids that spell out their parent and the first character of the text. -/
def spelled (parent text : String) : String :=
  String.ofList ('m' :: '1' :: text.toList.headD '_' :: parent.toList)

def spellingHasher : Hasher where
  initial := "initial"
  make := spelled
  ne_initial parent text heq := by
    have hchars := congrArg String.toList heq
    rw [spelled, String.toList_ofList] at hchars
    have hhead := List.head_eq_of_cons_eq hchars
    exact absurd hhead (by decide)
  parent_eq heq := by
    have hchars := congrArg String.toList heq
    simp only [spelled, String.toList_ofList, List.cons.injEq, true_and] at hchars
    exact String.toList_injective hchars.2

def sampleFile (parent text : String) : String × MigrationFile :=
  (spelled parent text, { path := "", fixupTarget := none, data := ⟨spelled parent text, parent⟩ })

def quietContext : Context := ⟨true, false, true, false⟩

end GelCli.Migrations
