import GelCli.Migrations.Server

/-!
# Dev mode

`migrate` of `src/migrations/dev_mode.rs`: the file migrations that the database does
not have are applied, or its whole history is rewritten as them, and then a dev-mode
migration brings the schema up to date.
-/

namespace GelCli.Migrations

open GelCli.Foundation

variable (S : Server)

inductive Mode where
  | normal (skip : Nat)
  | rebase
deriving DecidableEq, Repr

/-- The last migration of the database. -/
def getDbMigration : Run (Option String) := do
  execute S .query
  let s ← get
  pure s.current.getLast?

/-- Whether the database has a migration of that name. -/
def containsMigration (id : String) : Run Bool := do
  execute S .query
  let s ← get
  pure (decide (id ∈ s.current))

def selectMode (migrations : List (String × MigrationFile)) (dbMigration : Option String) :
    Run Mode :=
  match dbMigration with
  | none => pure (.normal 0)
  | some dbMigration =>
      match migrations.findIdx? fun migration => migration.1 = dbMigration with
      | some idx => pure (.normal (idx + 1))
      | none =>
          match migrations.getLast? with
          | none => pure (.normal migrations.length)
          | some (id, _) => do
              let containsLastFsMigration ← containsMigration S id
              pure (if containsLastFsMigration then .normal migrations.length else .rebase)

/-! ## Changing the schema -/

/-- What `_populate_migration` starts, populates and describes it rolls back again. -/
def populateMigration : Run (List String) := do
  execute S .query
  let s ← get
  pure (S.schemaDiff s.clock)

def applyStatements (items : List String) : Run Unit :=
  execute S (.createDevMigration (String.intercalate "\n" items))

/-- The body of the transaction of `migrate_to_schema`. -/
def changeSchema (ctx : Context) : Run Bool := do
  let migs ← populateMigration S
  if migs.isEmpty then pure false
  else do
    runHooks S (!ctx.skipHooks && ctx.hasProject)
    autoBackup S ctx
    applyStatements S migs
    pure true

def changeSchemaInTransaction : Run Bool := do
  let migs ← populateMigration S
  if migs.isEmpty then pure false
  else do
    applyStatements S migs
    pure true

def migrateToSchema (ctx : Context) : Run Bool := do
  let s ← get
  if s.inTransaction then changeSchemaInTransaction S
  else do
    inhibitForTransaction S
    let rv ← withFinally
      (do
        execute S .startTransaction
        withUndo (changeSchema S ctx) (executeIfConnected S .rollback)
          (executeIfConnected S .commit))
      (restoreForTransaction S)
    runHooks S (rv && !ctx.skipHooks && ctx.hasProject)
    pure rv

/-! ## Migrating -/

def applyFiles (migrations : List (String × MigrationFile)) : Run Unit :=
  applyMigrationsInner S (migrations.map fun migration => .apply migration.2)

def rebaseToSchema (ctx : Context) (migrations : List (String × MigrationFile)) : Run Unit := do
  execute S .startRewrite
  withUndo
    (do
      applyFiles S migrations
      let _ ← migrateToSchema S ctx
      pure ())
    (executeIfConnected S .abortRewrite) (execute S .commitRewrite)

/-- The migrations that are not skipped; after them there is no second backup. -/
def applyRest (ctx : Context) (migrations : List (String × MigrationFile)) : Run Context :=
  if migrations.isEmpty then pure ctx
  else do
    autoBackup S ctx
    applyMigrations S ctx (migrations.map fun migration => .apply migration.2) false
    pure { ctx with autoBackup := false }

/-- `get_range(skip..)`. -/
def getRange (skip : Nat) (migrations : List (String × MigrationFile)) :
    Option (List (String × MigrationFile)) :=
  if skip ≤ migrations.length then some (migrations.drop skip) else none

def migrateInMode (ctx : Context) (migrations : List (String × MigrationFile)) : Mode → Run Unit
  | .normal skip =>
      match getRange skip migrations with
      | none => throw .skipOutOfRange
      | some migrations => do
          let ctx ← applyRest S ctx migrations
          let _ ← migrateToSchema S ctx
          pure ()
  | .rebase => do
      let appliedChanges ← migrateToSchema S ctx
      autoBackup S { ctx with autoBackup := !appliedChanges && ctx.autoBackup }
      rebaseToSchema S ctx migrations

def checkClient : Run Unit := do
  execute S .query
  if S.devModeSupported then pure () else throw .devModeNotSupported

def migrate (ctx : Context) (migrations : List (String × MigrationFile)) : Run Unit := do
  checkClient S
  external S
  let dbMigration ← getDbMigration S
  let mode ← selectMode S migrations dbMigration
  migrateInMode S ctx migrations mode

end GelCli.Migrations
