import GelCli.Foundation.Logged
import GelCli.Migrations.Apply
import GelCli.Migrations.DevMode

/-!
# The hooks of a migration

`migration apply`, with every call of `hooks::on_action` of `src/hooks/mod.rs` in the log:
which action it is for, the mutation the action belongs to, and the connection at the
start of that mutation's command and at the call. Without the log the commands are those
over the connection alone.
-/

namespace GelCli.Migrations

open GelCli.Foundation GelCli.Foundation.Logged

/-! ## The log -/

/-- The actions of `get_hook` that applying migrations calls for. -/
inductive HookAction where
  | migrationApplyBefore
  | schemaUpdateBefore
  | migrationApplyAfter
  | schemaUpdateAfter
deriving DecidableEq, Repr

/-- `action.ends_with("after")`. -/
def HookAction.isAfter : HookAction → Bool
  | migrationApplyBefore | schemaUpdateBefore => false
  | migrationApplyAfter | schemaUpdateAfter => true

/-- What the hooks are about: the operations of `apply_migrations`, or the dev-mode
migration of `migrate_to_schema`. -/
inductive Mutation where
  | operations (operations : List Operation)
  | schema
deriving DecidableEq, Repr

structure HookRun where
  action : HookAction
  mutation : Mutation
  start : Session
  now : Session
deriving DecidableEq, Repr

/-- A call of `on_action`, or that `apply_migrations` has applied its migrations. -/
inductive Reached where
  | hook (run : HookRun)
  | applied
deriving DecidableEq, Repr

def Reached.isHook : Reached → Bool
  | hook _ => true
  | applied => false

abbrev HookedRun := EStateM MigrateError (Logged Session Reached)

namespace Hooked

variable (S : Server)

/-! ## The commands -/

def onAction (action : HookAction) (mutation : Mutation) (start : Session) : HookedRun Unit := do
  note fun now => .hook ⟨action, mutation, start, now⟩
  on (external S)

def beforeHooks (enabled : Bool) (mutation : Mutation) (start : Session) : HookedRun Unit :=
  if enabled then do
    onAction S .migrationApplyBefore mutation start
    onAction S .schemaUpdateBefore mutation start
  else pure ()

def afterHooks (enabled : Bool) (mutation : Mutation) (start : Session) : HookedRun Unit :=
  if enabled then do
    onAction S .migrationApplyAfter mutation start
    onAction S .schemaUpdateAfter mutation start
  else pure ()

/-- The migrations between the hooks, in a transaction or without one. -/
def applyOperations (operations : List Operation) (singleTransaction : Bool) : Run Unit :=
  withFinally
    (if singleTransaction then do
      execute S .startTransaction
      withUndo (applyMigrationsInner S operations) (executeIfConnected S .rollback)
        (execute S .commit)
    else applyMigrationsInner S operations)
    (restoreForTransaction S)

/-- The hooks after the migrations do not look at `skip_hooks`. -/
def applyMigrations (ctx : Context) (operations : List Operation) (singleTransaction : Bool) :
    HookedRun Unit := do
  let start ← on get
  beforeHooks S (!ctx.skipHooks && ctx.hasProject) (.operations operations) start
  on (inhibitForTransaction S)
  on (applyOperations S operations singleTransaction)
  note fun _ => .applied
  afterHooks S ctx.hasProject (.operations operations) start

def changeSchema (ctx : Context) (start : Session) : HookedRun Bool := do
  let migs ← on (populateMigration S)
  if migs.isEmpty then pure false
  else do
    beforeHooks S (!ctx.skipHooks && ctx.hasProject) .schema start
    on (autoBackup S ctx)
    on (applyStatements S migs)
    pure true

def migrateToSchema (ctx : Context) : HookedRun Bool := do
  let s ← on get
  if s.inTransaction then on (changeSchemaInTransaction S)
  else do
    on (inhibitForTransaction S)
    let rv ← withFinally
      (do
        on (execute S .startTransaction)
        withUndo (changeSchema S ctx s) (on (executeIfConnected S .rollback))
          (on (executeIfConnected S .commit)))
      (on (restoreForTransaction S))
    afterHooks S (rv && !ctx.skipHooks && ctx.hasProject) .schema s
    pure rv

def rebaseToSchema (ctx : Context) (migrations : List (String × MigrationFile)) :
    HookedRun Unit := do
  on (execute S .startRewrite)
  withUndo
    (do
      on (applyFiles S migrations)
      let _ ← migrateToSchema S ctx
      pure ())
    (on (executeIfConnected S .abortRewrite)) (on (execute S .commitRewrite))

def applyRest (ctx : Context) (migrations : List (String × MigrationFile)) : HookedRun Unit :=
  if migrations.isEmpty then pure ()
  else do
    on (autoBackup S ctx)
    applyMigrations S ctx (migrations.map fun migration => .apply migration.2) false

/-- The context after the migrations that are not skipped. -/
def restContext (ctx : Context) (migrations : List (String × MigrationFile)) : Context :=
  if migrations.isEmpty then ctx else { ctx with autoBackup := false }

def migrateInMode (ctx : Context) (migrations : List (String × MigrationFile)) :
    Mode → HookedRun Unit
  | .normal skip =>
      match getRange skip migrations with
      | none => throw .skipOutOfRange
      | some migrations => do
          applyRest S ctx migrations
          let _ ← migrateToSchema S (restContext ctx migrations)
          pure ()
  | .rebase => do
      let appliedChanges ← migrateToSchema S ctx
      on (autoBackup S { ctx with autoBackup := !appliedChanges && ctx.autoBackup })
      rebaseToSchema S ctx migrations

/-- `dev_mode::migrate`. -/
def migrate (ctx : Context) (migrations : List (String × MigrationFile)) : HookedRun Unit := do
  on (checkClient S)
  on (external S)
  let dbMigration ← on (getDbMigration S)
  let mode ← on (selectMode S migrations dbMigration)
  migrateInMode S ctx migrations mode

def fixup (fuel : Nat) (ctx : Context) (cmd : Command)
    (migrations : List (String × MigrationFile)) (fixups : List MigrationFile)
    (lastDbRev target : String) : HookedRun Unit := do
  on (external S)
  let path ← on (ofExcept (foundPath (findPath fuel migrations fixups lastDbRev target)))
  let operations ← on (ofExcept (pathOperations migrations path))
  applyMigrations S ctx operations cmd.singleTransaction

def applySlice (ctx : Context) (cmd : Command) (migrations : List (String × MigrationFile))
    (dbMigrations : List String) (target : Option String) : HookedRun Unit :=
  match slice migrations dbMigrations.getLast? target with
  | none => throw .slicingError
  | some [] => on (buildIndexes S cmd)
  | some (migration :: migrations) => do
      on (autoBackup S ctx)
      applyMigrations S ctx ((migration :: migrations).map fun migration => .apply migration.2)
        cmd.singleTransaction
      on (buildIndexes S cmd)
      on (disableDdl S dbMigrations)

def applyTo (fuel : Nat) (ctx : Context) (cmd : Command)
    (migrations : List (String × MigrationFile)) (fixups : List MigrationFile)
    (dbMigrations : List String) (target : Option String) : HookedRun Unit :=
  match dbMigrations.getLast? with
  | none => applySlice S ctx cmd migrations dbMigrations target
  | some lastDbRev =>
      match migrations.getLast? with
      | none => throw .emptyDirectory
      | some (last, _) =>
          if lastDbRev ∈ migrations.map Prod.fst then
            applySlice S ctx cmd migrations dbMigrations target
          else do
            on (autoBackup S ctx)
            fixup S fuel ctx cmd migrations fixups lastDbRev (target.getD last)

/-- The revision with a prefix: `dbRevs` are those that the server finds, `fileRevs` those
of the directory. Which of the messages it is when there is not a single one is left out. -/
def revWithPrefix (dbRevs fileRevs : List String) : Except MigrateError TargetRev :=
  match dbRevs, fileRevs with
  | [], [] => .error .unknownRevision
  | [], [target] => .ok (.toApply (some target))
  | [_], [] => .ok .applied
  | [dbRev], [target] => if dbRev = target then .ok .applied else .error .unknownRevision
  | _ :: _ :: _, _ => .error .unknownRevision
  | _, _ :: _ :: _ => .error .unknownRevision

/-- `like` is how the server compares a name with a prefix. -/
def targetRev (like : String → String → Bool) (cmd : Command)
    (migrations : List (String × MigrationFile)) : Run TargetRev :=
  match cmd.toRevision with
  | none => pure (.toApply none)
  | some revPrefix => do
      execute S .query
      let s ← get
      ofExcept (revWithPrefix (s.current.filter (like revPrefix))
        ((migrations.map Prod.fst).filter fun rev => revPrefix.toList.isPrefixOf rev.toList))

/-- `run_inner` without `dev_mode`. -/
def runInner (like : String → String → Bool) (fuel : Nat) (ctx : Context) (cmd : Command)
    (migrations : List (String × MigrationFile)) (fixups : List MigrationFile) :
    HookedRun Ending := do
  on (external S)
  on (execute S .query)
  let s ← on get
  match ← on (targetRev S like cmd migrations) with
  | .applied => pure .upToDate
  | .toApply target => do
      applyTo S fuel ctx cmd migrations fixups s.current target
      pure .done

/-! ## Without the log -/

variable {S}

theorem erases_onAction {action : HookAction} {mutation : Mutation} {start : Session} :
    Erases (onAction S action mutation start) (external S) :=
  Erases.note_bind (Erases.on _)

theorem erases_beforeHooks {enabled : Bool} {mutation : Mutation} {start : Session} :
    Erases (beforeHooks S enabled mutation start) (runHooks S enabled) := by
  apply Erases.ite
  · exact Erases.bind erases_onAction fun _ => erases_onAction
  · exact Erases.pure _

theorem erases_afterHooks {enabled : Bool} {mutation : Mutation} {start : Session} :
    Erases (afterHooks S enabled mutation start) (runHooks S enabled) := by
  apply Erases.ite
  · exact Erases.bind erases_onAction fun _ => erases_onAction
  · exact Erases.pure _

/-- **Without the log it is `apply_migrations`.** -/
theorem erases_applyMigrations (ctx : Context) (operations : List Operation) (single : Bool) :
    Erases (applyMigrations S ctx operations single)
      (Migrations.applyMigrations S ctx operations single) := by
  apply Erases.get_bind
  intro start
  apply Erases.bind erases_beforeHooks
  intro _
  apply Erases.bind (Erases.on _)
  intro _
  apply Erases.bind (Erases.on _)
  intro _
  exact Erases.note_bind erases_afterHooks

theorem erases_changeSchema {ctx : Context} {start : Session} :
    Erases (changeSchema S ctx start) (Migrations.changeSchema S ctx) := by
  apply Erases.bind (Erases.on _)
  intro migs
  apply Erases.ite (Erases.pure _)
  apply Erases.bind erases_beforeHooks
  intro _
  apply Erases.bind (Erases.on _)
  intro _
  exact Erases.bind (Erases.on _) fun _ => Erases.pure _

theorem erases_migrateToSchema (ctx : Context) :
    Erases (migrateToSchema S ctx) (Migrations.migrateToSchema S ctx) := by
  apply Erases.bind (Erases.on _)
  intro s
  apply Erases.ite (Erases.on _)
  apply Erases.bind (Erases.on _)
  intro _
  refine Erases.bind (Erases.withFinally ?_ (Erases.on _)) fun rv => ?_
  · apply Erases.bind (Erases.on _)
    intro _
    exact Erases.withUndo erases_changeSchema (Erases.on _) (Erases.on _)
  · exact Erases.bind erases_afterHooks fun _ => Erases.pure _

theorem erases_rebaseToSchema (ctx : Context) (migrations : List (String × MigrationFile)) :
    Erases (rebaseToSchema S ctx migrations) (Migrations.rebaseToSchema S ctx migrations) := by
  apply Erases.bind (Erases.on _)
  intro _
  refine Erases.withUndo ?_ (Erases.on _) (Erases.on _)
  apply Erases.bind (Erases.on _)
  intro _
  exact Erases.bind (erases_migrateToSchema ctx) fun _ => Erases.pure _

theorem erases_applyRest (ctx : Context) (migrations : List (String × MigrationFile)) :
    Erases (applyRest S ctx migrations >>= fun _ => pure (restContext ctx migrations))
      (Migrations.applyRest S ctx migrations) := by
  unfold applyRest restContext Migrations.applyRest
  cases migrations.isEmpty with
  | true => exact fun _ => rfl
  | false =>
      rw [if_neg Bool.false_ne_true, if_neg Bool.false_ne_true, if_neg Bool.false_ne_true,
        bind_assoc]
      apply Erases.bind (Erases.on _)
      intro _
      exact Erases.bind (erases_applyMigrations ctx _ false) fun _ => Erases.pure _

theorem erases_migrateInMode (ctx : Context) (migrations : List (String × MigrationFile))
    (mode : Mode) :
    Erases (migrateInMode S ctx migrations mode)
      (Migrations.migrateInMode S ctx migrations mode) := by
  cases mode with
  | normal skip =>
      dsimp only [migrateInMode, Migrations.migrateInMode]
      cases getRange skip migrations with
      | none => exact fun _ => rfl
      | some rest =>
          have hrest := Erases.bind (erases_applyRest (S := S) ctx rest)
            (f := fun ctx => migrateToSchema S ctx >>= fun _ => pure ())
            fun ctx => Erases.bind (erases_migrateToSchema ctx) fun _ => Erases.pure ()
          rw [bind_assoc] at hrest
          exact hrest
  | rebase =>
      apply Erases.bind (erases_migrateToSchema ctx)
      intro appliedChanges
      exact Erases.bind (Erases.on _) fun _ => erases_rebaseToSchema ctx migrations

/-- **Without the log it is `migrate` of the dev mode.** -/
theorem erases_migrate (ctx : Context) (migrations : List (String × MigrationFile)) :
    Erases (migrate S ctx migrations) (Migrations.migrate S ctx migrations) := by
  apply Erases.bind (Erases.on _)
  intro _
  apply Erases.bind (Erases.on _)
  intro _
  apply Erases.bind (Erases.on _)
  intro dbMigration
  exact Erases.bind (Erases.on _) fun mode => erases_migrateInMode ctx migrations mode

section Apply

variable {ctx : Context} {cmd : Command} {migrations : List (String × MigrationFile)}
variable {dbMigrations : List String} {target : Option String}

theorem erases_fixup {fuel : Nat} {fixups : List MigrationFile} {lastDbRev target : String} :
    Erases (fixup S fuel ctx cmd migrations fixups lastDbRev target)
      (Migrations.fixup S fuel ctx cmd migrations fixups lastDbRev target) := by
  apply Erases.bind (Erases.on _)
  intro _
  apply Erases.bind (Erases.on _)
  intro path
  apply Erases.bind (Erases.on _)
  exact fun operations => erases_applyMigrations ctx operations cmd.singleTransaction

theorem erases_applySlice :
    Erases (applySlice S ctx cmd migrations dbMigrations target)
      (Migrations.applySlice S ctx cmd migrations dbMigrations target) := by
  unfold applySlice Migrations.applySlice
  rcases slice migrations dbMigrations.getLast? target with _ | _ | ⟨first, rest⟩
  · exact fun _ => rfl
  · exact Erases.on _
  · apply Erases.bind (Erases.on _)
    intro _
    apply Erases.bind (erases_applyMigrations ctx _ cmd.singleTransaction)
    intro _
    exact Erases.bind (Erases.on _) fun _ => Erases.on _

/-- **Without the log it is what `run_inner` does for a revision.** -/
theorem erases_applyTo (fuel : Nat) (fixups : List MigrationFile) :
    Erases (applyTo S fuel ctx cmd migrations fixups dbMigrations target)
      (Migrations.applyTo S fuel ctx cmd migrations fixups dbMigrations target) := by
  unfold applyTo Migrations.applyTo
  cases dbMigrations.getLast? with
  | none => exact erases_applySlice
  | some lastDbRev =>
      cases migrations.getLast? with
      | none => exact fun _ => rfl
      | some last =>
          apply Erases.ite erases_applySlice
          exact Erases.bind (Erases.on _) fun _ => erases_fixup

/-- Where no revision is given there is none to look for. -/
theorem erases_runInner (like : String → String → Bool) (fuel : Nat)
    (fixups : List MigrationFile) (hlatest : cmd.toRevision = none) :
    Erases (runInner S like fuel ctx cmd migrations fixups)
      (Migrations.runInner S fuel ctx cmd migrations fixups) := by
  apply Erases.bind (Erases.on _)
  intro _
  apply Erases.bind (Erases.on _)
  intro _
  apply Erases.bind (Erases.on _)
  intro s
  unfold targetRev Migrations.targetRev
  rw [hlatest]
  apply Erases.bind (Erases.on _)
  intro rev
  cases rev with
  | applied => exact Erases.pure _
  | toApply target => exact Erases.bind (erases_applyTo fuel fixups) fun _ => Erases.pure _

end Apply

end Hooked

end GelCli.Migrations
