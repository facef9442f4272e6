import GelCli.Migrations.HookOrder

/-!
# Where skipped hooks are called

With the hooks skipped, `migrate_to_schema` calls none, and `apply_migrations` calls those
after the migrations as soon as it has a project. A command with a project so does what it
does without one until its migrations are applied, and from there on it differs by the
hooks.
-/

namespace GelCli.Migrations

open GelCli.Foundation GelCli.Foundation.Logged

/-- The same context outside of a project. -/
def Context.withoutProject (ctx : Context) : Context := { ctx with hasProject := false }

namespace Hooked

variable {S : Server} {ctx : Context}

/-! ## Commands without hooks -/

theorem beforeHooks_silent {mutation : Mutation} {start : Session} :
    Silent (beforeHooks S false mutation start) :=
  Silent.pure ()

theorem afterHooks_silent {mutation : Mutation} {start : Session} :
    Silent (afterHooks S false mutation start) :=
  Silent.pure ()

theorem changeSchema_silent {start : Session} (h : (!ctx.skipHooks && ctx.hasProject) = false) :
    Silent (changeSchema S ctx start) := by
  apply Silent.bind (Silent.on _)
  intro migs
  apply Silent.ite
  · exact fun _ => Silent.pure _
  intro _
  rw [h]
  apply Silent.bind beforeHooks_silent
  intro _
  apply Silent.bind (Silent.on _)
  intro _
  exact Silent.bind (Silent.on _) fun _ => Silent.pure _

theorem migrateToSchema_silent (h : (!ctx.skipHooks && ctx.hasProject) = false) :
    Silent (migrateToSchema S ctx) := by
  apply Silent.bind (Silent.on _)
  intro s
  apply Silent.ite
  · exact fun _ => Silent.on _
  intro _
  apply Silent.bind (Silent.on _)
  intro _
  refine Silent.bind (Silent.withFinally ?_ (Silent.on _)) fun rv => ?_
  · apply Silent.bind (Silent.on _)
    intro _
    exact Silent.withUndo (changeSchema_silent h) (Silent.on _) (Silent.on _)
  · rw [Bool.and_assoc, h, Bool.and_false]
    exact Silent.bind afterHooks_silent fun _ => Silent.pure _

/-! ## Outside of a project -/

/-- No hook is called. -/
abbrev Unhooked (log : List Reached) : Prop := ∀ r ∈ log, r.isHook = false

section WithoutProject

variable (hproject : ctx.hasProject = false)
include hproject

theorem enabled_withoutProject : (!ctx.skipHooks && ctx.hasProject) = false := by
  rw [hproject, Bool.and_false]

theorem applyMigrations_unhooked {operations : List Operation} {single : Bool} :
    Logs Unhooked (fun _ => True) (applyMigrations S ctx operations single) fun _ _ => True := by
  refine Logs.bind (Logs.on_any _) fun start => ?_
  rw [enabled_withoutProject hproject, hproject]
  refine Logs.bind (beforeHooks_silent _) fun _ => ?_
  refine Logs.bind (Logs.on_any _) fun _ => ?_
  refine Logs.bind (Logs.on_any _) fun _ => ?_
  refine Logs.bind (Logs.note ?_) fun _ => afterHooks_silent _
  intro s log _ hlog r hr
  rcases List.mem_append.mp hr with hr | hr
  · exact hlog r hr
  · obtain rfl := List.mem_singleton.mp hr
    rfl

theorem applyRest_unhooked {migrations : List (String × MigrationFile)} :
    Logs Unhooked (fun _ => True) (applyRest S ctx migrations) fun _ _ => True := by
  apply Logs.ite
  · exact fun _ => Silent.pure () _
  · exact fun _ => Logs.bind (Logs.on_any _) fun _ => applyMigrations_unhooked hproject

theorem restContext_hasProject (migrations : List (String × MigrationFile)) :
    (restContext ctx migrations).hasProject = false := by
  unfold restContext
  cases migrations.isEmpty with
  | true | false => exact hproject

theorem migrateInMode_unhooked {migrations : List (String × MigrationFile)} {mode : Mode} :
    Logs Unhooked (fun _ => True) (migrateInMode S ctx migrations mode) fun _ _ => True := by
  cases mode with
  | normal skip =>
      dsimp only [migrateInMode]
      cases getRange skip migrations with
      | none => exact Logs.throw
      | some rest =>
          have hrest := enabled_withoutProject (restContext_hasProject hproject rest)
          refine Logs.bind (applyRest_unhooked hproject) fun _ => ?_
          exact Logs.bind (migrateToSchema_silent hrest _) fun _ => Silent.pure () _
  | rebase =>
      have h := enabled_withoutProject hproject
      refine Logs.bind (migrateToSchema_silent h _) fun _ => ?_
      exact Logs.bind (Logs.on_any _) fun _ => rebaseToSchema_silent _

theorem migrate_unhooked {migrations : List (String × MigrationFile)} :
    Logs Unhooked (fun _ => True) (migrate S ctx migrations) fun _ _ => True := by
  refine Logs.bind (Logs.on_any _) fun _ => ?_
  refine Logs.bind (Logs.on_any _) fun _ => ?_
  refine Logs.bind (Logs.on_any _) fun _ => ?_
  exact Logs.bind (Logs.on_any _) fun _ => migrateInMode_unhooked hproject

variable {cmd : Command} {migrations : List (String × MigrationFile)} {target : Option String}

theorem applySlice_unhooked {dbMigrations : List String} :
    Logs Unhooked (fun _ => True) (applySlice S ctx cmd migrations dbMigrations target)
      fun _ _ => True := by
  unfold applySlice
  rcases slice migrations dbMigrations.getLast? target with _ | _ | ⟨first, rest⟩
  · exact Logs.throw
  · exact Logs.on_any _
  · refine Logs.bind (Logs.on_any _) fun _ => ?_
    refine Logs.bind (applyMigrations_unhooked hproject) fun _ => ?_
    exact Logs.bind (Logs.on_any _) fun _ => Logs.on_any _

theorem fixup_unhooked {fuel : Nat} {fixups : List MigrationFile} {lastDbRev target : String} :
    Logs Unhooked (fun _ => True) (fixup S fuel ctx cmd migrations fixups lastDbRev target)
      fun _ _ => True := by
  refine Logs.bind (Logs.on_any _) fun _ => ?_
  refine Logs.bind (Logs.on_any _) fun path => ?_
  exact Logs.bind (Logs.on_any _) fun operations => applyMigrations_unhooked hproject

theorem applyTo_unhooked {fuel : Nat} {fixups : List MigrationFile}
    {dbMigrations : List String} :
    Logs Unhooked (fun _ => True)
      (applyTo S fuel ctx cmd migrations fixups dbMigrations target) fun _ _ => True := by
  unfold applyTo
  cases dbMigrations.getLast? with
  | none => exact applySlice_unhooked hproject
  | some lastDbRev =>
      cases migrations.getLast? with
      | none => exact Logs.throw
      | some last =>
          apply Logs.ite
          · exact fun _ => applySlice_unhooked hproject
          · exact fun _ => Logs.bind (Logs.on_any _) fun _ => fixup_unhooked hproject

theorem runInner_unhooked {like : String → String → Bool} {fuel : Nat}
    {fixups : List MigrationFile} :
    Logs Unhooked (fun _ => True) (runInner S like fuel ctx cmd migrations fixups)
      fun _ _ => True := by
  refine Logs.bind (Logs.on_any _) fun _ => ?_
  refine Logs.bind (Logs.on_any _) fun _ => ?_
  refine Logs.bind (Logs.on_any _) fun s => ?_
  refine Logs.bind (Logs.on_any _) fun rev => ?_
  cases rev with
  | applied => exact Silent.pure _ _
  | toApply target => exact Logs.bind (applyTo_unhooked hproject) fun _ => Silent.pure _ _

end WithoutProject

/-! ## With the hooks skipped -/

theorem withoutProject_hasProject : ctx.withoutProject.hasProject = false := rfl

/-- A hook after the migrations is in the log, whatever comes of it. -/
theorem afterHooks_called {mutation : Mutation} {start : Session} (w : Logged Session Reached) :
    ∃ r ∈ (left (afterHooks S true mutation start w)).log, r.isHook = true := by
  have hkept (r : Reached) : Logs (r ∈ ·) (fun _ => True)
      (on (external S) >>= fun _ => onAction S .schemaUpdateAfter mutation start)
      fun _ _ => True := by
    refine Logs.bind (Logs.on_any _) fun _ => ?_
    refine Logs.bind (Logs.note fun now log _ hr => ?_) fun _ => Logs.on_any _
    exact List.mem_append_left _ hr
  refine ⟨.hook ⟨.migrationApplyAfter, mutation, start, w.state⟩, ?_, rfl⟩
  exact (hkept _).log_left (w := ⟨w.state, w.log ++ [_]⟩) trivial
    (List.mem_append_right _ List.mem_cons_self)

section Skipped

variable (hskip : ctx.skipHooks = true)
include hskip

theorem enabled_skipped : (!ctx.skipHooks && ctx.hasProject) = false := by
  rw [hskip]
  rfl

theorem migrateToSchema_withoutProject :
    migrateToSchema S ctx.withoutProject = migrateToSchema S ctx := by
  have hchange (start : Session) :
      changeSchema S ctx.withoutProject start = changeSchema S ctx start := by
    unfold changeSchema Context.withoutProject
    rw [hskip]
    rfl
  unfold migrateToSchema
  simp only [hchange]
  simp only [Context.withoutProject, hskip, Bool.not_true, Bool.and_false, Bool.false_and]

theorem rebaseToSchema_withoutProject {migrations : List (String × MigrationFile)} :
    rebaseToSchema S ctx.withoutProject migrations = rebaseToSchema S ctx migrations := by
  unfold rebaseToSchema
  rw [migrateToSchema_withoutProject hskip]

theorem restContext_skipHooks (migrations : List (String × MigrationFile)) :
    (restContext ctx migrations).skipHooks = true := by
  unfold restContext
  cases migrations.isEmpty with
  | true | false => exact hskip

variable (hproject : ctx.hasProject = true)
include hproject

/-- **The hooks after the migrations are not skipped.** -/
theorem applyMigrations_departs {operations : List Operation} {single : Bool} :
    Departs (·.isHook = true) (applyMigrations S ctx operations single)
      (applyMigrations S ctx.withoutProject operations single) := by
  unfold applyMigrations Context.withoutProject
  rw [hskip, hproject]
  apply Departs.silent_bind (Silent.on _)
  intro start
  apply Departs.silent_bind beforeHooks_silent
  intro _
  apply Departs.silent_bind (Silent.on _)
  intro _
  apply Departs.silent_bind (Silent.on _)
  intro _ s
  exact Or.inr ⟨List.cons_ne_nil _ _, afterHooks_called ⟨s, [.applied]⟩⟩

theorem applyRest_departs {migrations : List (String × MigrationFile)} :
    Departs (·.isHook = true) (applyRest S ctx migrations)
      (applyRest S ctx.withoutProject migrations) := by
  apply Departs.ite
  · exact fun _ => Departs.of_silent (Silent.pure _)
  · intro _
    apply Departs.silent_bind (Silent.on _)
    exact fun _ => applyMigrations_departs hskip hproject

theorem migrateInMode_departs {migrations : List (String × MigrationFile)} {mode : Mode} :
    Departs (·.isHook = true) (migrateInMode S ctx migrations mode)
      (migrateInMode S ctx.withoutProject migrations mode) := by
  cases mode with
  | normal skip =>
      dsimp only [migrateInMode]
      cases getRange skip migrations with
      | none => exact Departs.of_silent (Silent.throw _)
      | some rest =>
          have hrest := restContext_skipHooks hskip rest
          have hcontext : restContext ctx.withoutProject rest =
              (restContext ctx rest).withoutProject := by
            unfold restContext
            cases rest.isEmpty with
            | true | false => rfl
          dsimp only
          rw [hcontext, migrateToSchema_withoutProject hrest]
          apply Departs.bind_silent (applyRest_departs hskip hproject)
          intro _
          exact Silent.bind (migrateToSchema_silent (enabled_skipped hrest)) fun _ =>
            Silent.pure _
  | rebase =>
      have h := enabled_skipped hskip
      dsimp only [migrateInMode]
      rw [migrateToSchema_withoutProject hskip, rebaseToSchema_withoutProject hskip]
      apply Departs.silent_bind (migrateToSchema_silent h)
      intro _
      apply Departs.of_silent
      exact Silent.bind (Silent.on _) fun _ => rebaseToSchema_silent

theorem migrate_departs {migrations : List (String × MigrationFile)} :
    Departs (·.isHook = true) (migrate S ctx migrations)
      (migrate S ctx.withoutProject migrations) := by
  apply Departs.silent_bind (Silent.on _)
  intro _
  apply Departs.silent_bind (Silent.on _)
  intro _
  apply Departs.silent_bind (Silent.on _)
  intro _
  apply Departs.silent_bind (Silent.on _)
  exact fun _ => migrateInMode_departs hskip hproject

variable {cmd : Command} {migrations : List (String × MigrationFile)} {target : Option String}

theorem applySlice_departs {dbMigrations : List String} :
    Departs (·.isHook = true) (applySlice S ctx cmd migrations dbMigrations target)
      (applySlice S ctx.withoutProject cmd migrations dbMigrations target) := by
  unfold applySlice
  rcases slice migrations dbMigrations.getLast? target with _ | _ | ⟨first, rest⟩
  · exact Departs.of_silent (Silent.throw _)
  · exact Departs.of_silent (Silent.on _)
  · apply Departs.silent_bind (Silent.on _)
    intro _
    apply Departs.bind_silent (applyMigrations_departs hskip hproject)
    intro _
    exact Silent.bind (Silent.on _) fun _ => Silent.on _

theorem fixup_departs {fuel : Nat} {fixups : List MigrationFile} {lastDbRev target : String} :
    Departs (·.isHook = true) (fixup S fuel ctx cmd migrations fixups lastDbRev target)
      (fixup S fuel ctx.withoutProject cmd migrations fixups lastDbRev target) := by
  apply Departs.silent_bind (Silent.on _)
  intro _
  apply Departs.silent_bind (Silent.on _)
  intro path
  apply Departs.silent_bind (Silent.on _)
  exact fun operations => applyMigrations_departs hskip hproject

theorem applyTo_departs {fuel : Nat} {fixups : List MigrationFile} {dbMigrations : List String} :
    Departs (·.isHook = true)
      (applyTo S fuel ctx cmd migrations fixups dbMigrations target)
      (applyTo S fuel ctx.withoutProject cmd migrations fixups dbMigrations target) := by
  unfold applyTo
  cases dbMigrations.getLast? with
  | none => exact applySlice_departs hskip hproject
  | some lastDbRev =>
      cases migrations.getLast? with
      | none => exact Departs.of_silent (Silent.throw _)
      | some last =>
          apply Departs.ite
          · exact fun _ => applySlice_departs hskip hproject
          · intro _
            apply Departs.silent_bind (Silent.on _)
            exact fun _ => fixup_departs hskip hproject

theorem runInner_departs {like : String → String → Bool} {fuel : Nat}
    {fixups : List MigrationFile} :
    Departs (·.isHook = true) (runInner S like fuel ctx cmd migrations fixups)
      (runInner S like fuel ctx.withoutProject cmd migrations fixups) := by
  apply Departs.silent_bind (Silent.on _)
  intro _
  apply Departs.silent_bind (Silent.on _)
  intro _
  apply Departs.silent_bind (Silent.on _)
  intro s
  apply Departs.silent_bind (Silent.on _)
  intro rev
  cases rev with
  | applied => exact Departs.of_silent (Silent.pure _)
  | toApply target =>
      apply Departs.bind_silent (applyTo_departs hskip hproject)
      exact fun _ => Silent.pure _

end Skipped

end Hooked

end GelCli.Migrations
