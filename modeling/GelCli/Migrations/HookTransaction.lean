import GelCli.Migrations.HookOrder

/-!
# Hooks in an open transaction

The interactive shell applies migrations over its own connection, with the transaction
that is open there. The hooks after the migrations are then called before they are
committed: whenever `apply_migrations` gets to its end, and only then.
-/

namespace GelCli.Migrations

open GelCli.Foundation GelCli.Foundation.Logged

namespace Hooked

variable {S : Server} {ctx : Context}

/-! ## What the log tells -/

/-- The migrations are applied, and a call is out of order. -/
def OutOfOrder (H : Hasher) (log : List Reached) : Prop :=
  .applied ∈ log ∧ ∃ r ∈ log, ¬ r.InOrder H

/-- As long as no migrations are applied the calls are in order, and then one is not. -/
def Premature (H : Hasher) (log : List Reached) : Prop :=
  .applied ∉ log ∧ (∀ r ∈ log, r.InOrder H) ∨ OutOfOrder H log

section Log

variable {H : Hasher} {log : List Reached}

theorem OutOfOrder.append (h : OutOfOrder H log) (r : Reached) : OutOfOrder H (log ++ [r]) := by
  obtain ⟨happlied, r', hmem, hr'⟩ := h
  exact ⟨List.mem_append_left _ happlied, r', List.mem_append_left _ hmem, hr'⟩

theorem Premature.nil : Premature H [] :=
  Or.inl ⟨List.not_mem_nil, fun _ hr => absurd hr List.not_mem_nil⟩

theorem Premature.hook {run : HookRun} (h : Premature H log) (hrun : run.InOrder H) :
    Premature H (log ++ [.hook run]) := by
  rcases h with ⟨hnot, hordered⟩ | hout
  · refine Or.inl ⟨fun hmem => ?_, fun r hr => ?_⟩
    · rcases List.mem_append.mp hmem with hmem | hmem
      · exact hnot hmem
      · cases List.mem_singleton.mp hmem
    · rcases List.mem_append.mp hr with hr | hr
      · exact hordered r hr
      · obtain rfl := List.mem_singleton.mp hr
        exact hrun
  · exact Or.inr (hout.append _)

theorem Premature.forall_inOrder_iff (h : Premature H log) :
    (∀ r ∈ log, r.InOrder H) ↔ .applied ∉ log := by
  rcases h with ⟨hnot, hordered⟩ | ⟨happlied, r, hr, hnot⟩
  · exact iff_of_true hordered hnot
  · exact iff_of_false (fun h => hnot (h r hr)) fun h => h happlied

end Log

/-! ## The commands -/

theorem tick_inTransaction (s : Session) (hs : InTransaction s) : InTransaction s.tick := hs

/-- A second transaction is refused. -/
theorem applyOperations_inTransaction {operations : List Operation} {single : Bool} :
    Triple InTransaction (applyOperations S operations single) (fun _ => InTransaction)
      Whatever := by
  refine Triple.withFinally (R := fun _ => InTransaction) ?_ (fun _ => ?_)
    fun _ => (quiet_whatever (S := S)).after_error
  · apply Triple.ite
    · intro _
      refine Triple.bind (R := fun _ _ => False) ?_ fun _ => Triple.unreachable
      apply execute_triple
      · intro s t hs _ ht
        exact (Option.ite_none_left_eq_some.mp ht).1 hs
      · exact fun _ _ _ => trivial
      · exact fun _ _ _ _ => trivial
    · exact fun _ => applyMigrationsInner_inTransaction
  · exact executeIfConnected_triple (query_keeps tick_inTransaction) fun _ hs _ => hs

/-- The first hook finds the transaction open. -/
theorem afterHooks_premature {mutation : Mutation} {start : Session} :
    Logs (Premature S.hasher) InTransaction
      (note (fun _ => .applied) >>= fun _ => afterHooks S true mutation start)
      fun _ => InTransaction := by
  rintro w ⟨hw, -⟩
  have hrest : Logs (OutOfOrder S.hasher) InTransaction
      (on (external S) >>= fun _ => onAction S .schemaUpdateAfter mutation start)
      fun _ => InTransaction :=
    Logs.bind (Logs.on (external_keeps tick_inTransaction)) fun _ =>
      onAction_logs (fun _ log _ hlog => hlog.append _) (external_keeps tick_inTransaction)
  let run : HookRun := ⟨.migrationApplyAfter, mutation, start, w.state⟩
  have hrun : ¬ run.InOrder S.hasher := by
    rintro ⟨hsaved, hrewrite, -⟩
    have hopen : w.state.inTransaction = true := hw
    rw [Session.inTransaction, hsaved, hrewrite] at hopen
    cases hopen
  have hout : OutOfOrder S.hasher (w.log ++ [.applied] ++ [.hook run]) :=
    ⟨List.mem_append_left _ (List.mem_append_right _ List.mem_cons_self), .hook run,
      List.mem_append_right _ List.mem_cons_self, hrun⟩
  have hlate : ∀ log, OutOfOrder S.hasher log → Premature S.hasher log := fun _ hlog => Or.inr hlog
  exact hrest.weaken hlate ⟨w.state, w.log ++ [.applied] ++ [.hook run]⟩ ⟨hw, hout⟩

/-- **`apply_migrations` in an open transaction.** -/
theorem applyMigrations_premature (hproject : ctx.hasProject = true)
    {operations : List Operation} {single : Bool} :
    Logs (Premature S.hasher) InTransaction (applyMigrations S ctx operations single)
      fun _ => InTransaction := by
  refine Logs.bind (R := fun start s => InTransaction s ∧
      (s.history = start.history ∧ s.rewrite = start.rewrite))
    (Logs.on (Triple.get fun s hs => ⟨hs, rfl, rfl⟩)) fun start => ?_
  refine Logs.bind (beforeHooks_logs (fun _ _ hrun hlog => hlog.hook hrun) (fun _ hs => hs.2)
    (external_keeps fun _ hs => hs)) fun _ => ?_
  refine Logs.conseq (T := InTransaction) ?_ (fun _ hs => hs.1) fun _ _ hs => hs
  refine Logs.bind (Logs.on (Triple.bind (query_keeps tick_inTransaction) fun _ =>
    query_keeps tick_inTransaction)) fun _ => ?_
  refine Logs.bind (Logs.on applyOperations_inTransaction) fun _ => ?_
  rw [hproject]
  exact afterHooks_premature

section Commands

variable (hproject : ctx.hasProject = true) {migrations : List (String × MigrationFile)}
include hproject

theorem applyRest_premature :
    Logs (Premature S.hasher) InTransaction (applyRest S ctx migrations)
      fun _ => InTransaction := by
  apply Logs.ite
  · exact fun _ => Logs.pure fun _ hs => hs
  · exact fun _ => Logs.bind (Logs.on (autoBackup_keeps tick_inTransaction)) fun _ =>
      applyMigrations_premature hproject

theorem migrateInMode_premature {mode : Mode} :
    Logs (Premature S.hasher) InTransaction (migrateInMode S ctx migrations mode)
      fun _ _ => True := by
  cases mode with
  | normal skip =>
      dsimp only [migrateInMode]
      cases getRange skip migrations with
      | none => exact Logs.throw
      | some rest =>
          refine Logs.bind (applyRest_premature hproject) fun _ => ?_
          exact Logs.bind migrateToSchema_inTransaction fun _ => Logs.pure fun _ _ => trivial
  | rebase =>
      refine Logs.bind migrateToSchema_inTransaction fun _ => ?_
      exact Logs.bind (Logs.on_any _) fun _ => rebaseToSchema_silent _

theorem migrate_premature :
    Logs (Premature S.hasher) InTransaction (migrate S ctx migrations) fun _ _ => True := by
  refine Logs.bind (R := fun _ => InTransaction) (Logs.on ?_) fun _ => ?_
  · refine Triple.bind (query_keeps tick_inTransaction) fun _ => Triple.ite ?_ ?_
    · exact fun _ => Triple.pure fun _ hs => hs
    · exact fun _ => Triple.throw fun _ _ => trivial
  refine Logs.bind (Logs.on (external_keeps tick_inTransaction)) fun _ => ?_
  refine Logs.bind (Logs.on (read_keeps tick_inTransaction ?_)) fun dbMigration => ?_
  · exact fun s => Triple.pure fun _ hs => hs
  exact Logs.bind (Logs.on (selectMode_keeps tick_inTransaction)) fun mode =>
    migrateInMode_premature hproject

variable {cmd : Command} {target : Option String}

theorem applySlice_premature {dbMigrations : List String} :
    Logs (Premature S.hasher) InTransaction
      (applySlice S ctx cmd migrations dbMigrations target) fun _ _ => True := by
  unfold applySlice
  rcases slice migrations dbMigrations.getLast? target with _ | _ | ⟨first, rest⟩
  · exact Logs.throw
  · exact Logs.on_any _
  · refine Logs.bind (Logs.on (autoBackup_keeps tick_inTransaction)) fun _ => ?_
    refine Logs.bind (applyMigrations_premature hproject) fun _ => ?_
    exact Logs.bind (Logs.on_any _) fun _ => Logs.on_any _

theorem fixup_premature {fuel : Nat} {fixups : List MigrationFile} {lastDbRev target : String} :
    Logs (Premature S.hasher) InTransaction
      (fixup S fuel ctx cmd migrations fixups lastDbRev target) fun _ _ => True := by
  refine Logs.bind (Logs.on (external_keeps tick_inTransaction)) fun _ => ?_
  refine Logs.bind (Logs.on (ofExcept_keeps _)) fun path => ?_
  refine Logs.bind (Logs.on (ofExcept_keeps _)) fun operations => ?_
  exact (applyMigrations_premature hproject).conseq (fun _ hs => hs) fun _ _ _ => trivial

theorem applyTo_premature {fuel : Nat} {fixups : List MigrationFile}
    {dbMigrations : List String} :
    Logs (Premature S.hasher) InTransaction
      (applyTo S fuel ctx cmd migrations fixups dbMigrations target) fun _ _ => True := by
  unfold applyTo
  cases dbMigrations.getLast? with
  | none => exact applySlice_premature hproject
  | some lastDbRev =>
      cases migrations.getLast? with
      | none => exact Logs.throw
      | some last =>
          apply Logs.ite
          · exact fun _ => applySlice_premature hproject
          · exact fun _ => Logs.bind (Logs.on (autoBackup_keeps tick_inTransaction)) fun _ =>
              fixup_premature hproject

theorem runInner_premature {like : String → String → Bool} {fuel : Nat}
    {fixups : List MigrationFile} :
    Logs (Premature S.hasher) InTransaction (runInner S like fuel ctx cmd migrations fixups)
      fun _ _ => True := by
  refine Logs.bind (Logs.on (external_keeps tick_inTransaction)) fun _ => ?_
  refine Logs.bind (Logs.on (query_keeps tick_inTransaction)) fun _ => ?_
  refine Logs.bind (R := fun _ => InTransaction) (Logs.on (Triple.get fun _ hs => hs)) fun s => ?_
  refine Logs.bind (Logs.on (targetRev_keeps tick_inTransaction)) fun rev => ?_
  cases rev with
  | applied => exact Logs.pure fun _ _ => trivial
  | toApply target =>
      exact Logs.bind (applyTo_premature hproject) fun _ => Logs.pure fun _ _ => trivial

end Commands

end Hooked

end GelCli.Migrations
