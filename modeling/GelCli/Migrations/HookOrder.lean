import GelCli.Migrations.DevModeHistory
import GelCli.Migrations.Hooked

/-!
# Hooks around a mutation

A hook before a mutation finds the history as it was at the start; one after it finds the
mutation in the history of the database, with nothing left open that could still be rolled
back. So it is for every command that starts outside of a transaction, whatever fails.
-/

namespace GelCli.Migrations

open GelCli.Foundation GelCli.Foundation.Logged

/-! ## What is promised -/

/-- The history after an operation that was applied. -/
def Operation.result (history : List String) : Operation → List String
  | .apply file => history ++ [file.data.id]
  | .rewrite migrations => migrations.map fun migration => migration.2.data.id

/-- The mutation takes the first history to the second. -/
def Mutation.Leads (H : Hasher) (before after : List String) : Mutation → Prop
  | .operations all => after = all.foldl Operation.result before
  | .schema => ∃ text, after = before ++ [H.make (H.last before) text]

/-- Before the mutation it has not begun; after it, it is committed. -/
def HookRun.InOrder (H : Hasher) (run : HookRun) : Prop :=
  if run.action.isAfter then
    run.now.saved = none ∧ run.now.rewrite = none ∧
      run.mutation.Leads H run.start.history run.now.history
  else run.now.history = run.start.history ∧ run.now.rewrite = run.start.rewrite

def Reached.InOrder (H : Hasher) : Reached → Prop
  | hook run => run.InOrder H
  | applied => True

/-- Outside of a transaction; whether the connection is lost is left open. -/
def Session.Idle (s : Session) (c : List String) : Prop :=
  s.history = c ∧ s.rewrite = none ∧ s.saved = none

theorem Session.idle_of_not_inTransaction {s : Session} (h : s.inTransaction = false) :
    s.Idle s.history := by
  obtain ⟨hsaved, hrewrite⟩ := Bool.or_eq_false_iff.mp h
  exact ⟨rfl, Option.isNone_iff_eq_none.mp (Option.not_isSome_iff_eq_none.mp
    (Bool.eq_false_iff.mp hrewrite) ▸ rfl), Option.not_isSome_iff_eq_none.mp
    (Bool.eq_false_iff.mp hsaved)⟩

theorem Session.push_saved (s : Session) (id : String) : (s.push id).saved = s.saved := by
  unfold Session.push
  cases s.rewrite with
  | none | some => rfl

theorem Session.push_inTransaction (s : Session) (id : String) :
    (s.push id).inTransaction = s.inTransaction := by
  unfold Session.push Session.inTransaction
  cases s.rewrite with
  | none | some => rfl

namespace Hooked

variable {S : Server} {c : List String}

/-- The log holds calls in order only. -/
abbrev Ordered (S : Server) (log : List Reached) : Prop := ∀ r ∈ log, r.InOrder S.hasher

/-- Errors are of no concern. -/
abbrev Whatever (_ : MigrateError) (_ : Session) : Prop := True

theorem quiet_whatever : Quiet S Whatever := Or.inr fun _ _ => trivial

theorem ordered_append {log : List Reached} {r : Reached} (h : Ordered S log)
    (hr : r.InOrder S.hasher) : Ordered S (log ++ [r]) := by
  intro r' hmem
  rcases List.mem_append.mp hmem with hmem | hmem
  · exact h r' hmem
  · obtain rfl := List.mem_singleton.mp hmem
    exact hr

/-! ## What the commands between the hooks do -/

theorem external_idle :
    Triple (fun s => s.Idle c) (external S) (fun _ s => s.Idle c) Whatever :=
  external_triple (fun _ hs => hs) fun _ _ _ _ => trivial

/-- Whoever is answered has a connection. -/
theorem query_idle :
    Triple (fun s => s.Idle c) (execute S .query) (fun _ s => (Place.plain none).At c s)
      Whatever := by
  apply execute_triple
  · rintro s _ ⟨hhistory, hrewrite, hsaved⟩ hconnected ⟨⟩
    exact ⟨hconnected, hhistory, hrewrite, hsaved⟩
  · exact fun _ _ _ => trivial
  · exact fun _ _ _ _ => trivial

theorem inhibit_idle :
    Triple (fun s => s.Idle c) (inhibitForTransaction S)
      (fun _ s => (Place.plain none).At c s) Whatever :=
  Triple.bind query_idle fun _ => query_at quiet_whatever

theorem applyMigration_result {place : Place} {file : MigrationFile} :
    Triple (fun s => place.At c s) (applyMigration S file)
      (fun _ s => place.At (c ++ [file.data.id]) s) Whatever := by
  refine Triple.bind (external_at quiet_whatever) fun _ => ?_
  apply execute_triple
  · intro s t hs _ ht
    obtain ⟨-, ht⟩ := Option.ite_none_right_eq_some.mp ht
    cases ht
    exact (hs.push _).tick
  · exact fun _ _ _ => trivial
  · exact fun _ _ _ _ => trivial

theorem applyEach_result {place : Place} {files : List MigrationFile} :
    Triple (fun s => place.At c s) (applyEach S files)
      (fun _ s => place.At (c ++ files.map fun file => file.data.id) s) Whatever := by
  induction files generalizing c with
  | nil =>
      apply Triple.pure
      intro s hs
      rw [List.map_nil, List.append_nil]
      exact hs
  | cons file files ih =>
      refine Triple.bind applyMigration_result fun _ => ?_
      have htail := ih (c := c ++ [file.data.id])
      rw [List.append_assoc] at htail
      exact htail

theorem applyOperation_result {saved : Option (List String)} {operation : Operation} :
    Triple (fun s => (Place.plain saved).At c s) (applyOperation S operation)
      (fun _ s => (Place.plain saved).At (operation.result c) s) Whatever := by
  cases operation with
  | apply file => exact applyMigration_result
  | rewrite migrations =>
      refine Triple.bind (startRewrite_at quiet_whatever) fun _ => ?_
      refine Triple.withUndo (applyEach_result (c := [])) (fun _ => ?_)
        fun _ => (quiet_whatever (S := S)).after_error
      rw [List.nil_append, List.map_map]
      exact commitRewrite_at quiet_whatever

theorem applyMigrationsInner_result {saved : Option (List String)}
    {operations : List Operation} :
    Triple (fun s => (Place.plain saved).At c s) (applyMigrationsInner S operations)
      (fun _ s => (Place.plain saved).At (operations.foldl Operation.result c) s) Whatever := by
  induction operations generalizing c with
  | nil => exact Triple.pure fun s hs => hs
  | cons operation operations ih => exact Triple.bind applyOperation_result fun _ => ih

/-- With a transaction around them or without, the operations are committed. -/
theorem applyOperations_result {operations : List Operation} {single : Bool} :
    Triple (fun s => (Place.plain none).At c s) (applyOperations S operations single)
      (fun _ s => (Place.plain none).At (operations.foldl Operation.result c) s) Whatever := by
  refine Triple.withFinally (Triple.ite (fun _ => ?_) fun _ => applyMigrationsInner_result)
    (fun _ => restore_at quiet_whatever) fun _ => (quiet_whatever (S := S)).after_error
  refine Triple.bind (startTransaction_at quiet_whatever) fun _ => ?_
  exact Triple.withUndo applyMigrationsInner_result (fun _ => commit_at quiet_whatever)
    fun _ => (quiet_whatever (S := S)).after_error

/-- The dev-mode migration is the last one. -/
theorem applyStatements_result {place : Place} {items : List String} :
    Triple (fun s => place.At c s) (applyStatements S items)
      (fun _ s => ∃ c', Mutation.schema.Leads S.hasher c c' ∧ place.At c' s) Whatever := by
  apply execute_triple
  · intro s t hs _ ht
    cases ht
    rw [hs.current]
    exact ⟨_, ⟨_, rfl⟩, (hs.push _).tick⟩
  · exact fun _ _ _ => trivial
  · exact fun _ _ _ _ => trivial

/-! ### What stays open -/

section Keeps

variable {P : Session → Prop} (htick : ∀ s, P s → P s.tick)
include htick

theorem external_keeps : Triple P (external S) (fun _ => P) Whatever :=
  external_triple htick fun _ _ _ _ => trivial

theorem query_keeps : Triple P (execute S .query) (fun _ => P) Whatever := by
  apply execute_triple
  · rintro s _ hs - ⟨⟩
    exact htick s hs
  · exact fun _ _ _ => trivial
  · exact fun _ _ _ _ => trivial

theorem autoBackup_keeps {ctx : Context} :
    Triple P (autoBackup S ctx) (fun _ => P) Whatever := by
  apply Triple.ite
  · exact fun _ => external_keeps htick
  · exact fun _ => Triple.pure fun _ hs => hs

/-- A query and what is made of its answer. -/
theorem read_keeps {α : Type} {f : Session → Run α}
    (hf : ∀ s, Triple P (f s) (fun _ => P) Whatever) :
    Triple P (execute S .query >>= fun _ => get >>= f) (fun _ => P) Whatever := by
  refine Triple.bind (query_keeps htick) fun _ => ?_
  exact Triple.bind (R := fun _ => P) (Triple.get fun s hs => hs) hf

theorem selectMode_keeps {migrations : List (String × MigrationFile)}
    {dbMigration : Option String} :
    Triple P (selectMode S migrations dbMigration) (fun _ => P) Whatever := by
  cases dbMigration with
  | none => exact Triple.pure fun s hs => hs
  | some dbMigration =>
      dsimp only [selectMode]
      cases migrations.findIdx? fun migration => decide (migration.1 = dbMigration) with
      | some idx => exact Triple.pure fun s hs => hs
      | none =>
          cases migrations.getLast? with
          | none => exact Triple.pure fun s hs => hs
          | some last =>
              refine Triple.bind (R := fun _ => P) ?_ fun _ => Triple.pure fun s hs => hs
              exact read_keeps htick fun s => Triple.pure fun s hs => hs

theorem targetRev_keeps {like : String → String → Bool} {cmd : Command}
    {migrations : List (String × MigrationFile)} :
    Triple P (targetRev S like cmd migrations) (fun _ => P) Whatever := by
  unfold targetRev
  cases cmd.toRevision with
  | none => exact Triple.pure fun s hs => hs
  | some revPrefix =>
      exact read_keeps htick fun s =>
        Triple.ofExcept (fun _ _ _ hs => hs) fun _ _ _ _ => trivial

omit htick in
theorem ofExcept_keeps {α : Type} (x : Except MigrateError α) :
    Triple P (ofExcept x : Run α) (fun _ => P) Whatever :=
  Triple.ofExcept (fun _ _ _ hs => hs) fun _ _ _ _ => trivial

theorem applyMigration_keeps {file : MigrationFile} (hpush : ∀ s id, P s → P (s.push id)) :
    Triple P (applyMigration S file) (fun _ => P) Whatever := by
  refine Triple.bind (external_keeps htick) fun _ => ?_
  apply execute_triple
  · intro s t hs _ ht
    obtain ⟨-, ht⟩ := Option.ite_none_right_eq_some.mp ht
    cases ht
    exact htick _ (hpush s _ hs)
  · exact fun _ _ _ => trivial
  · exact fun _ _ _ _ => trivial

theorem applyEach_keeps {files : List MigrationFile} (hpush : ∀ s id, P s → P (s.push id)) :
    Triple P (applyEach S files) (fun _ => P) Whatever := by
  induction files with
  | nil => exact Triple.pure fun s hs => hs
  | cons file files ih => exact Triple.bind (applyMigration_keeps htick hpush) fun _ => ih

end Keeps

/-- The connection is in a transaction, of its own or of a rewrite. -/
abbrev InTransaction (s : Session) : Prop := s.inTransaction = true

/-- A rewrite can only be started in a transaction of its own, which is still open after it. -/
theorem applyOperation_inTransaction {operation : Operation} :
    Triple InTransaction (applyOperation S operation) (fun _ => InTransaction) Whatever := by
  cases operation with
  | apply file =>
      apply applyMigration_keeps
      · exact fun s hs => hs
      · exact fun s id hs => (Session.push_inTransaction s id).trans hs
  | rewrite migrations =>
      refine Triple.bind (R := fun _ s => s.saved.isSome = true) ?_ fun _ => ?_
      · apply execute_triple
        · intro s t hs _ ht
          obtain ⟨hrewrite, ht⟩ := Option.ite_none_left_eq_some.mp ht
          cases ht
          exact (Bool.or_eq_true_iff.mp hs).resolve_right hrewrite
        · exact fun _ _ _ => trivial
        · exact fun _ _ _ _ => trivial
      refine Triple.withUndo (R := fun _ s => s.saved.isSome = true) ?_ (fun _ => ?_)
        fun _ => (quiet_whatever (S := S)).after_error
      · apply applyEach_keeps
        · exact fun s hs => hs
        · intro s id hs
          rw [Session.push_saved]
          exact hs
      · apply execute_triple
        · intro s t hs _ ht
          obtain ⟨_, -, rfl⟩ := Option.map_eq_some_iff.mp ht
          exact Bool.or_eq_true_iff.mpr (Or.inl hs)
        · exact fun _ _ _ => trivial
        · exact fun _ _ _ _ => trivial

theorem applyMigrationsInner_inTransaction {operations : List Operation} :
    Triple InTransaction (applyMigrationsInner S operations) (fun _ => InTransaction)
      Whatever := by
  induction operations with
  | nil => exact Triple.pure fun s hs => hs
  | cons operation operations ih => exact Triple.bind applyOperation_inTransaction fun _ => ih

theorem applyFiles_inTransaction {migrations : List (String × MigrationFile)} :
    Triple InTransaction (applyFiles S migrations) (fun _ => InTransaction) Whatever :=
  applyMigrationsInner_inTransaction

/-! ## The calls -/

section Hooks

variable {P : Session → Prop} {mutation : Mutation} {start : Session} {enabled : Bool}

theorem onAction_logs {I : List Reached → Prop} {action : HookAction}
    (hcall : ∀ now log, P now → I log → I (log ++ [.hook ⟨action, mutation, start, now⟩]))
    (hexternal : Triple P (external S) (fun _ => P) Whatever) :
    Logs I P (onAction S action mutation start) fun _ => P :=
  Logs.bind (Logs.note hcall) fun _ => Logs.on hexternal

theorem beforeHooks_logs {I : List Reached → Prop}
    (hcall : ∀ log run, run.InOrder S.hasher → I log → I (log ++ [.hook run]))
    (hstart : ∀ now, P now → now.history = start.history ∧ now.rewrite = start.rewrite)
    (hexternal : Triple P (external S) (fun _ => P) Whatever) :
    Logs I P (beforeHooks S enabled mutation start) fun _ => P := by
  apply Logs.ite
  · intro _
    refine Logs.bind (onAction_logs ?_ hexternal) fun _ => onAction_logs ?_ hexternal
    · exact fun now log hnow hlog => hcall log _ (hstart now hnow) hlog
    · exact fun now log hnow hlog => hcall log _ (hstart now hnow) hlog
  · exact fun _ => Logs.pure fun _ hs => hs

theorem afterHooks_ordered (hleads : enabled = true → mutation.Leads S.hasher start.history c) :
    Logs (Ordered S) (fun s => (Place.plain none).At c s) (afterHooks S enabled mutation start)
      fun _ s => (Place.plain none).At c s := by
  apply Logs.ite
  · intro henabled
    have horder : ∀ now, (Place.plain none).At c now → now.saved = none ∧ now.rewrite = none ∧
        mutation.Leads S.hasher start.history now.history := by
      rintro now ⟨-, rfl, hrewrite, hsaved⟩
      exact ⟨hsaved, hrewrite, hleads henabled⟩
    have hexternal : Triple (fun s => (Place.plain none).At c s) (external S)
        (fun _ s => (Place.plain none).At c s) Whatever := external_at quiet_whatever
    refine Logs.bind (onAction_logs ?_ hexternal) fun _ => onAction_logs ?_ hexternal
    · exact fun now log hnow hlog => ordered_append hlog (horder now hnow)
    · exact fun now log hnow hlog => ordered_append hlog (horder now hnow)
  · exact fun _ => Logs.pure fun _ hs => hs

end Hooks

/-! ## The commands -/

variable {ctx : Context}

/-- **`apply_migrations` calls its hooks in order.** -/
theorem applyMigrations_ordered {operations : List Operation} {single : Bool} :
    Logs (Ordered S) (fun s => s.Idle c) (applyMigrations S ctx operations single)
      fun _ s => (Place.plain none).At (operations.foldl Operation.result c) s := by
  refine Logs.bind (R := fun start s => s.Idle c ∧ start = s)
    (Logs.on (Triple.get fun s hs => ⟨hs, rfl⟩)) fun start => ?_
  refine Logs.assume (c := start.Idle c) ?_ fun hstart => ?_
  · rintro s ⟨hs, rfl⟩
    exact hs
  refine Logs.conseq (T := fun s => s.Idle c) ?_ (fun s hs => hs.1) fun _ _ hs => hs
  refine Logs.bind (beforeHooks_logs (fun _ _ hrun hlog => ordered_append hlog hrun) ?_
    external_idle) fun _ => ?_
  · exact fun now hnow => ⟨hnow.1.trans hstart.1.symm, hnow.2.1.trans hstart.2.1.symm⟩
  refine Logs.bind (Logs.on inhibit_idle) fun _ => ?_
  refine Logs.bind (Logs.on applyOperations_result) fun _ => ?_
  refine Logs.bind (Logs.note fun _ log _ hlog => ordered_append hlog trivial) fun _ => ?_
  apply afterHooks_ordered
  intro _
  rw [hstart.1]
  rfl

theorem changeSchema_ordered {start : Session} (hstart : start.Idle c) :
    Logs (Ordered S) (fun s => (Place.plain (some c)).At c s) (changeSchema S ctx start)
      fun rv s => ∃ c', (rv = true → Mutation.schema.Leads S.hasher start.history c') ∧
        (Place.plain (some c)).At c' s := by
  refine Logs.bind (Logs.on (populateMigration_at quiet_whatever)) fun migs => ?_
  apply Logs.ite
  · exact fun _ => Logs.pure fun s hs => ⟨c, Bool.noConfusion, hs⟩
  intro _
  refine Logs.bind (beforeHooks_logs (fun _ _ hrun hlog => ordered_append hlog hrun) ?_
    (external_at quiet_whatever)) fun _ => ?_
  · rintro now ⟨-, hhistory, hrewrite, -⟩
    exact ⟨hhistory.trans hstart.1.symm, hrewrite.trans hstart.2.1.symm⟩
  refine Logs.bind (Logs.on (autoBackup_at quiet_whatever)) fun _ => ?_
  refine Logs.bind (Logs.on applyStatements_result) fun _ => Logs.pure ?_
  rintro s ⟨c', hleads, hs⟩
  rw [hstart.1]
  exact ⟨c', fun _ => hleads, hs⟩

/-- A connection that is there, with nothing open. -/
def Settled (s : Session) : Prop := ∃ c, (Place.plain none).At c s

theorem Settled.idle {s : Session} (h : Settled s) : ∃ c, s.Idle c := by
  obtain ⟨c, -, hhistory, hrewrite, hsaved⟩ := h
  exact ⟨c, hhistory, hrewrite, hsaved⟩

/-- **`migrate_to_schema` calls its hooks in order.** -/
theorem migrateToSchema_ordered :
    Logs (Ordered S) (fun s => s.Idle c) (migrateToSchema S ctx) fun _ s => Settled s := by
  refine Logs.bind (R := fun start s => s.Idle c ∧ start = s)
    (Logs.on (Triple.get fun s hs => ⟨hs, rfl⟩)) fun start => ?_
  refine Logs.assume (c := start.Idle c) ?_ fun hstart => ?_
  · rintro s ⟨hs, rfl⟩
    exact hs
  refine Logs.conseq (T := fun s => s.Idle c) ?_ (fun s hs => hs.1) fun _ _ hs => hs
  apply Logs.ite
  · intro hin
    rw [Session.inTransaction, hstart.2.1, hstart.2.2] at hin
    cases hin
  intro _
  refine Logs.bind (Logs.on inhibit_idle) fun _ => ?_
  refine Logs.bind (R := fun rv s => ∃ c',
    (rv = true → Mutation.schema.Leads S.hasher start.history c') ∧
      (Place.plain none).At c' s) ?_ fun rv => ?_
  · refine Logs.withFinally (R := fun rv s => ∃ c',
      (rv = true → Mutation.schema.Leads S.hasher start.history c') ∧
        (Place.plain none).At c' s) ?_ (fun rv => ?_) (Logs.on_any _)
    · refine Logs.bind (Logs.on (startTransaction_at quiet_whatever)) fun _ => ?_
      refine Logs.withUndo (changeSchema_ordered hstart) (fun rv => ?_) (Logs.on_any _)
      apply Logs.of_exists
      intro c'
      refine Logs.assume (fun s hs => hs.1) fun hleads => Logs.on ?_
      refine Triple.conseq (executeIfConnected_triple (commit_at quiet_whatever) ?_)
        (fun s hs => hs.2) fun _ s hs => ⟨c', hleads, hs⟩
      intro s hs hlost
      rw [hs.connected] at hlost
      cases hlost
    · apply Logs.of_exists
      intro c'
      refine Logs.assume (fun s hs => hs.1) fun hleads => Logs.on ?_
      exact (restore_at quiet_whatever).conseq (fun s hs => hs.2)
        fun _ s hs => ⟨c', hleads, hs⟩
  · apply Logs.of_exists
    intro c'
    refine Logs.assume (fun s hs => hs.1) fun hleads => ?_
    refine Logs.bind (Logs.conseq (afterHooks_ordered ?_) (fun s hs => hs.2) fun _ _ hs => hs)
      fun _ => Logs.pure fun s hs => ⟨c', hs⟩
    intro henabled
    have henabled' := (Bool.and_eq_true_iff.mp henabled).1
    exact hleads (Bool.and_eq_true_iff.mp henabled').1

/-- In an open transaction no hook is called. -/
theorem migrateToSchema_inTransaction {I : List Reached → Prop} :
    Logs I InTransaction (migrateToSchema S ctx) fun _ _ => True := by
  refine Logs.bind (R := fun start _ => InTransaction start)
    (Logs.on (Triple.get fun s hs => hs)) fun start => ?_
  apply Logs.ite
  · exact fun _ => Logs.on_any _
  · exact fun hnot => Logs.assume (fun _ hs => hnot hs) False.elim

/-- The rewrite is a transaction, and so the hooks are left to the change before it. -/
theorem rebaseToSchema_silent {migrations : List (String × MigrationFile)} :
    Silent (rebaseToSchema S ctx migrations) := by
  intro I
  refine Logs.bind (R := fun _ => InTransaction) (Logs.on ?_) fun _ => ?_
  · apply execute_triple
    · intro s t _ _ ht
      obtain ⟨-, ht⟩ := Option.ite_none_left_eq_some.mp ht
      cases ht
      exact Bool.or_true _
    · exact fun _ _ _ => trivial
    · exact fun _ _ _ _ => trivial
  refine Logs.withUndo (R := fun _ _ => True) ?_ (fun _ => Logs.on_any _) (Logs.on_any _)
  refine Logs.bind (Logs.on applyFiles_inTransaction) fun _ => ?_
  exact Logs.bind migrateToSchema_inTransaction fun _ => Logs.pure fun _ _ => trivial

theorem applyRest_ordered {migrations : List (String × MigrationFile)} :
    Logs (Ordered S) (fun s => (Place.plain none).At c s) (applyRest S ctx migrations)
      fun _ => Settled := by
  apply Logs.ite
  · exact fun _ => Logs.pure fun s hs => ⟨c, hs⟩
  intro _
  refine Logs.bind (Logs.on (autoBackup_at quiet_whatever)) fun _ => ?_
  exact applyMigrations_ordered.conseq (fun s hs => hs.2) fun _ s hs => ⟨_, hs⟩

theorem migrateInMode_ordered {migrations : List (String × MigrationFile)} {mode : Mode} :
    Logs (Ordered S) (fun s => (Place.plain none).At c s)
      (migrateInMode S ctx migrations mode) fun _ _ => True := by
  cases mode with
  | normal skip =>
      dsimp only [migrateInMode]
      cases getRange skip migrations with
      | none => exact Logs.throw
      | some rest =>
          refine Logs.bind applyRest_ordered fun _ => Logs.of_exists fun c' => ?_
          refine Logs.bind (migrateToSchema_ordered.conseq (fun s hs => hs.2) fun _ _ hs => hs)
            fun _ => Logs.pure fun _ _ => trivial
  | rebase =>
      refine Logs.bind (migrateToSchema_ordered.conseq (fun s hs => hs.2) fun _ _ hs => hs)
        fun _ => Logs.of_exists fun c' => ?_
      exact Logs.bind (Logs.on_any _) fun _ => rebaseToSchema_silent _

/-- **The hooks of a dev-mode migration are called in order.** -/
theorem migrate_ordered {migrations : List (String × MigrationFile)} :
    Logs (Ordered S) (fun s => s.Idle c) (migrate S ctx migrations) fun _ _ => True := by
  refine Logs.bind (R := fun _ s => (Place.plain none).At c s) (Logs.on ?_) fun _ => ?_
  · refine Triple.bind query_idle fun _ => Triple.ite ?_ ?_
    · exact fun _ => Triple.pure fun s hs => hs
    · exact fun _ => Triple.throw fun _ _ => trivial
  refine Logs.bind (Logs.on (external_at quiet_whatever)) fun _ => ?_
  refine Logs.bind (Logs.on (read_keeps (fun _ hs => hs.tick) ?_)) fun dbMigration => ?_
  · exact fun s => Triple.pure fun s hs => hs
  exact Logs.bind (Logs.on (selectMode_keeps fun _ hs => hs.tick)) fun mode =>
    migrateInMode_ordered

/-! ### Migrations and fixups -/

section Apply

variable {cmd : Command} {migrations : List (String × MigrationFile)}
variable {target : Option String}

theorem fixup_ordered {fuel : Nat} {fixups : List MigrationFile} {lastDbRev target : String} :
    Logs (Ordered S) (fun s => (Place.plain none).At c s)
      (fixup S fuel ctx cmd migrations fixups lastDbRev target) fun _ _ => True := by
  refine Logs.bind (Logs.on (external_at quiet_whatever)) fun _ => ?_
  refine Logs.bind (Logs.on (ofExcept_keeps _)) fun path => ?_
  refine Logs.bind (Logs.on (ofExcept_keeps _)) fun operations => ?_
  exact applyMigrations_ordered.conseq (fun s hs => hs.2) fun _ _ _ => trivial

theorem applySlice_ordered {dbMigrations : List String} :
    Logs (Ordered S) (fun s => (Place.plain none).At c s)
      (applySlice S ctx cmd migrations dbMigrations target) fun _ _ => True := by
  unfold applySlice
  rcases slice migrations dbMigrations.getLast? target with _ | _ | ⟨first, rest⟩
  · exact Logs.throw
  · exact Logs.on_any _
  · refine Logs.bind (Logs.on (autoBackup_at quiet_whatever)) fun _ => ?_
    refine Logs.bind (applyMigrations_ordered.conseq (fun s hs => hs.2) fun _ _ hs => hs)
      fun _ => ?_
    exact Logs.bind (Logs.on_any _) fun _ => Logs.on_any _

theorem applyTo_ordered {fuel : Nat} {fixups : List MigrationFile} {dbMigrations : List String} :
    Logs (Ordered S) (fun s => (Place.plain none).At c s)
      (applyTo S fuel ctx cmd migrations fixups dbMigrations target) fun _ _ => True := by
  unfold applyTo
  cases dbMigrations.getLast? with
  | none => exact applySlice_ordered
  | some lastDbRev =>
      cases migrations.getLast? with
      | none => exact Logs.throw
      | some last =>
          apply Logs.ite
          · exact fun _ => applySlice_ordered
          · exact fun _ => Logs.bind (Logs.on (autoBackup_at quiet_whatever)) fun _ =>
              fixup_ordered

/-- **The hooks of `migration apply` are called in order.** -/
theorem runInner_ordered {like : String → String → Bool} {fuel : Nat}
    {fixups : List MigrationFile} :
    Logs (Ordered S) (fun s => s.Idle c) (runInner S like fuel ctx cmd migrations fixups)
      fun _ _ => True := by
  refine Logs.bind (Logs.on external_idle) fun _ => ?_
  refine Logs.bind (Logs.on query_idle) fun _ => ?_
  refine Logs.bind (R := fun _ s => (Place.plain none).At c s)
    (Logs.on (Triple.get fun s hs => hs)) fun s => ?_
  refine Logs.bind (Logs.on (targetRev_keeps fun _ hs => hs.tick)) fun rev => ?_
  cases rev with
  | applied => exact Logs.pure fun _ _ => trivial
  | toApply target => exact Logs.bind applyTo_ordered fun _ => Logs.pure fun _ _ => trivial

end Apply

end Hooked

end GelCli.Migrations
