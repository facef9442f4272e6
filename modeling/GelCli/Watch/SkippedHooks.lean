import GelCli.Foundation.Transition
import GelCli.Migrations.HookSkips
import GelCli.Migrations.HookTransaction
import GelCli.Project.ConfigApply

/-!
# The hooks of `migration apply` and of the watch mode

A run is a sequence of commands with one setting of `--skip-hooks`: `migration apply` with
and without `--dev-mode`, the two tasks of the watch mode, and whatever others do to the
database and the configuration in between. Every turn has the files as it finds them.

The sync task passes `false` for `skip_hooks`, whatever the option says.
-/

namespace GelCli.Watch

namespace SkippedHooks

open GelCli.Foundation GelCli.Foundation.Logged GelCli.Migrations
open GelCli.Project (ConfigApply.Configured ConfigApply.ConfigHook ConfigApply.LocalConfig)

/-! ## Runs -/

/-- The server, how it compares names with a prefix, a bound on the path search, and what
fails while the configuration is applied. -/
structure Setting where
  server : Server
  like : String → String → Bool
  fuel : Nat
  faults : Project.ConfigApply.Faults
  skipHooks : Bool

/-- The connection of the migrations and the configuration, each with its log of hooks. -/
structure World where
  connection : Logged Session Reached
  configuration : Logged ConfigApply.Configured ConfigApply.ConfigHook

/-- Nothing is logged yet. -/
def World.New (w : World) : Prop := w.connection.log = [] ∧ w.configuration.log = []

inductive Turn where
  /-- `migration apply` on the connection as it is: the command line opens one, the
  interactive shell has one. -/
  | apply (project quiet autoBackup : Bool) (cmd : Migrations.Command)
      (migrations : List (String × MigrationFile)) (fixups : List MigrationFile)
  | applyDevMode (project quiet autoBackup : Bool) (migrations : List (String × MigrationFile))
  /-- `migration_apply_dev_mode` of the watch mode, over a new connection. -/
  | watchMigrate (autoBackup : Bool) (migrations : List (String × MigrationFile))
  /-- A turn of the sync task of `start_executors`. -/
  | watchSync (localConfig : ConfigApply.LocalConfig)
  /-- Whatever else happens to the two, by the scripts of the watch mode, a statement in the
  interactive shell or another client. -/
  | elsewhere (session : Session) (configured : ConfigApply.Configured)

variable (setting : Setting)

def World.apply (w : World) (ctx : Context) (cmd : Migrations.Command)
    (migrations : List (String × MigrationFile)) (fixups : List MigrationFile) : World :=
  { w with
    connection := w.connection.after
      (Hooked.runInner setting.server setting.like setting.fuel ctx cmd migrations fixups) }

def World.migrate (w : World) (ctx : Context) (migrations : List (String × MigrationFile)) :
    World :=
  { w with connection := w.connection.after (Hooked.migrate setting.server ctx migrations) }

def World.reconnect (w : World) : World :=
  { w with connection := { w.connection with state := w.connection.state.reconnect } }

/-- `project::config::apply(&project, true, false)`. -/
def World.sync (w : World) (localConfig : ConfigApply.LocalConfig) : World :=
  let fresh := { w.configuration with state := w.configuration.state.rollback }
  { w with
    configuration := fresh.after
      (Project.ConfigApply.apply setting.faults false localConfig) }

def World.elsewhere (w : World) (session : Session) (configured : ConfigApply.Configured) :
    World where
  connection := { w.connection with state := session }
  configuration := { w.configuration with state := configured }

def World.step (w : World) : Turn → World
  | .apply project quiet autoBackup cmd migrations fixups =>
      w.apply setting ⟨setting.skipHooks, project, quiet, autoBackup⟩ cmd migrations fixups
  | .applyDevMode project quiet autoBackup migrations =>
      w.migrate setting ⟨setting.skipHooks, project, quiet, autoBackup⟩ migrations
  | .watchMigrate autoBackup migrations =>
      w.reconnect.migrate setting ⟨setting.skipHooks, true, false, autoBackup⟩ migrations
  | .watchSync localConfig => w.sync setting localConfig
  | .elsewhere session configured => w.elsewhere session configured

def system : System World Turn where
  Initial := World.New
  next w turn := some (w.step setting turn)

/-! ## What is promised -/

/-- No hook was called. -/
def World.NoHook (w : World) : Prop :=
  (∀ r ∈ w.connection.log, r.isHook = false) ∧ w.configuration.log = []

/-- Every hook was called before its mutation, or after it was committed. -/
def World.InOrder (H : Hasher) (w : World) : Prop :=
  (∀ r ∈ w.connection.log, r.InOrder H) ∧ ∀ r ∈ w.configuration.log, r.InOrder

def Lawful (w : World) : Prop :=
  if setting.skipHooks then w.NoHook else w.InOrder setting.server.hasher

/-! ## When it is kept -/

/-- The command gets `apply_migrations` to its end. -/
def Applies {α : Type} (x : HookedRun α) (s : Session) : Prop :=
  .applied ∈ (left (x ⟨s, []⟩)).log

/-- With the hooks skipped: no command of a project does what would take `apply_migrations`
to its end outside of one, and the sync task has no turn. -/
def Spared (w : World) : Turn → Prop
  | .apply project quiet autoBackup cmd migrations fixups => project = true →
      ¬ Applies (Hooked.runInner setting.server setting.like setting.fuel
        ⟨true, false, quiet, autoBackup⟩ cmd migrations fixups) w.connection.state
  | .applyDevMode project quiet autoBackup migrations => project = true →
      ¬ Applies (Hooked.migrate setting.server ⟨true, false, quiet, autoBackup⟩ migrations)
        w.connection.state
  | .watchMigrate autoBackup migrations =>
      ¬ Applies (Hooked.migrate setting.server ⟨true, false, false, autoBackup⟩ migrations)
        w.connection.state.reconnect
  | .watchSync _ => False
  | .elsewhere _ _ => True

/-- Without the option: no command of a project takes `apply_migrations` to its end in a
transaction that the interactive shell has open. -/
def Timely (w : World) : Turn → Prop
  | .apply project quiet autoBackup cmd migrations fixups =>
      project = true → w.connection.state.inTransaction = true →
        ¬ Applies (Hooked.runInner setting.server setting.like setting.fuel
          ⟨false, true, quiet, autoBackup⟩ cmd migrations fixups) w.connection.state
  | .applyDevMode project quiet autoBackup migrations =>
      project = true → w.connection.state.inTransaction = true →
        ¬ Applies (Hooked.migrate setting.server ⟨false, true, quiet, autoBackup⟩ migrations)
          w.connection.state
  | .watchMigrate _ _ | .watchSync _ | .elsewhere _ _ => True

def Harmless (w : World) (turn : Turn) : Prop :=
  if setting.skipHooks then Spared setting w turn else Timely setting w turn

variable {setting}

/-! ## One turn -/

/-- Outside of a project nothing but the end of `apply_migrations` is logged. -/
theorem not_applies_iff {α : Type} {x : HookedRun α} {s : Session}
    (hx : Logs Hooked.Unhooked (fun _ => True) x fun _ _ => True) :
    ¬ Applies x s ↔ (left (x ⟨s, []⟩)).log = [] := by
  have hunhooked : Hooked.Unhooked (left (x ⟨s, []⟩)).log :=
    hx.log_left (w := ⟨s, []⟩) trivial fun _ hr => absurd hr List.not_mem_nil
  unfold Applies
  rcases hlog : (left (x ⟨s, []⟩)).log with _ | ⟨r, log⟩
  · exact iff_of_true List.not_mem_nil rfl
  · rw [hlog] at hunhooked
    have hr := hunhooked r List.mem_cons_self
    cases r with
    | hook run => cases hr
    | applied => exact iff_of_false (fun hnot => hnot List.mem_cons_self) (List.cons_ne_nil _ _)

/-- The command with a project against the one without. -/
theorem noHook_after_iff {α : Type} {x y : HookedRun α} {w : Logged Session Reached}
    (hdeparts : Departs (·.isHook = true) x y)
    (hy : Logs Hooked.Unhooked (fun _ => True) y fun _ _ => True)
    (hw : ∀ r ∈ w.log, r.isHook = false) :
    (∀ r ∈ (w.after x).log, r.isHook = false) ↔ ¬ Applies y w.state := by
  have hiff := hdeparts.forall_not_iff w.state (by simpa using hy.forall_left trivial)
  rw [forall_after_iff hw, not_applies_iff hy, ← hiff]
  simp only [Bool.not_eq_true]

/-- In an open transaction it is the end of `apply_migrations` that matters. -/
theorem inOrder_after_iff {α : Type} {S : Server} {x : HookedRun α} {w : Logged Session Reached}
    (hordered : ∀ c, Logs (Hooked.Ordered S) (fun s => s.Idle c) x fun _ _ => True)
    (hpremature : Logs (Hooked.Premature S.hasher) Hooked.InTransaction x fun _ _ => True)
    (hw : ∀ r ∈ w.log, r.InOrder S.hasher) :
    (∀ r ∈ (w.after x).log, r.InOrder S.hasher) ↔
      (w.state.inTransaction = true → ¬ Applies x w.state) := by
  rw [forall_after_iff hw]
  cases hin : w.state.inTransaction with
  | false =>
      refine iff_of_true ?_ fun h => Bool.noConfusion h
      exact (hordered _).forall_left (Session.idle_of_not_inTransaction hin)
  | true =>
      rw [imp_iff_right rfl]
      exact (hpremature.log_left (w := ⟨w.state, []⟩) hin .nil).forall_inOrder_iff

/-- A log without hooks is in order. -/
theorem inOrder_of_unhooked {log : List Reached} {H : Hasher} (h : Hooked.Unhooked log) :
    ∀ r ∈ log, r.InOrder H := by
  intro r hr
  have hhook := h r hr
  cases r with
  | hook run => cases hhook
  | applied => exact trivial

section Step

variable {w : World} {cmd : Migrations.Command} {migrations : List (String × MigrationFile)}
variable {fixups : List MigrationFile} {project quiet autoBackup : Bool}

theorem noHook_apply_iff (hw : w.NoHook) :
    (w.apply setting ⟨true, project, quiet, autoBackup⟩ cmd migrations fixups).NoHook ↔
      (project = true → ¬ Applies (Hooked.runInner setting.server setting.like setting.fuel
        ⟨true, false, quiet, autoBackup⟩ cmd migrations fixups) w.connection.state) := by
  unfold World.NoHook World.apply
  rw [and_iff_left hw.2]
  cases project with
  | false =>
      refine iff_of_true ?_ fun h => Bool.noConfusion h
      exact (forall_after_iff hw.1).mpr ((Hooked.runInner_unhooked rfl).forall_left trivial)
  | true =>
      rw [imp_iff_right rfl]
      exact noHook_after_iff (Hooked.runInner_departs rfl rfl) (Hooked.runInner_unhooked rfl) hw.1

theorem noHook_migrate_iff (hw : w.NoHook) :
    (w.migrate setting ⟨true, project, quiet, autoBackup⟩ migrations).NoHook ↔
      (project = true → ¬ Applies (Hooked.migrate setting.server
        ⟨true, false, quiet, autoBackup⟩ migrations) w.connection.state) := by
  unfold World.NoHook World.migrate
  rw [and_iff_left hw.2]
  cases project with
  | false =>
      refine iff_of_true ?_ fun h => Bool.noConfusion h
      exact (forall_after_iff hw.1).mpr ((Hooked.migrate_unhooked rfl).forall_left trivial)
  | true =>
      rw [imp_iff_right rfl]
      exact noHook_after_iff (Hooked.migrate_departs rfl rfl) (Hooked.migrate_unhooked rfl) hw.1

/-- The sync task calls its first hook whatever the option says. -/
theorem not_noHook_sync (localConfig : ConfigApply.LocalConfig) :
    ¬ (w.sync setting localConfig).NoHook := by
  rintro ⟨-, hlog⟩
  exact Project.ConfigApply.apply_called _ (List.append_eq_nil_iff.mp hlog).2

/-- **One turn with the hooks skipped.** -/
theorem noHook_step_iff (hskip : setting.skipHooks = true) (hw : w.NoHook) (turn : Turn) :
    (w.step setting turn).NoHook ↔ Spared setting w turn := by
  cases turn with
  | apply project quiet autoBackup cmd migrations fixups =>
      dsimp only [World.step]
      rw [hskip]
      exact noHook_apply_iff hw
  | applyDevMode project quiet autoBackup migrations =>
      dsimp only [World.step]
      rw [hskip]
      exact noHook_migrate_iff hw
  | watchMigrate autoBackup migrations =>
      dsimp only [World.step]
      have hreconnect : w.reconnect.NoHook := hw
      rw [hskip, noHook_migrate_iff hreconnect, imp_iff_right rfl]
      exact Iff.rfl
  | watchSync localConfig => exact iff_of_false (not_noHook_sync localConfig) not_false
  | elsewhere session configured => exact iff_of_true hw trivial

theorem inOrder_apply_iff (hw : w.InOrder setting.server.hasher) :
    (w.apply setting ⟨false, project, quiet, autoBackup⟩ cmd migrations fixups).InOrder
        setting.server.hasher ↔
      (project = true → w.connection.state.inTransaction = true →
        ¬ Applies (Hooked.runInner setting.server setting.like setting.fuel
          ⟨false, true, quiet, autoBackup⟩ cmd migrations fixups) w.connection.state) := by
  unfold World.InOrder World.apply
  rw [and_iff_left hw.2]
  cases project with
  | false =>
      refine iff_of_true ?_ fun h => Bool.noConfusion h
      exact (forall_after_iff hw.1).mpr
        (inOrder_of_unhooked ((Hooked.runInner_unhooked rfl).forall_left trivial))
  | true =>
      rw [imp_iff_right rfl]
      exact inOrder_after_iff (fun _ => Hooked.runInner_ordered) (Hooked.runInner_premature rfl)
        hw.1

theorem inOrder_migrate_iff (hw : w.InOrder setting.server.hasher) :
    (w.migrate setting ⟨false, project, quiet, autoBackup⟩ migrations).InOrder
        setting.server.hasher ↔
      (project = true → w.connection.state.inTransaction = true →
        ¬ Applies (Hooked.migrate setting.server ⟨false, true, quiet, autoBackup⟩ migrations)
          w.connection.state) := by
  unfold World.InOrder World.migrate
  rw [and_iff_left hw.2]
  cases project with
  | false =>
      refine iff_of_true ?_ fun h => Bool.noConfusion h
      exact (forall_after_iff hw.1).mpr
        (inOrder_of_unhooked ((Hooked.migrate_unhooked rfl).forall_left trivial))
  | true =>
      rw [imp_iff_right rfl]
      exact inOrder_after_iff (fun _ => Hooked.migrate_ordered) (Hooked.migrate_premature rfl)
        hw.1

/-- **One turn with the hooks called.** -/
theorem inOrder_step_iff (hskip : setting.skipHooks = false)
    (hw : w.InOrder setting.server.hasher) (turn : Turn) :
    (w.step setting turn).InOrder setting.server.hasher ↔ Timely setting w turn := by
  cases turn with
  | apply project quiet autoBackup cmd migrations fixups =>
      dsimp only [World.step]
      rw [hskip]
      exact inOrder_apply_iff hw
  | applyDevMode project quiet autoBackup migrations =>
      dsimp only [World.step]
      rw [hskip]
      exact inOrder_migrate_iff hw
  | watchMigrate autoBackup migrations =>
      dsimp only [World.step]
      have hreconnect : w.reconnect.InOrder setting.server.hasher := hw
      rw [hskip, inOrder_migrate_iff hreconnect]
      -- the connection is a new one
      exact iff_of_true (fun _ h => Bool.noConfusion h) trivial
  | watchSync localConfig =>
      refine iff_of_true ⟨hw.1, ?_⟩ trivial
      exact (forall_after_iff (w := ⟨w.configuration.state.rollback, w.configuration.log⟩)
        hw.2).mpr (Project.ConfigApply.apply_ordered.forall_left rfl)
  | elsewhere session configured => exact iff_of_true hw trivial

end Step

/-! ## Whole runs -/

theorem World.New.lawful {w : World} (h : w.New) : Lawful setting w := by
  obtain ⟨hconnection, hconfiguration⟩ := h
  unfold Lawful
  cases setting.skipHooks with
  | true =>
      refine ⟨fun r hr => ?_, hconfiguration⟩
      rw [hconnection] at hr
      exact absurd hr List.not_mem_nil
  | false =>
      refine ⟨fun r hr => ?_, fun r hr => ?_⟩
      · rw [hconnection] at hr
        exact absurd hr List.not_mem_nil
      · rw [hconfiguration] at hr
        exact absurd hr List.not_mem_nil

theorem lawful_step_iff {w : World} (hw : Lawful setting w) (turn : Turn) :
    Lawful setting (w.step setting turn) ↔ Harmless setting w turn := by
  unfold Lawful at hw ⊢
  unfold Harmless
  by_cases hskip : setting.skipHooks = true
  · rw [if_pos hskip] at hw
    rw [if_pos hskip, if_pos hskip]
    exact noHook_step_iff hskip hw turn
  · rw [if_neg hskip] at hw
    rw [if_neg hskip, if_neg hskip]
    exact inOrder_step_iff (Bool.not_eq_true _ ▸ hskip) hw turn

section Sample

/-- Nothing fails, and no schema needs a dev-mode migration. -/
def calmServer : Server where
  hasher := spellingHasher
  fault _ := .none
  schemaDiff _ := []
  devModeSupported := true

def calm (skipHooks : Bool) : Setting := ⟨calmServer, (· == ·), 5, fun _ => .none, skipHooks⟩

/-- An empty database. -/
def fresh : World := ⟨⟨.fresh [] 0, []⟩, ⟨⟨[], [], none, 0⟩, []⟩⟩

theorem fresh_new : fresh.New := ⟨rfl, rfl⟩

/-- `migration apply` in a project with one migration that the database lacks. -/
def applyOne : Turn := .apply true true false ⟨none, true, false⟩ [sampleFile "initial" "a"] []

/-- A configuration with one statement for the branch. -/
def syncOne : Turn := .watchSync (.valid (some ⟨["set cfg::x := 1"], []⟩) none)

end Sample

end SkippedHooks

end GelCli.Watch
