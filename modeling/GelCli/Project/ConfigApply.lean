import GelCli.Foundation.Logged
import GelCli.Migrations.Server

/-!
# Applying the local configuration

`apply` of `src/project/config/mod.rs`: the statements for the branch go in one
transaction, those for the instance one by one, with the `config.update` hooks around
them. The calls of `hooks::on_action` are in the log.

What `validate` of the `gel_config` crate makes of `gel.local.toml` is given.
-/

namespace GelCli.Project

namespace ConfigApply

open GelCli.Foundation GelCli.Foundation.Logged

/-! ## The configuration of the server -/

/-- The `configure` statements that are in effect; `saved` are those of the branch at the
start of an open transaction. -/
structure Configured where
  branch : List String
  instanceWide : List String
  saved : Option (List String)
  clock : Nat
deriving DecidableEq, Repr

namespace Configured

def tick (s : Configured) : Configured := { s with clock := s.clock + 1 }

/-- What is left of an open transaction when its connection goes. -/
def rollback (s : Configured) : Configured :=
  { s with branch := s.saved.getD s.branch, saved := none }

end Configured

/-- The `Commands` of `gel_config`, each statement as the query it is compiled to. An
insert has the object that it resets first. -/
structure Commands where
  set : List String
  insert : List (String × List String)
deriving DecidableEq, Repr

/-- The queries of `configure`. -/
def Commands.queries (commands : Commands) : List String :=
  commands.set ++ commands.insert.flatMap fun insert => ("reset " ++ insert.1) :: insert.2

/-- `gel.local.toml`, the two tables as `validate_scoped_config` returns them. -/
inductive LocalConfig where
  | absent
  | invalid
  | valid (branch instanceWide : Option Commands)
deriving DecidableEq, Repr

inductive ConfigError where
  | external
  | invalid
  | failed (query : String)
deriving DecidableEq, Repr

/-! ## The log -/

inductive ConfigHook where
  | updateBefore (start now : Configured)
  | updateAfter (branch instanceWide : Option Commands) (start now : Configured)
deriving DecidableEq, Repr

/-- Before the update nothing has changed; after it, its statements are committed. -/
def ConfigHook.InOrder : ConfigHook → Prop
  | updateBefore start now => now.branch = start.branch ∧ now.instanceWide = start.instanceWide
  | updateAfter branch instanceWide start now =>
      now.saved = none ∧
        now.branch = start.branch ++ (branch.map Commands.queries).getD [] ∧
        now.instanceWide = start.instanceWide ++ (instanceWide.map Commands.queries).getD []

abbrev ConfigRun := EStateM ConfigError Configured

abbrev HookedConfigRun := EStateM ConfigError (Logged Configured ConfigHook)

/-! ## Applying -/

/-- What happens at each time. -/
abbrev Faults := Nat → Migrations.Fault

def effect : Migrations.Fault → Option (Configured → Configured)
  | .none => none
  | .error => some Configured.tick
  | .disconnect => some fun s => s.tick.rollback

variable (faults : Faults)

def execute (query : String) (f : Configured → Option Configured) : ConfigRun Unit := do
  let s ← get
  attempt (.failed query) (effect (faults s.clock)) fun s => (f s).map Configured.tick

/-- A hook, the file system, the connecting. -/
def external : ConfigRun Unit := do
  let s ← get
  attempt .external (effect (faults s.clock)) fun s => some s.tick

inductive CfgScope where
  | branch
  | instanceWide
deriving DecidableEq, Repr

def CfgScope.put (query : String) (s : Configured) : CfgScope → Configured
  | branch => { s with branch := s.branch ++ [query] }
  | instanceWide => { s with instanceWide := s.instanceWide ++ [query] }

def configure (scope : CfgScope) : List String → ConfigRun Unit
  | [] => pure ()
  | query :: queries => do
      execute faults query fun s => some (scope.put query s)
      configure scope queries

def startTransaction : ConfigRun Unit :=
  execute faults "START TRANSACTION;" fun s =>
    if s.saved.isSome then none else some { s with saved := some s.branch }

def commit : ConfigRun Unit :=
  execute faults "COMMIT;" fun s => s.saved.map fun _ => { s with saved := none }

def configureBranch : Option Commands → ConfigRun Unit
  | none => pure ()
  | some commands => do
      startTransaction faults
      configure faults .branch commands.queries
      commit faults

def configureInstance : Option Commands → ConfigRun Unit
  | none => pure ()
  | some commands => configure faults .instanceWide commands.queries

def onAction (hook : Configured → ConfigHook) : HookedConfigRun Unit := do
  note hook
  on (external faults)

def configUpdateBefore (skipHooks : Bool) (start : Configured) : HookedConfigRun Unit :=
  if skipHooks then pure () else onAction faults (.updateBefore start)

def configUpdateAfter (skipHooks : Bool) (branch instanceWide : Option Commands)
    (start : Configured) : HookedConfigRun Unit :=
  if skipHooks then pure () else onAction faults (.updateAfter branch instanceWide start)

/-- The part of `apply` after the first hook; the connection is dropped at its end. -/
def applyConfig (skipHooks : Bool) (start : Configured) : LocalConfig → HookedConfigRun Bool
  | .absent => do
      on (external faults)
      on (external faults)
      pure false
  | .invalid => do
      on (external faults)
      on (external faults)
      throw .invalid
  | .valid branch instanceWide => do
      on (external faults)
      on (external faults)
      if branch.isNone && instanceWide.isNone then pure false
      else do
        on (external faults)
        withFinally
          (do
            on (configureBranch faults branch)
            on (configureInstance faults instanceWide)
            configUpdateAfter faults skipHooks branch instanceWide start)
          (on (modify Configured.rollback))
        pure true

def apply (skipHooks : Bool) (localConfig : LocalConfig) : HookedConfigRun Bool := do
  let start ← on get
  configUpdateBefore faults skipHooks start
  applyConfig faults skipHooks start localConfig

/-! ## The hooks of an update -/

variable {faults}

/-- The statements that are in effect. -/
def At (branch instanceWide : List String) (saved : Option (List String)) (s : Configured) :
    Prop :=
  s.branch = branch ∧ s.instanceWide = instanceWide ∧ s.saved = saved

abbrev Whatever (_ : ConfigError) (_ : Configured) : Prop := True

section Rules

variable {P Q : Configured → Prop} {query : String} {f : Configured → Option Configured}

theorem execute_result (h : ∀ s t, P s → f s = some t → Q t.tick) :
    Triple P (execute faults query f) (fun _ => Q) Whatever := by
  refine Triple.bind (R := fun _ => P) (Triple.get fun s hs => hs) fun s => ?_
  apply Triple.attempt
  · intro t u ht hu
    obtain ⟨v, hv, rfl⟩ := Option.map_eq_some_iff.mp hu
    exact h t v ht hv
  · exact fun _ _ _ => trivial
  · exact fun _ _ _ _ => trivial

theorem external_result (h : ∀ s, P s → P s.tick) :
    Triple P (external faults) (fun _ => P) Whatever := by
  refine Triple.bind (R := fun _ => P) (Triple.get fun s hs => hs) fun s => ?_
  apply Triple.attempt
  · rintro t _ ht ⟨⟩
    exact h t ht
  · exact fun _ _ _ => trivial
  · exact fun _ _ _ _ => trivial

end Rules

/-- The queries one by one, `P` telling what is there after the first of them. -/
theorem configure_triple {scope : CfgScope} {P : List String → Configured → Prop}
    {done queries : List String}
    (hput : ∀ done query s, P done s → P (done ++ [query]) (scope.put query s).tick) :
    Triple (P done) (configure faults scope queries) (fun _ => P (done ++ queries))
      Whatever := by
  induction queries generalizing done with
  | nil =>
      apply Triple.pure
      intro s hs
      rw [List.append_nil]
      exact hs
  | cons query queries ih =>
      refine Triple.bind (R := fun _ => P (done ++ [query])) ?_ fun _ => ?_
      · apply execute_result
        rintro s _ hs ⟨⟩
        exact hput done query s hs
      · have htail := @ih (done ++ [query])
        rw [List.append_assoc] at htail
        exact htail

section Scopes

variable {b i : List String}

theorem configureBranch_result {branch : Option Commands} :
    Triple (At b i none) (configureBranch faults branch)
      (fun _ => At (b ++ (branch.map Commands.queries).getD []) i none) Whatever := by
  cases branch with
  | none =>
      apply Triple.pure
      rintro s ⟨rfl, rfl, hsaved⟩
      exact ⟨(List.append_nil _).symm, rfl, hsaved⟩
  | some commands =>
      refine Triple.bind (R := fun _ => At b i (some b)) ?_ fun _ => ?_
      · apply execute_result
        rintro s t ⟨rfl, rfl, hsaved⟩ ht
        obtain ⟨-, ht⟩ := Option.ite_none_left_eq_some.mp ht
        cases ht
        exact ⟨rfl, rfl, rfl⟩
      refine Triple.bind (R := fun _ => At (b ++ commands.queries) i (some b)) ?_ fun _ => ?_
      · refine (@configure_triple faults .branch (fun done => At (b ++ done) i (some b)) []
          commands.queries ?_).conseq ?_ fun _ _ hs => hs
        · rintro done query s ⟨hbranch, rfl, hsaved⟩
          refine ⟨?_, rfl, hsaved⟩
          show s.branch ++ [query] = b ++ (done ++ [query])
          rw [hbranch, List.append_assoc]
        · rintro s ⟨rfl, hs⟩
          exact ⟨(List.append_nil _).symm, hs⟩
      · apply execute_result
        rintro s t ⟨hbranch, hinstance, hsaved⟩ ht
        rw [hsaved] at ht
        cases ht
        exact ⟨hbranch, hinstance, rfl⟩

theorem configureInstance_result {instanceWide : Option Commands} :
    Triple (At b i none) (configureInstance faults instanceWide)
      (fun _ => At b (i ++ (instanceWide.map Commands.queries).getD []) none) Whatever := by
  cases instanceWide with
  | none =>
      apply Triple.pure
      rintro s ⟨rfl, rfl, hsaved⟩
      exact ⟨rfl, (List.append_nil _).symm, hsaved⟩
  | some commands =>
      refine (@configure_triple faults .instanceWide (fun done => At b (i ++ done) none) []
        commands.queries ?_).conseq ?_ fun _ _ hs => hs
      · rintro done query s ⟨rfl, hinstance, hsaved⟩
        refine ⟨rfl, ?_, hsaved⟩
        show s.instanceWide ++ [query] = i ++ (done ++ [query])
        rw [hinstance, List.append_assoc]
      · rintro s ⟨rfl, rfl, hsaved⟩
        exact ⟨rfl, (List.append_nil _).symm, hsaved⟩

end Scopes

/-- The log holds calls in order only. -/
abbrev Ordered (log : List ConfigHook) : Prop := ∀ r ∈ log, r.InOrder

theorem onAction_ordered {P : Configured → Prop} {hook : Configured → ConfigHook}
    (horder : ∀ now, P now → (hook now).InOrder) (htick : ∀ s, P s → P s.tick) :
    Logs Ordered P (onAction faults hook) fun _ => P := by
  refine Logs.bind (Logs.note fun now log hnow hlog r hr => ?_) fun _ =>
    Logs.on (external_result htick)
  rcases List.mem_append.mp hr with hr | hr
  · exact hlog r hr
  · obtain rfl := List.mem_singleton.mp hr
    exact horder now hnow

variable {skipHooks : Bool} {localConfig : LocalConfig}

theorem applyConfig_ordered {start : Configured} :
    Logs Ordered (At start.branch start.instanceWide none)
      (applyConfig faults skipHooks start localConfig) fun _ _ => True := by
  have hexternal : Triple (At start.branch start.instanceWide none) (external faults)
      (fun _ => At start.branch start.instanceWide none) Whatever :=
    external_result fun _ hs => hs
  cases localConfig with
  | absent =>
      exact Logs.bind (Logs.on_any _) fun _ => Logs.bind (Logs.on_any _) fun _ =>
        Logs.pure fun _ _ => trivial
  | invalid =>
      exact Logs.bind (Logs.on_any _) fun _ => Logs.bind (Logs.on_any _) fun _ => Logs.throw
  | valid branch instanceWide =>
      refine Logs.bind (Logs.on hexternal) fun _ => Logs.bind (Logs.on hexternal) fun _ => ?_
      apply Logs.ite
      · exact fun _ => Logs.pure fun _ _ => trivial
      intro _
      refine Logs.bind (Logs.on hexternal) fun _ => ?_
      refine Logs.bind (R := fun _ _ => True) ?_ fun _ => Logs.pure fun _ _ => trivial
      refine Logs.withFinally (R := fun _ _ => True) ?_ (fun _ => Logs.on_any _) (Logs.on_any _)
      refine Logs.bind (Logs.on configureBranch_result) fun _ => ?_
      refine Logs.bind (Logs.on configureInstance_result) fun _ => ?_
      apply Logs.ite
      · exact fun _ => Logs.pure fun _ _ => trivial
      · intro _
        refine (onAction_ordered ?_ fun _ hs => hs).conseq (fun _ hs => hs) fun _ _ _ => trivial
        rintro now ⟨hbranch, hinstance, hsaved⟩
        exact ⟨hsaved, hbranch, hinstance⟩

/-- **The hooks of an update are called in order.** -/
theorem apply_ordered :
    Logs Ordered (fun s => s.saved = none) (apply faults skipHooks localConfig)
      fun _ _ => True := by
  refine Logs.bind (R := fun start => At start.branch start.instanceWide none)
    (Logs.on (Triple.get fun s hs => ⟨rfl, rfl, hs⟩)) fun start => ?_
  refine Logs.bind (R := fun _ => At start.branch start.instanceWide none) ?_ fun _ =>
    applyConfig_ordered
  apply Logs.ite
  · exact fun _ => Logs.pure fun s hs => hs
  · exact fun _ => onAction_ordered (fun now hnow => ⟨hnow.1, hnow.2.1⟩) fun _ hs => hs

/-- A log that a further call does not spoil. -/
theorem applyConfig_logs {I : List ConfigHook → Prop} {start : Configured}
    (hcall : skipHooks = false → ∀ log r, I log → I (log ++ [r])) :
    Logs I (fun _ => True) (applyConfig faults skipHooks start localConfig) fun _ _ => True := by
  cases localConfig with
  | absent =>
      exact Logs.bind (Logs.on_any _) fun _ => Logs.bind (Logs.on_any _) fun _ =>
        Logs.pure fun _ _ => trivial
  | invalid =>
      exact Logs.bind (Logs.on_any _) fun _ => Logs.bind (Logs.on_any _) fun _ => Logs.throw
  | valid branch instanceWide =>
      refine Logs.bind (Logs.on_any _) fun _ => Logs.bind (Logs.on_any _) fun _ => ?_
      apply Logs.ite
      · exact fun _ => Logs.pure fun _ _ => trivial
      intro _
      refine Logs.bind (Logs.on_any _) fun _ => ?_
      refine Logs.bind (R := fun _ _ => True) ?_ fun _ => Logs.pure fun _ _ => trivial
      refine Logs.withFinally (R := fun _ _ => True) ?_ (fun _ => Logs.on_any _) (Logs.on_any _)
      refine Logs.bind (Logs.on_any _) fun _ => Logs.bind (Logs.on_any _) fun _ => ?_
      apply Logs.ite
      · exact fun _ => Logs.pure fun _ _ => trivial
      · intro hskip
        have hcall := hcall (Bool.not_eq_true _ ▸ hskip)
        exact Logs.bind (Logs.note fun _ log _ hlog => hcall log _ hlog) fun _ => Logs.on_any _

/-- With the hooks skipped none is called. -/
theorem apply_silent : Silent (apply faults true localConfig) := by
  intro I
  refine Logs.bind (Logs.on_any _) fun start => ?_
  refine Logs.bind (Silent.pure () I) fun _ => ?_
  exact applyConfig_logs Bool.noConfusion

/-- **Otherwise a hook is called before anything else.** -/
theorem apply_called (s : Configured) :
    (left (apply faults false localConfig ⟨s, []⟩)).log ≠ [] := by
  have hcalled : Logs (· ≠ []) (fun _ => True)
      (on (external faults) >>= fun _ => applyConfig faults false s localConfig)
      fun _ _ => True := by
    refine Logs.bind (Logs.on_any _) fun _ => applyConfig_logs fun _ log r _ => ?_
    exact List.append_ne_nil_of_right_ne_nil _ (List.cons_ne_nil _ _)
  exact hcalled.log_left (w := ⟨s, [.updateBefore s s]⟩) trivial (List.cons_ne_nil _ _)

end ConfigApply

end GelCli.Project
