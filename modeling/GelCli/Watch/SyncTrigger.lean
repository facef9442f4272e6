import GelCli.Watch.EnableExtension
import GelCli.Watch.ExecutionOrder

/-!
# The sync trigger of the watch mode

`watch --migrate --sync` runs two tasks next to the file watcher. The sync task applies the
configuration; when that fails for a missing extension, it enables the extension in the
schema and sets a flag. The migrator migrates to the schema and swaps the flag; when it
was set, it sends the sync task an order to apply the configuration again.

The flag says that an apply is due, not for which extension. A migration that was read
too early or that failed uses it up, and one that is quick enough finds it unset.
-/

namespace GelCli.Watch

namespace SyncTrigger

open GelCli.Foundation

/-! ## The tasks -/

/-- Where the loop of the sync task stands. -/
inductive SyncTask where
  /-- Inside of `project::config::apply`. -/
  | applying
  | failed (err : ApplyError)
  /-- The schema file is written, and the flag is to be set. -/
  | enabled (name : Text)
  | receiving (call : Recv)
  | stopped

/-- Where `Migrator::run` stands. The look at the git branch only delays a migration. -/
inductive Migrator where
  /-- Inside of `migration_apply_dev_mode`, before the schema is read. -/
  | migrating
  | read (extensionsGel : Option Text)
  /-- `migration_apply_dev_mode` has returned `Ok`. -/
  | triggering
  /-- The flag was set. -/
  | sending
  | receiving (call : Recv)
  | stopped

inductive Watcher where
  | watching
  /-- The loop has ended and the sender of the migrator is dropped. -/
  | aborted
  | closed

def Migrator.senders : Migrator → Nat
  | .stopped => 0
  | .migrating | .read _ | .triggering | .sending | .receiving _ => 1

def Watcher.senders : Watcher → Nat
  | .closed => 0
  | .watching | .aborted => 1

/-- The channels, the flag and the file that the tasks share. Of the extensions that the sync
task has enabled, `uncommitted` are those that no migration committed since contains, and
`committed` those that one contains, unless an apply has started after it. -/
structure State where
  extensionsGel : Option Text
  pending : Bool
  syncRx : Channel ExecutionOrder
  migrateRx : Channel ExecutionOrder
  sync : SyncTask
  migrator : Migrator
  watcher : Watcher
  uncommitted : List Text
  committed : List Text

inductive WatcherEvent where
  | schemaChanged (order : ExecutionOrder)
  | configChanged (order : ExecutionOrder)
  | abort
  | close

inductive SyncEvent where
  | applied
  | applyFails (err : ApplyError)
  /-- The schema file can be read and written, or not. -/
  | enable (accessible : Bool)
  | storePending
  | receive
  | goOn

inductive MigratorEvent where
  | connectFails
  | readSchema
  | commit
  /-- The migration is over, whether it has failed or not. -/
  | finish
  | maybeTrigger
  | sendOrder
  | receive
  | goOn

inductive Event where
  /-- The user edits the schema file. -/
  | edit (content : Option Text)
  | watcher (e : WatcherEvent)
  | sync (e : SyncEvent)
  | migrator (e : MigratorEvent)

def contains (extensionsGel : Option Text) (name : Text) : Bool :=
  match extensionsGel with
  | some content => usesExtension content name
  | none => false

def State.runWatcher (s : State) (e : WatcherEvent) : Option State :=
  match s.watcher, e with
  | .watching, .schemaChanged order =>
      (s.migrateRx.send order).map fun rx => { s with migrateRx := rx }
  | .watching, .configChanged order =>
      (s.syncRx.send order).map fun rx => { s with syncRx := rx }
  | .watching, .abort =>
      s.migrateRx.dropSender.map fun rx => { s with watcher := .aborted, migrateRx := rx }
  | .aborted, .close =>
      s.syncRx.dropSender.map fun rx => { s with watcher := .closed, syncRx := rx }
  | _, _ => none

def State.enable (s : State) (err : ApplyError) (accessible : Bool) : State :=
  match accessible, maybeEnableMissingExtension err s.extensionsGel with
  | true, .ok (name, content) =>
      { s with
        extensionsGel := some content
        sync := .enabled name
        uncommitted := name :: s.uncommitted }
  | _, _ => { s with sync := .receiving .waiting }

def State.runSync (s : State) (e : SyncEvent) : Option State :=
  match s.sync, e with
  | .applying, .applied => some { s with sync := .receiving .waiting }
  | .applying, .applyFails err => some { s with sync := .failed err }
  | .failed err, .enable accessible => some (s.enable err accessible)
  | .enabled _, .storePending => some { s with pending := true, sync := .receiving .waiting }
  | .receiving call, .receive => (call.poll s.syncRx).map fun (call, rx) =>
      { s with sync := .receiving call, syncRx := rx }
  | .receiving (.done (some _)), .goOn => some { s with sync := .applying, committed := [] }
  | .receiving (.done none), .goOn => some { s with sync := .stopped }
  | _, _ => none

def State.runMigrator (s : State) (e : MigratorEvent) : Option State :=
  match s.migrator, e with
  | .migrating, .connectFails => some { s with migrator := .receiving .waiting }
  | .migrating, .readSchema | .read _, .readSchema =>
      some { s with migrator := .read s.extensionsGel }
  | .read extensionsGel, .commit =>
      some { s with
        uncommitted := s.uncommitted.filter fun name => !contains extensionsGel name
        committed := s.committed ++ s.uncommitted.filter (contains extensionsGel) }
  | .migrating, .finish | .read _, .finish => some { s with migrator := .triggering }
  | .triggering, .maybeTrigger =>
      some { s with
        pending := false
        migrator := if s.pending then .sending else .receiving .waiting }
  | .sending, .sendOrder => (s.syncRx.send ExecutionOrder.default).map fun rx =>
      { s with syncRx := rx, migrator := .receiving .waiting }
  | .receiving call, .receive => (call.poll s.migrateRx).map fun (call, rx) =>
      { s with migrator := .receiving call, migrateRx := rx }
  | .receiving (.done (some _)), .goOn => some { s with migrator := .migrating }
  | .receiving (.done none), .goOn => s.syncRx.dropSender.map fun rx =>
      { s with migrator := .stopped, syncRx := rx }
  | _, _ => none

/-- Both tasks are in their first round, and the watcher watches. -/
def State.Started (s : State) : Prop :=
  s.pending = false ∧ s.syncRx = { queue := [], senders := 2 } ∧ s.migrateRx = Channel.new ∧
    s.sync = .applying ∧ s.migrator = .migrating ∧ s.watcher = .watching ∧
    s.uncommitted = [] ∧ s.committed = []

def startExecutors : System State Event where
  Initial := State.Started
  next s
    | .edit content => some { s with extensionsGel := content }
    | .watcher e => s.runWatcher e
    | .sync e => s.runSync e
    | .migrator e => s.runMigrator e

/-! ## What must not be forgotten -/

/-- An apply that has not started is still to come. -/
def State.Queued (s : State) : Prop :=
  s.syncRx.queue ≠ [] ∨ (∃ order, s.sync = .receiving (.draining order)) ∨
    ∃ order, s.sync = .receiving (.done (some order))

/-- When the migrator waits, an apply has started after the commit of each extension or is
queued. -/
def Remembers (s : State) : Prop :=
  ∀ call, s.migrator = .receiving call → s.committed ≠ [] → s.Queued

/-- A swap that finds the flag set finds the migration of each extension committed that the
flag was set for, and one that finds it unset does not come between the write of the schema
file and the store of the flag. -/
def SwapsInTime (s : State) : Event → Prop
  | .migrator .maybeTrigger =>
      if s.pending then ∀ name ∈ s.uncommitted, s.sync = .enabled name
      else s.syncRx.queue = [] → ∀ name ∈ s.committed, s.sync ≠ .enabled name
  | _ => True

/-! ## The invariant -/

/-- Before the swap, an apply may also be due because the flag is set or about to be. -/
def State.Due (s : State) : Migrator → Prop
  | .migrating | .receiving _ => s.committed ≠ [] → s.Queued
  | .read _ | .triggering =>
      ∀ name ∈ s.committed, s.Queued ∨ s.pending = true ∨ s.sync = .enabled name
  | .sending | .stopped => True

structure Sound (s : State) : Prop where
  senders : s.syncRx.senders = s.migrator.senders + s.watcher.senders
  flagged : ∀ name ∈ s.uncommitted, s.pending = true ∨ s.sync = .enabled name
  due : s.Due s.migrator

variable {s t : State}

theorem Sound.remembers (h : Sound s) : Remembers s := by
  intro call hcall hcommitted
  have hdue := h.due
  rw [hcall] at hdue
  exact hdue hcommitted

theorem sound_of_started (h : s.Started) : Sound s := by
  obtain ⟨-, hrx, -, -, hmigrator, hwatcher, huncommitted, hcommitted⟩ := h
  refine ⟨?_, ?_, ?_⟩
  · rw [hrx, hmigrator, hwatcher]
    rfl
  · rw [huncommitted]
    exact fun name h => absurd h List.not_mem_nil
  · rw [hmigrator]
    exact fun hne => absurd hcommitted hne

/-- What is due stays due while the apply stays queued and the flag set. -/
theorem State.Due.mono {migrator : Migrator} (h : s.Due migrator)
    (hcommitted : t.committed = s.committed)
    (hqueued : migrator ≠ .stopped → s.Queued → t.Queued)
    (hflagged : ∀ name, s.pending = true ∨ s.sync = .enabled name →
      t.pending = true ∨ t.sync = .enabled name) : t.Due migrator := by
  cases migrator with
  | migrating | receiving _ =>
      intro hne
      rw [hcommitted] at hne
      exact hqueued Migrator.noConfusion (h hne)
  | read _ | triggering =>
      intro name hname
      rw [hcommitted] at hname
      exact (h name hname).imp (hqueued Migrator.noConfusion) (hflagged name)
  | sending | stopped => exact trivial

/-- Nothing is due once an apply has started. -/
theorem State.due_nil (h : s.committed = []) (migrator : Migrator) : s.Due migrator := by
  cases migrator with
  | migrating | receiving _ => exact fun hne => absurd h hne
  | read _ | triggering =>
      intro name hname
      rw [h] at hname
      exact absurd hname List.not_mem_nil
  | sending | stopped => exact trivial

/-! ## One step -/

/-- What a step of the watcher or the sync task has to show. -/
theorem Sound.mono (h : Sound s) (hmigrator : t.migrator = s.migrator)
    (hsenders : t.syncRx.senders = s.migrator.senders + t.watcher.senders)
    (huncommitted : ∀ name ∈ t.uncommitted, name ∈ s.uncommitted ∨ t.sync = .enabled name)
    (hcommitted : t.committed = s.committed)
    (hqueued : s.migrator ≠ .stopped → s.Queued → t.Queued)
    (hflagged : ∀ name, s.pending = true ∨ s.sync = .enabled name →
      t.pending = true ∨ t.sync = .enabled name) : Sound t := by
  refine ⟨by rw [hmigrator, hsenders], fun name hname => ?_, ?_⟩
  · rcases huncommitted name hname with hname | hname
    · exact hflagged name (h.flagged name hname)
    · exact Or.inr hname
  · rw [hmigrator]
    exact h.due.mono hcommitted hqueued hflagged

theorem Sound.runWatcher {e : WatcherEvent} (h : Sound s) (hnext : s.runWatcher e = some t) :
    Sound t := by
  unfold State.runWatcher at hnext
  split at hnext
  case h_1 order hwatcher =>
    obtain ⟨rx, -, rfl⟩ := Option.map_eq_some_iff.mp hnext
    exact h.mono rfl h.senders (fun _ => Or.inl) rfl (fun _ hqueued => hqueued) fun _ => id
  case h_2 order hwatcher =>
    obtain ⟨rx, hsend, rfl⟩ := Option.map_eq_some_iff.mp hnext
    obtain ⟨-, rfl⟩ := Channel.send_eq_some.mp hsend
    refine h.mono rfl h.senders (fun _ => Or.inl) rfl (fun _ _ => Or.inl ?_) fun _ => id
    exact List.append_ne_nil_of_right_ne_nil _ (List.cons_ne_nil _ _)
  case h_3 hwatcher =>
    obtain ⟨rx, -, rfl⟩ := Option.map_eq_some_iff.mp hnext
    refine h.mono rfl ?_ (fun _ => Or.inl) rfl (fun _ hqueued => hqueued) fun _ => id
    have hsenders := h.senders
    rwa [hwatcher] at hsenders
  case h_4 hwatcher =>
    obtain ⟨rx, hdrop, rfl⟩ := Option.map_eq_some_iff.mp hnext
    obtain ⟨-, rfl⟩ := Channel.dropSender_eq_some.mp hdrop
    refine h.mono rfl ?_ (fun _ => Or.inl) rfl (fun _ hqueued => hqueued) fun _ => id
    show s.syncRx.senders - 1 = s.migrator.senders + 0
    rw [h.senders, hwatcher]
    rfl
  case h_5 => cases hnext

theorem State.Queued.of_not_receiving (h : s.Queued) (hsync : ∀ call, s.sync ≠ .receiving call) :
    s.syncRx.queue ≠ [] := by
  rcases h with h | ⟨order, h⟩ | ⟨order, h⟩
  · exact h
  · exact absurd h (hsync _)
  · exact absurd h (hsync _)

/-- The sync task turns to another state before it receives again. -/
theorem Sound.turn (h : Sound s) {sync : SyncTask} (hsync : ∀ call, s.sync ≠ .receiving call)
    (hflag : ∀ name, s.sync ≠ .enabled name) : Sound { s with sync := sync } :=
  h.mono rfl h.senders (fun _ => Or.inl) rfl
    (fun _ hqueued => Or.inl (hqueued.of_not_receiving hsync))
    fun name hname => Or.inl (hname.resolve_right (hflag name))

theorem Sound.enable (h : Sound s) {err : ApplyError} (hsync : s.sync = .failed err)
    (accessible : Bool) : Sound (s.enable err accessible) := by
  have hreceiving : ∀ call, s.sync ≠ .receiving call := by
    rw [hsync]
    exact fun _ => SyncTask.noConfusion
  have hflag : ∀ name, s.sync ≠ .enabled name := by
    rw [hsync]
    exact fun _ => SyncTask.noConfusion
  unfold State.enable
  split
  case h_1 name content henable =>
    refine h.mono rfl h.senders (fun other hother => ?_) rfl
      (fun _ hqueued => Or.inl (hqueued.of_not_receiving hreceiving))
      fun other hother => Or.inl (hother.resolve_right (hflag other))
    rcases List.mem_cons.mp hother with rfl | hother
    · exact Or.inr rfl
    · exact Or.inl hother
  case h_2 => exact h.turn hreceiving hflag

theorem Sound.poll (h : Sound s) {call call' : Recv} {rx : Channel ExecutionOrder}
    (hsync : s.sync = .receiving call) (hpoll : call.poll s.syncRx = some (call', rx)) :
    Sound { s with sync := .receiving call', syncRx := rx } := by
  have hflagged : ∀ name, s.pending = true ∨ s.sync = .enabled name →
      s.pending = true ∨ SyncTask.receiving call' = .enabled name := by
    rintro name (hpending | henabled)
    · exact Or.inl hpending
    · rw [hsync] at henabled
      cases henabled
  rcases Recv.poll_cases hpoll with ⟨o, -, hsenders, hcall⟩ | ⟨order, -, rfl, -, -, rfl⟩ |
    ⟨-, rfl, hqueue, hsenders, rfl⟩
  · refine h.mono rfl (hsenders.trans h.senders) (fun _ => Or.inl) rfl
      (fun _ _ => Or.inr (Or.inl ?_)) hflagged
    rcases hcall with ⟨-, rfl⟩ | ⟨order, -, rfl⟩
    · exact ⟨o, rfl⟩
    · exact ⟨order.merge o, rfl⟩
  · exact h.mono rfl h.senders (fun _ => Or.inl) rfl
      (fun _ _ => Or.inr (Or.inr ⟨order, rfl⟩)) hflagged
  · -- the migrator has a sender until it stops
    refine h.mono rfl h.senders (fun _ => Or.inl) rfl (fun hmigrator _ => ?_) hflagged
    have hzero := h.senders.symm.trans hsenders
    cases hphase : s.migrator with
    | stopped => exact absurd hphase hmigrator
    | migrating | read _ | triggering | sending | receiving _ =>
        rw [hphase] at hzero
        exact absurd (Nat.eq_zero_of_add_eq_zero_right hzero) Nat.one_ne_zero

theorem Sound.runSync {e : SyncEvent} (h : Sound s) (hnext : s.runSync e = some t) :
    Sound t := by
  unfold State.runSync at hnext
  split at hnext
  case h_1 hsync | h_2 err hsync =>
    cases hnext
    exact h.turn (by simp [hsync]) (by simp [hsync])
  case h_3 err accessible hsync =>
    cases hnext
    exact h.enable hsync accessible
  case h_4 name hsync =>
    cases hnext
    exact h.mono rfl h.senders (fun _ => Or.inl) rfl
      (fun _ hqueued => Or.inl (hqueued.of_not_receiving (by simp [hsync])))
      fun _ _ => Or.inl rfl
  case h_5 call hsync =>
    obtain ⟨⟨call', rx⟩, hpoll, rfl⟩ := Option.map_eq_some_iff.mp hnext
    exact h.poll hsync hpoll
  case h_6 order hsync =>
    cases hnext
    refine ⟨h.senders, fun name hname => Or.inl ?_, State.due_nil rfl _⟩
    exact (h.flagged name hname).resolve_right (by simp [hsync])
  case h_7 hsync =>
    cases hnext
    refine h.mono rfl h.senders (fun _ => Or.inl) rfl (fun _ hqueued => ?_) fun name hname => ?_
    · rcases hqueued with hqueue | ⟨order, hcall⟩ | ⟨order, hcall⟩
      · exact Or.inl hqueue
      · rw [hsync] at hcall
        cases hcall
      · rw [hsync] at hcall
        cases hcall
    · exact Or.inl (hname.resolve_right (by simp [hsync]))
  case h_8 => cases hnext

/-- The due apply of a migrator that has read the schema. -/
theorem State.Due.read (h : s.Due .migrating) (extensionsGel : Option Text) :
    s.Due (.read extensionsGel) := by
  intro name hname
  exact Or.inl (h (List.ne_nil_of_mem hname))

theorem Sound.commit (h : Sound s) {extensionsGel : Option Text}
    (hmigrator : s.migrator = .read extensionsGel) :
    Sound { s with
      uncommitted := s.uncommitted.filter fun name => !contains extensionsGel name
      committed := s.committed ++ s.uncommitted.filter (contains extensionsGel) } := by
  refine ⟨h.senders, fun name hname => h.flagged name (List.mem_of_mem_filter hname), ?_⟩
  have hdue := h.due
  rw [hmigrator] at hdue
  rw [hmigrator]
  intro name hname
  rcases List.mem_append.mp hname with hname | hname
  · exact hdue name hname
  · exact Or.inr (h.flagged name (List.mem_of_mem_filter hname))

theorem Sound.maybeTrigger (h : Sound s) (hmigrator : s.migrator = .triggering)
    (hguard : SwapsInTime s (.migrator .maybeTrigger)) :
    Sound { s with
      pending := false
      migrator := if s.pending then .sending else .receiving .waiting } := by
  have hdue := h.due
  have hsenders := h.senders
  rw [hmigrator] at hdue hsenders
  cases hpending : s.pending with
  | true =>
      rw [SwapsInTime, if_pos hpending] at hguard
      exact ⟨hsenders, fun name hname => Or.inr (hguard name hname), trivial⟩
  | false =>
      rw [SwapsInTime, hpending, if_neg Bool.false_ne_true] at hguard
      refine ⟨hsenders, fun name hname => ?_, fun hne => ?_⟩
      · have hflagged := h.flagged name hname
        rwa [hpending] at hflagged
      · obtain ⟨name, hname⟩ := List.exists_mem_of_ne_nil _ hne
        rcases hdue name hname with hqueued | hflag | henabled
        · exact hqueued
        · rw [hpending] at hflag
          cases hflag
        · exact Or.inl fun hqueue => hguard hqueue name hname henabled

theorem Sound.runMigrator {e : MigratorEvent} (h : Sound s)
    (hguard : SwapsInTime s (.migrator e)) (hnext : s.runMigrator e = some t) : Sound t := by
  have hdue := h.due
  have hsenders := h.senders
  unfold State.runMigrator at hnext
  split at hnext
  case h_1 hmigrator =>
    cases hnext
    rw [hmigrator] at hdue hsenders
    exact ⟨hsenders, h.flagged, hdue⟩
  case h_2 hmigrator =>
    cases hnext
    rw [hmigrator] at hdue hsenders
    exact ⟨hsenders, h.flagged, hdue.read s.extensionsGel⟩
  case h_3 hmigrator =>
    cases hnext
    rw [hmigrator] at hdue hsenders
    exact ⟨hsenders, h.flagged, hdue⟩
  case h_4 extensionsGel hmigrator =>
    cases hnext
    exact h.commit hmigrator
  case h_5 hmigrator =>
    cases hnext
    rw [hmigrator] at hdue hsenders
    exact ⟨hsenders, h.flagged, hdue.read none⟩
  case h_6 hmigrator =>
    cases hnext
    rw [hmigrator] at hdue hsenders
    exact ⟨hsenders, h.flagged, hdue⟩
  case h_7 hmigrator =>
    cases hnext
    exact h.maybeTrigger hmigrator hguard
  case h_8 hmigrator =>
    obtain ⟨rx, hsend, rfl⟩ := Option.map_eq_some_iff.mp hnext
    obtain ⟨-, rfl⟩ := Channel.send_eq_some.mp hsend
    rw [hmigrator] at hsenders
    refine ⟨hsenders, h.flagged, fun _ => Or.inl ?_⟩
    exact List.append_ne_nil_of_right_ne_nil _ (List.cons_ne_nil _ _)
  case h_9 call hmigrator =>
    obtain ⟨⟨call', rx⟩, -, rfl⟩ := Option.map_eq_some_iff.mp hnext
    rw [hmigrator] at hdue hsenders
    exact ⟨hsenders, h.flagged, hdue⟩
  case h_10 order hmigrator =>
    cases hnext
    rw [hmigrator] at hdue hsenders
    exact ⟨hsenders, h.flagged, hdue⟩
  case h_11 hmigrator =>
    obtain ⟨rx, hdrop, rfl⟩ := Option.map_eq_some_iff.mp hnext
    obtain ⟨-, rfl⟩ := Channel.dropSender_eq_some.mp hdrop
    rw [hmigrator] at hsenders
    refine ⟨?_, h.flagged, trivial⟩
    show s.syncRx.senders - 1 = 0 + s.watcher.senders
    rw [hsenders, Nat.zero_add]
    exact Nat.add_sub_cancel_left 1 s.watcher.senders
  case h_12 => cases hnext

theorem Sound.step {e : Event} (h : Sound s) (hguard : SwapsInTime s e)
    (hnext : startExecutors.next s e = some t) : Sound t := by
  cases e with
  | edit content =>
      cases hnext
      exact h.mono rfl h.senders (fun _ => Or.inl) rfl (fun _ hqueued => hqueued) fun _ => id
  | watcher e => exact h.runWatcher hnext
  | sync e => exact h.runSync hnext
  | migrator e => exact h.runMigrator hguard hnext

/-- **An apply is not forgotten when the swaps come in time.** -/
theorem startExecutors_remembers (h : startExecutors.Reachable SwapsInTime s) : Remembers s :=
  (h.invariant (fun _ => sound_of_started) fun _ _ _ hs hguard hnext =>
    hs.step hguard hnext).remembers

/-! ## Runs -/

def missing : ApplyError := .hinted (.missingExtension "ai".toList)

def started : State :=
  { extensionsGel := some "#using extension ai;".toList
    pending := false
    syncRx := { queue := [], senders := 2 }
    migrateRx := Channel.new
    sync := .applying
    migrator := .migrating
    watcher := .watching
    uncommitted := []
    committed := [] }

theorem started_started : started.Started := ⟨rfl, rfl, rfl, rfl, rfl, rfl, rfl, rfl⟩

/-- The extension is enabled before the schema is read. -/
def servedRun : List Event :=
  [.sync (.applyFails missing), .sync (.enable true), .sync .storePending,
    .migrator .readSchema, .migrator .commit, .migrator .finish, .migrator .maybeTrigger,
    .migrator .sendOrder]

/-- The first migration fails, and the apply that it triggers finds the extension enabled
in the schema and missing in the database. -/
def forgottenRun : List Event :=
  [.sync (.applyFails missing), .sync (.enable true), .sync .storePending,
    .migrator .readSchema, .migrator .finish, .migrator .maybeTrigger, .migrator .sendOrder,
    .sync .receive, .sync .receive, .sync .goOn, .sync (.applyFails missing),
    .sync (.enable true), .watcher (.schemaChanged ExecutionOrder.default), .migrator .receive,
    .migrator .receive, .migrator .goOn, .migrator .readSchema, .migrator .commit,
    .migrator .finish, .migrator .maybeTrigger]

theorem along_servedRun : startExecutors.Along SwapsInTime started servedRun := by
  refine ⟨trivial, _, rfl, trivial, _, rfl, trivial, _, rfl, trivial, _, rfl, trivial, _, rfl,
    trivial, _, rfl, ?_, _, rfl, trivial, _, rfl, trivial⟩
  -- the migration that is committed contains the extension
  exact fun name hname => absurd hname List.not_mem_nil

theorem startExecutors_remembers_servedRun :
    ∃ s, startExecutors.run started servedRun = some s ∧ s.committed = ["ai".toList] ∧
      Remembers s := by
  refine ⟨_, rfl, rfl, startExecutors_remembers ?_⟩
  exact (System.Reachable.initial started_started).along along_servedRun rfl

theorem run_forgottenRun :
    ∃ s, startExecutors.run started forgottenRun = some s ∧ s.migrator = .receiving .waiting ∧
      s.committed = ["ai".toList] ∧ s.syncRx.queue = [] ∧ s.sync = .receiving .waiting :=
  ⟨_, rfl, rfl, rfl, rfl, rfl⟩

theorem not_startExecutors_remembers :
    ¬ ∀ s, startExecutors.Reachable System.Free s → Remembers s := by
  intro h
  obtain ⟨s, hrun, hmigrator, hcommitted, hqueue, hsync⟩ := run_forgottenRun
  have hremembers := h s ((System.Reachable.initial started_started).run hrun) .waiting hmigrator
  rw [hcommitted] at hremembers
  rcases hremembers (List.cons_ne_nil _ _) with hsent | ⟨order, hcall⟩ | ⟨order, hcall⟩
  · exact hsent hqueue
  · rw [hsync] at hcall
    cases hcall
  · rw [hsync] at hcall
    cases hcall

end SyncTrigger

end GelCli.Watch
