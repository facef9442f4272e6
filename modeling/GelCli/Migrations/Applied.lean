import GelCli.Migrations.Server

/-!
# What applying migrations does to the history

The rules for the actions of a connection, in two forms. `Place.At` says what the
history is after commands that meet no error; there `Quiet` leaves open whether
nothing fails or errors are of no concern. `Sound` is what holds whatever fails: the
histories stay lineages.
-/

namespace GelCli.Migrations

open GelCli.Foundation

variable {S : Server} {E : MigrateError → Session → Prop}

/-! ## Single actions -/

section Rules

variable {P Q : Session → Prop} {action : Action}

theorem execute_triple
    (hok : ∀ s t, P s → s.connected = true → s.after S action = some t → Q t.tick)
    (hrefused : ∀ s, P s → (s.connected = true → s.after S action = none) →
      E (.failed action) s)
    (hfault : ∀ s g, P s → (S.fault s.clock).effect = some g → E (.failed action) (g s)) :
    Triple P (execute S action) (fun _ => Q) E := by
  refine Triple.bind (R := fun s t => P t ∧ t = s) (Triple.get fun s hs => ⟨hs, rfl⟩) fun s => ?_
  apply Triple.attempt
  · rintro t u ⟨ht, rfl⟩ hu
    split at hu
    · next hconnected =>
      obtain ⟨v, hv, rfl⟩ := Option.map_eq_some_iff.mp hu
      exact hok _ v ht hconnected hv
    · cases hu
  · rintro t ⟨ht, rfl⟩ hu
    apply hrefused _ ht
    intro hconnected
    rw [if_pos hconnected] at hu
    exact Option.map_eq_none_iff.mp hu
  · rintro g t hg ⟨ht, rfl⟩
    exact hfault _ g ht hg

theorem executeIfConnected_triple (h : Triple P (execute S action) (fun _ => Q) E)
    (hlost : ∀ s, P s → s.connected = false → Q s) :
    Triple P (executeIfConnected S action) (fun _ => Q) E := by
  refine Triple.bind (R := fun s t => P t ∧ t = s) (Triple.get fun s hs => ⟨hs, rfl⟩) fun s => ?_
  apply Triple.ite
  · exact fun _ => h.conseq (fun _ ht => ht.1) fun _ _ ht => ht
  · intro hconnected
    apply Triple.pure
    rintro t ⟨ht, rfl⟩
    exact hlost _ ht (Bool.not_eq_true _ ▸ hconnected)

theorem external_triple (hok : ∀ s, P s → Q s.tick)
    (hfault : ∀ s g, P s → (S.fault s.clock).effect = some g → E .external (g s)) :
    Triple P (external S) (fun _ => Q) E := by
  refine Triple.bind (R := fun s t => P t ∧ t = s) (Triple.get fun s hs => ⟨hs, rfl⟩) fun s => ?_
  apply Triple.attempt
  · rintro t _ ⟨ht, rfl⟩ ⟨⟩
    exact hok _ ht
  · rintro t - ⟨⟩
  · rintro g t hg ⟨ht, rfl⟩
    exact hfault _ g ht hg

end Rules

/-! ## Commands that meet no error -/

/-- Nothing fails, or errors are of no concern. -/
def Quiet (S : Server) (E : MigrateError → Session → Prop) : Prop :=
  ((∀ n, S.fault n = .none) ∧ ∀ e s, ¬ E e s) ∨ ∀ e s, E e s

theorem Quiet.of_effect {e : MigrateError} {s t : Session} {g : Session → Session}
    (h : Quiet S E) (hg : (S.fault s.clock).effect = some g) : E e t := by
  rcases h with ⟨hnone, -⟩ | hall
  · rw [hnone] at hg
    cases hg
  · exact hall e t

/-- What is done after an error need not be looked at. -/
theorem Quiet.after_error {e : MigrateError} {x : Run Unit} (h : Quiet S E) :
    Triple (E e) x (fun _ => E e) fun _ => E e := by
  intro s hs
  rcases h with ⟨-, hnone⟩ | hall
  · exact absurd hs (hnone e s)
  · cases hx : x s with
    | ok => exact hall e _
    | error => exact hall e _

/-- Where the statements of a connection take effect. -/
inductive Place where
  | plain (saved : Option (List String))
  | rewriting (history : List String) (saved : Option (List String))

/-- The connection is at that place, with the history `c`. -/
def Place.At (c : List String) (s : Session) : Place → Prop
  | plain saved => s.connected = true ∧ s.history = c ∧ s.rewrite = none ∧ s.saved = saved
  | rewriting history saved =>
      s.connected = true ∧ s.history = history ∧ s.rewrite = some c ∧ s.saved = saved

section At

variable {place : Place} {c : List String} {s : Session}

theorem Place.At.connected (h : place.At c s) : s.connected = true := by
  cases place with
  | plain | rewriting => exact h.1

theorem Place.At.current (h : place.At c s) : s.current = c := by
  cases place with
  | plain =>
      obtain ⟨-, hhistory, hrewrite, -⟩ := h
      rw [Session.current, hrewrite, hhistory]
      rfl
  | rewriting =>
      obtain ⟨-, -, hrewrite, -⟩ := h
      rw [Session.current, hrewrite]
      rfl

theorem Place.At.tick (h : place.At c s) : place.At c s.tick := by
  cases place with
  | plain | rewriting => exact h

theorem Place.At.push (h : place.At c s) (id : String) : place.At (c ++ [id]) (s.push id) := by
  cases place with
  | plain =>
      obtain ⟨hconnected, hhistory, hrewrite, hsaved⟩ := h
      rw [Session.push, hrewrite]
      exact ⟨hconnected, congrArg (· ++ [id]) hhistory, rfl, hsaved⟩
  | rewriting =>
      obtain ⟨hconnected, hhistory, hrewrite, hsaved⟩ := h
      rw [Session.push, hrewrite]
      exact ⟨hconnected, hhistory, rfl, hsaved⟩

theorem query_at (hE : Quiet S E) :
    Triple (fun s => place.At c s) (execute S .query) (fun _ s => place.At c s) E := by
  apply execute_triple
  · rintro s _ hs - ⟨⟩
    exact hs.tick
  · intro s hs hrefused
    cases hrefused hs.connected
  · exact fun s g _ hg => hE.of_effect hg

theorem restore_at (hE : Quiet S E) :
    Triple (fun s => place.At c s) (restoreForTransaction S) (fun _ s => place.At c s) E :=
  executeIfConnected_triple (query_at hE) fun _ hs _ => hs

theorem inhibit_at (hE : Quiet S E) :
    Triple (fun s => place.At c s) (inhibitForTransaction S) (fun _ s => place.At c s) E :=
  Triple.bind (query_at hE) fun _ => query_at hE

theorem external_at (hE : Quiet S E) :
    Triple (fun s => place.At c s) (external S) (fun _ s => place.At c s) E :=
  external_triple (fun _ hs => hs.tick) fun _ _ _ hg => hE.of_effect hg

theorem runHooks_at {enabled : Bool} (hE : Quiet S E) :
    Triple (fun s => place.At c s) (runHooks S enabled) (fun _ s => place.At c s) E := by
  apply Triple.ite
  · exact fun _ => Triple.bind (external_at hE) fun _ => external_at hE
  · exact fun _ => Triple.pure fun _ hs => hs

theorem autoBackup_at {ctx : Context} (hE : Quiet S E) :
    Triple (fun s => place.At c s) (autoBackup S ctx) (fun _ s => place.At c s) E := by
  apply Triple.ite
  · exact fun _ => external_at hE
  · exact fun _ => Triple.pure fun _ hs => hs

/-- The files follow on each other from the history `c`. -/
def Follows (H : Hasher) : List String → List MigrationFile → Prop
  | _, [] => True
  | c, file :: files =>
      file.data.parentId = H.last c ∧ Follows H (c ++ [file.data.id]) files

theorem applyMigration_at {file : MigrationFile} (hE : Quiet S E)
    (hparent : file.data.parentId = S.hasher.last c) :
    Triple (fun s => place.At c s) (applyMigration S file)
      (fun _ s => place.At (c ++ [file.data.id]) s) E := by
  refine Triple.bind (external_at hE) fun _ => ?_
  apply execute_triple
  · intro s t hs _ ht
    rw [Session.after, hs.current, if_pos hparent.symm] at ht
    cases ht
    exact (hs.push _).tick
  · intro s hs hrefused
    have hnone := hrefused hs.connected
    rw [Session.after, hs.current, if_pos hparent.symm] at hnone
    cases hnone
  · exact fun s g _ hg => hE.of_effect hg

theorem applyEach_at {files : List MigrationFile} (hE : Quiet S E)
    (hfollows : Follows S.hasher c files) :
    Triple (fun s => place.At c s) (applyEach S files)
      (fun _ s => place.At (c ++ files.map fun file => file.data.id) s) E := by
  induction files generalizing c with
  | nil =>
      apply Triple.pure
      intro s hs
      rw [List.map_nil, List.append_nil]
      exact hs
  | cons file files ih =>
      obtain ⟨hparent, hfollows⟩ := hfollows
      refine Triple.bind (applyMigration_at hE hparent) fun _ => ?_
      have htail := ih hfollows
      rw [List.append_assoc] at htail
      exact htail

theorem applyFiles_at {files : List MigrationFile} (hE : Quiet S E)
    (hfollows : Follows S.hasher c files) :
    Triple (fun s => place.At c s) (applyMigrationsInner S (files.map .apply))
      (fun _ s => place.At (c ++ files.map fun file => file.data.id) s) E := by
  induction files generalizing c with
  | nil =>
      apply Triple.pure
      intro s hs
      rw [List.map_nil, List.append_nil]
      exact hs
  | cons file files ih =>
      obtain ⟨hparent, hfollows⟩ := hfollows
      refine Triple.bind (applyMigration_at hE hparent) fun _ => ?_
      have htail := ih hfollows
      rw [List.append_assoc] at htail
      exact htail

/-- Starting a rewrite and committing it replaces the history. -/
theorem startRewrite_at {saved : Option (List String)} (hE : Quiet S E) :
    Triple (fun s => (Place.plain saved).At c s) (execute S .startRewrite)
      (fun _ s => (Place.rewriting c saved).At [] s) E := by
  apply execute_triple
  · rintro s t ⟨hconnected, hhistory, hrewrite, hsaved⟩ - ht
    rw [Session.after, hrewrite, if_neg (by simp)] at ht
    cases ht
    exact ⟨hconnected, hhistory, rfl, hsaved⟩
  · rintro s ⟨hconnected, -, hrewrite, -⟩ hrefused
    have hnone := hrefused hconnected
    rw [Session.after, hrewrite, if_neg (by simp)] at hnone
    cases hnone
  · exact fun s g _ hg => hE.of_effect hg

theorem commitRewrite_at {history : List String} {saved : Option (List String)}
    (hE : Quiet S E) :
    Triple (fun s => (Place.rewriting history saved).At c s) (execute S .commitRewrite)
      (fun _ s => (Place.plain saved).At c s) E := by
  apply execute_triple
  · rintro s t ⟨hconnected, -, hrewrite, hsaved⟩ - ht
    rw [Session.after, hrewrite] at ht
    cases ht
    exact ⟨hconnected, rfl, rfl, hsaved⟩
  · rintro s ⟨hconnected, -, hrewrite, -⟩ hrefused
    have hnone := hrefused hconnected
    rw [Session.after, hrewrite] at hnone
    cases hnone
  · exact fun s g _ hg => hE.of_effect hg

theorem startTransaction_at (hE : Quiet S E) :
    Triple (fun s => (Place.plain none).At c s) (execute S .startTransaction)
      (fun _ s => (Place.plain (some c)).At c s) E := by
  apply execute_triple
  · rintro s t ⟨hconnected, hhistory, hrewrite, hsaved⟩ - ht
    rw [Session.after, Session.inTransaction, hrewrite, hsaved, if_neg (by simp)] at ht
    cases ht
    exact ⟨hconnected, hhistory, rfl, congrArg some hhistory⟩
  · rintro s ⟨hconnected, -, hrewrite, hsaved⟩ hrefused
    have hnone := hrefused hconnected
    rw [Session.after, Session.inTransaction, hrewrite, hsaved, if_neg (by simp)] at hnone
    cases hnone
  · exact fun s g _ hg => hE.of_effect hg

theorem commit_at {before : List String} (hE : Quiet S E) :
    Triple (fun s => (Place.plain (some before)).At c s) (execute S .commit)
      (fun _ s => (Place.plain none).At c s) E := by
  apply execute_triple
  · rintro s t ⟨hconnected, hhistory, hrewrite, hsaved⟩ - ht
    rw [Session.after, hsaved] at ht
    cases ht
    exact ⟨hconnected, hhistory, hrewrite, rfl⟩
  · rintro s ⟨hconnected, -, -, hsaved⟩ hrefused
    have hnone := hrefused hconnected
    rw [Session.after, hsaved] at hnone
    cases hnone
  · exact fun s g _ hg => hE.of_effect hg

/-- With a transaction around them or without, the operations do what they do. -/
theorem applyMigrations_at {operations : List Operation} {R : List String → Prop}
    (ctx : Context) (single : Bool) (hE : Quiet S E)
    (hinner : ∀ saved, Triple (fun s => (Place.plain saved).At c s)
      (applyMigrationsInner S operations)
      (fun _ s => ∃ c', R c' ∧ (Place.plain saved).At c' s) E) :
    Triple (fun s => (Place.plain none).At c s) (applyMigrations S ctx operations single)
      (fun _ s => ∃ c', R c' ∧ (Place.plain none).At c' s) E := by
  refine Triple.bind (runHooks_at hE) fun _ => ?_
  refine Triple.bind (inhibit_at hE) fun _ => ?_
  refine Triple.bind (R := fun _ s => ∃ c', R c' ∧ (Place.plain none).At c' s)
    (Triple.withFinally (R := fun _ s => ∃ c', R c' ∧ (Place.plain none).At c' s) ?_ ?_
      fun e => hE.after_error) fun _ => ?_
  · apply Triple.ite
    · intro _
      refine Triple.bind (startTransaction_at hE) fun _ => ?_
      refine Triple.withUndo (hinner (some c)) (fun _ => ?_) fun e => hE.after_error
      apply Triple.of_exists
      intro c'
      refine Triple.assume (fun s hs => hs.1) fun hresult => ?_
      exact (commit_at hE).conseq (fun s hs => hs.2) fun _ s hs => ⟨c', hresult, hs⟩
    · exact fun _ => hinner none
  · intro _
    apply Triple.of_exists
    intro c'
    refine Triple.assume (fun s hs => hs.1) fun hresult => ?_
    exact (restore_at hE).conseq (fun s hs => hs.2) fun _ s hs => ⟨c', hresult, hs⟩
  · apply Triple.of_exists
    intro c'
    refine Triple.assume (fun s hs => hs.1) fun hresult => ?_
    exact (runHooks_at hE).conseq (fun s hs => hs.2) fun _ s hs => ⟨c', hresult, hs⟩

end At

/-- The database ends in a migration of the directory. -/
theorem history_eq_take {H : Hasher} {keys ids : List String} {idx : Nat} (hkeys : H.Lineage keys)
    (hidx : idx < keys.length) (h : H.Lineage (ids ++ [keys[idx]])) :
    ids ++ [keys[idx]] = keys.take (idx + 1) := by
  have htake : keys.take (idx + 1) = keys.take idx ++ [keys[idx]] :=
    List.take_succ_eq_append_getElem hidx
  have hbegins : H.Lineage (keys.take idx ++ [keys[idx]]) :=
    htake ▸ hkeys.of_prefix (List.take_prefix _ _)
  rw [htake, h.unique hbegins]

/-- The files of the migrations directory as `read_all` accepts them: a single chain. -/
structure FileChain (H : Hasher) where
  migrations : List (String × MigrationFile)
  lineage : H.Lineage (migrations.map Prod.fst)
  ids : ∀ migration ∈ migrations, migration.2.data.id = migration.1
  follows : Follows H [] (migrations.map Prod.snd)

theorem follows_append {H : Hasher} {c : List String} {files rest : List MigrationFile} :
    Follows H c (files ++ rest) ↔
      Follows H c files ∧ Follows H (c ++ files.map fun file => file.data.id) rest := by
  induction files generalizing c with
  | nil => simp [Follows]
  | cons file files ih =>
      rw [List.cons_append, Follows, Follows, ih, and_assoc]
      simp

namespace FileChain

variable {H : Hasher} (D : FileChain H)

def keys : List String := D.migrations.map Prod.fst

theorem map_id (migrations : List (String × MigrationFile)) (h : migrations <:+: D.migrations) :
    (migrations.map Prod.snd).map (fun file => file.data.id) = migrations.map Prod.fst := by
  rw [List.map_map]
  apply List.map_congr_left
  exact fun migration hmem => D.ids migration (h.subset hmem)

/-- The files from `n` on follow on the ones before. -/
theorem follows_drop (n : Nat) :
    Follows H (D.keys.take n) ((D.migrations.drop n).map Prod.snd) := by
  have hsplit := D.follows
  rw [← List.take_append_drop n D.migrations, List.map_append, follows_append,
    D.map_id _ (List.take_prefix n _).isInfix, List.nil_append] at hsplit
  rw [keys, ← List.map_take]
  exact hsplit.2

theorem follows_take (n : Nat) : Follows H [] ((D.migrations.take n).map Prod.snd) := by
  have hsplit := D.follows
  rw [← List.take_append_drop n D.migrations, List.map_append, follows_append] at hsplit
  exact hsplit.1

end FileChain

/-! ## Whatever fails -/

/-- The histories of the connection are lineages, and what a transaction has to restore
is one too. -/
structure Sound (H : Hasher) (s : Session) : Prop where
  history : H.Lineage s.history
  rewrite : ∀ ids, s.rewrite = some ids → H.Lineage ids
  saved : ∀ ids, s.saved = some ids → H.Lineage ids

section Sound

variable {H : Hasher} {s t : Session}

theorem Sound.current (h : Sound H s) : H.Lineage s.current := by
  unfold Session.current
  cases hrewrite : s.rewrite with
  | none => exact h.history
  | some ids => exact h.rewrite ids hrewrite

theorem Sound.push {text : String} (h : Sound H s) :
    Sound H (s.push (H.make (H.last s.current) text)) := by
  have hmake := h.current.make text
  unfold Session.push
  cases hrewrite : s.rewrite with
  | none =>
      rw [Session.current, hrewrite] at hmake ⊢
      exact ⟨hmake, nofun, h.saved⟩
  | some ids =>
      rw [Session.current, hrewrite] at hmake ⊢
      refine ⟨h.history, ?_, h.saved⟩
      rintro _ ⟨⟩
      exact hmake

theorem Sound.rollback (h : Sound H s) : Sound H s.rollback := by
  refine ⟨?_, nofun, nofun⟩
  show H.Lineage (s.saved.getD s.history)
  cases hsaved : s.saved with
  | none => exact h.history
  | some ids => exact h.saved ids hsaved

theorem Sound.tick (h : Sound H s) : Sound H s.tick := ⟨h.history, h.rewrite, h.saved⟩

theorem Sound.disconnect (h : Sound H s) : Sound H s.disconnect :=
  ⟨h.rollback.history, nofun, nofun⟩

theorem Sound.reconnect (h : Sound H s) : Sound H s.reconnect :=
  ⟨h.rollback.history, nofun, nofun⟩

theorem Sound.effect {fault : Fault} {g : Session → Session} (h : Sound H s)
    (hg : fault.effect = some g) : Sound H (g s) := by
  cases fault with
  | none => cases hg
  | error =>
      cases hg
      exact h.tick
  | disconnect =>
      cases hg
      exact h.tick.disconnect

/-- A migration that is created is named after the parent it gives. -/
def Action.Hashed (H : Hasher) : Action → Prop
  | createMigration id parentId => ∃ text, id = H.make parentId text
  | startTransaction | commit | rollback | startRewrite | commitRewrite | abortRewrite
  | createDevMigration _ | query => True

theorem Sound.after {action : Action} (h : Sound S.hasher s) (hhashed : action.Hashed S.hasher)
    (ht : s.after S action = some t) : Sound S.hasher t := by
  cases action with
  | startTransaction =>
      obtain ⟨-, ht⟩ := Option.ite_none_left_eq_some.mp ht
      cases ht
      refine ⟨h.history, h.rewrite, ?_⟩
      rintro _ ⟨⟩
      exact h.history
  | commit =>
      obtain ⟨_, -, rfl⟩ := Option.map_eq_some_iff.mp ht
      exact ⟨h.history, h.rewrite, nofun⟩
  | rollback =>
      obtain ⟨_, -, rfl⟩ := Option.map_eq_some_iff.mp ht
      exact h.rollback
  | startRewrite =>
      obtain ⟨-, ht⟩ := Option.ite_none_left_eq_some.mp ht
      cases ht
      refine ⟨h.history, ?_, h.saved⟩
      rintro _ ⟨⟩
      exact .nil
  | commitRewrite =>
      obtain ⟨ids, hrewrite, rfl⟩ := Option.map_eq_some_iff.mp ht
      exact ⟨h.rewrite ids hrewrite, nofun, h.saved⟩
  | abortRewrite =>
      obtain ⟨_, -, rfl⟩ := Option.map_eq_some_iff.mp ht
      exact ⟨h.history, nofun, h.saved⟩
  | createMigration id parentId =>
      obtain ⟨hparent, ht⟩ := Option.ite_none_right_eq_some.mp ht
      cases ht
      obtain ⟨text, rfl⟩ := hhashed
      rw [← hparent]
      exact h.push
  | createDevMigration text =>
      cases ht
      exact h.push
  | query =>
      cases ht
      exact h

/-- Whatever fails in the command, the histories stay lineages. -/
def KeepsSound {α : Type} (S : Server) (x : Run α) : Prop :=
  Triple (Sound S.hasher) x (fun _ => Sound S.hasher) fun _ => Sound S.hasher

namespace KeepsSound

variable {α β : Type} {x : Run α}

theorem bind {f : α → Run β} (hx : KeepsSound S x) (hf : ∀ a, KeepsSound S (f a)) :
    KeepsSound S (x >>= f) :=
  Triple.bind hx hf

theorem pure {a : α} : KeepsSound S (Pure.pure a : Run α) := Triple.pure fun _ hs => hs

theorem throw {e : MigrateError} : KeepsSound S (MonadExcept.throw e : Run α) :=
  Triple.throw fun _ hs => hs

theorem get : KeepsSound S (MonadState.get : Run Session) := Triple.get fun _ hs => hs

theorem ite {c : Prop} [Decidable c] {x y : Run α} (hx : KeepsSound S x) (hy : KeepsSound S y) :
    KeepsSound S (if c then x else y) :=
  Triple.ite (fun _ => hx) fun _ => hy

theorem execute {action : Action} (h : action.Hashed S.hasher) :
    KeepsSound S (Migrations.execute S action) :=
  execute_triple (fun _ _ hs _ ht => (hs.after h ht).tick) (fun _ hs _ => hs)
    fun _ _ hs hg => hs.effect hg

theorem executeIfConnected {action : Action} (h : action.Hashed S.hasher) :
    KeepsSound S (Migrations.executeIfConnected S action) :=
  executeIfConnected_triple (execute h) fun _ hs _ => hs

theorem external : KeepsSound S (Migrations.external S) :=
  external_triple (fun _ hs => hs.tick) fun _ _ hs hg => hs.effect hg

theorem withUndo {undo finish : Run Unit} (hx : KeepsSound S x) (hundo : KeepsSound S undo)
    (hfinish : KeepsSound S finish) : KeepsSound S (Foundation.withUndo x undo finish) :=
  Triple.withUndo hx (fun _ => hfinish) fun _ => hundo

theorem withFinally {fin : Run Unit} (hx : KeepsSound S x) (hfin : KeepsSound S fin) :
    KeepsSound S (Foundation.withFinally x fin) :=
  Triple.withFinally hx (fun _ => hfin) fun _ => hfin

theorem runHooks {enabled : Bool} : KeepsSound S (Migrations.runHooks S enabled) :=
  ite (bind external fun _ => external) pure

theorem autoBackup {ctx : Context} : KeepsSound S (Migrations.autoBackup S ctx) :=
  ite external pure

/-- The files are named after their parents. -/
def Files (S : Server) (files : List MigrationFile) : Prop :=
  ∀ file ∈ files, ∃ text, file.data.id = S.hasher.make file.data.parentId text

theorem applyMigration {file : MigrationFile}
    (h : ∃ text, file.data.id = S.hasher.make file.data.parentId text) :
    KeepsSound S (Migrations.applyMigration S file) :=
  bind external fun _ => execute h

theorem applyEach {files : List MigrationFile} (h : Files S files) :
    KeepsSound S (Migrations.applyEach S files) := by
  induction files with
  | nil => exact pure
  | cons file files ih =>
      apply bind (applyMigration (h file List.mem_cons_self))
      exact fun _ => ih fun file hmem => h file (List.mem_cons_of_mem _ hmem)

def Operations (S : Server) (operations : List Operation) : Prop :=
  ∀ operation ∈ operations, match operation with
    | .apply file => ∃ text, file.data.id = S.hasher.make file.data.parentId text
    | .rewrite migrations => Files S (migrations.map Prod.snd)

theorem applyMigrationsInner {operations : List Operation} (h : Operations S operations) :
    KeepsSound S (Migrations.applyMigrationsInner S operations) := by
  induction operations with
  | nil => exact pure
  | cons operation operations ih =>
      have hhead := h operation List.mem_cons_self
      refine bind ?_ fun _ => ih fun operation hmem => h operation (List.mem_cons_of_mem _ hmem)
      cases operation with
      | apply file => exact applyMigration hhead
      | rewrite migrations =>
          exact bind (execute trivial) fun _ =>
            withUndo (applyEach hhead) (executeIfConnected trivial) (execute trivial)

theorem applyMigrations {operations : List Operation} {ctx : Context} {single : Bool}
    (h : Operations S operations) :
    KeepsSound S (Migrations.applyMigrations S ctx operations single) := by
  refine bind runHooks fun _ => ?_
  refine bind (bind (execute trivial) fun _ => execute trivial) fun _ => ?_
  refine bind (withFinally (ite ?_ (applyMigrationsInner h)) (executeIfConnected trivial))
    fun _ => runHooks
  exact bind (execute trivial) fun _ =>
    withUndo (applyMigrationsInner h) (executeIfConnected trivial) (execute trivial)

end KeepsSound

end Sound

end GelCli.Migrations
