import GelCli.Migrations.Applied
import GelCli.Migrations.DevMode

/-!
# Dev mode applies every file migration once

`select_mode` looks at the last migration of the database and at the last one of the
directory only. That is enough: an id that the database and the directory share has
the same migrations before it in both.
-/

namespace GelCli.Migrations

open GelCli.Foundation

/-! ## What is promised -/

/-- The mode is right for a directory with the migrations `keys` and a database with the
migrations `history`. -/
structure Decides (keys history : List String) (mode : Mode) : Prop where
  rebase_iff : mode = .rebase ↔
    (∃ id ∈ history, id ∉ keys) ∧ ∃ id, keys.getLast? = some id ∧ id ∉ history
  skips : ∀ skip, mode = .normal skip →
    skip ≤ keys.length ∧ ∀ id ∈ keys, id ∈ history ↔ id ∈ keys.take skip

/-- The history that the mode leads to; `dev` are dev-mode migrations. -/
def Mode.Leads (keys history result : List String) : Mode → Prop
  | normal skip => ∃ dev, result = history ++ keys.drop skip ++ dev ∧ ∀ id ∈ dev, id ∉ keys
  | rebase => ∃ dev, result = keys ++ dev ∧ ∀ id ∈ dev, id ∉ keys

/-! ## Choosing the mode -/

variable {H : Hasher} {keys history : List String}

theorem decides_of_take {skip : Nat} (hskip : skip ≤ keys.length)
    (h : history = keys.take skip) : Decides keys history (.normal skip) where
  rebase_iff := by
    constructor
    · intro hmode
      cases hmode
    · rintro ⟨⟨id, hid, hnot⟩, -⟩
      rw [h] at hid
      exact absurd (List.mem_of_mem_take hid) hnot
  skips := by
    rintro _ ⟨⟩
    refine ⟨hskip, fun id _ => ?_⟩
    rw [h]

theorem decides_of_prefix (h : keys <+: history) :
    Decides keys history (.normal keys.length) where
  rebase_iff := by
    constructor
    · intro hmode
      cases hmode
    · rintro ⟨-, id, hlast, hnot⟩
      exact absurd (h.subset (List.mem_of_getLast? hlast)) hnot
  skips := by
    rintro _ ⟨⟩
    refine ⟨le_refl _, fun id hid => ?_⟩
    rw [List.take_length]
    exact ⟨fun _ => hid, fun hid => h.subset hid⟩

theorem decides_rebase {id last : String} (hid : id ∈ history) (hnot : id ∉ keys)
    (hlast : keys.getLast? = some last) (hnew : last ∉ history) :
    Decides keys history .rebase where
  rebase_iff := ⟨fun _ => ⟨⟨id, hid, hnot⟩, last, hlast, hnew⟩, fun _ => rfl⟩
  skips := nofun

variable {S : Server} {E : MigrateError → Session → Prop} {place : Place} {c : List String}

/-- A mode that is right, with the history it stands for. -/
inductive Chosen (keys history : List String) : Mode → Prop where
  | take {skip : Nat} : skip ≤ keys.length → history = keys.take skip →
      Chosen keys history (.normal skip)
  | ahead : keys <+: history → Chosen keys history (.normal keys.length)
  | diverged {id last : String} : id ∈ history → id ∉ keys → keys.getLast? = some last →
      last ∉ history → Chosen keys history .rebase

theorem Chosen.decides {mode : Mode} (h : Chosen keys history mode) :
    Decides keys history mode := by
  cases h with
  | take hskip htake => exact decides_of_take hskip htake
  | ahead hbegins => exact decides_of_prefix hbegins
  | diverged hid hnot hlast hnew => exact decides_rebase hid hnot hlast hnew

theorem containsMigration_at {id : String} (hE : Quiet S E) :
    Triple (fun s => place.At c s) (containsMigration S id)
      (fun contains s => contains = decide (id ∈ c) ∧ place.At c s) E := by
  refine Triple.bind (query_at hE) fun _ => ?_
  refine Triple.bind (R := fun s t => place.At c t ∧ t = s) (Triple.get fun s hs => ⟨hs, rfl⟩)
    fun s => ?_
  apply Triple.pure
  rintro t ⟨ht, rfl⟩
  rw [ht.current]
  exact ⟨rfl, ht⟩

theorem getDbMigration_at (hE : Quiet S E) :
    Triple (fun s => place.At c s) (getDbMigration S)
      (fun dbMigration s => dbMigration = c.getLast? ∧ place.At c s) E := by
  refine Triple.bind (query_at hE) fun _ => ?_
  refine Triple.bind (R := fun s t => place.At c t ∧ t = s) (Triple.get fun s hs => ⟨hs, rfl⟩)
    fun s => ?_
  apply Triple.pure
  rintro t ⟨ht, rfl⟩
  rw [ht.current]
  exact ⟨rfl, ht⟩

/-- **The last migrations of both sides decide.** -/
theorem selectMode_at (D : FileChain S.hasher) (hc : S.hasher.Lineage c) (hE : Quiet S E) :
    Triple (fun s => place.At c s) (selectMode S D.migrations c.getLast?)
      (fun mode s => Chosen D.keys c mode ∧ place.At c s) E := by
  have hlength : D.migrations.length = D.keys.length := (List.length_map _).symm
  have hlastKey : D.migrations.getLast?.map Prod.fst = D.keys.getLast? := List.getLast?_map.symm
  rcases List.eq_nil_or_concat c with rfl | ⟨ids, id, rfl⟩
  · exact Triple.pure fun s hs => ⟨.take (Nat.zero_le _) rfl, hs⟩
  rw [List.concat_eq_append] at hc ⊢
  rw [List.getLast?_concat]
  dsimp only [selectMode]
  cases hfind : D.migrations.findIdx? fun migration => decide (migration.1 = id) with
  | some idx =>
      obtain ⟨hidx, hkey, -⟩ := List.findIdx?_eq_some_iff_getElem.mp hfind
      have hidx' : idx < D.keys.length := hlength ▸ hidx
      have hid : D.keys[idx] = id := by
        simpa [FileChain.keys] using hkey
      have htake : ids ++ [D.keys[idx]] = D.keys.take (idx + 1) :=
        history_eq_take D.lineage hidx' (hid.symm ▸ hc)
      rw [hid] at htake
      exact Triple.pure fun s hs => ⟨.take hidx' htake, hs⟩
  | none =>
      have hnot : id ∉ D.keys := by
        intro hid
        obtain ⟨migration, hmem, rfl⟩ := List.mem_map.mp hid
        have hne := List.findIdx?_eq_none_iff.mp hfind migration hmem
        simp at hne
      cases hlast : D.migrations.getLast? with
      | none =>
          have hnil : D.keys = [] := by
            rw [List.getLast?_eq_none_iff.mp hlast] at hlength
            exact List.eq_nil_of_length_eq_zero hlength.symm
          refine Triple.pure fun s hs => ⟨?_, hs⟩
          rw [hlength]
          exact .ahead (hnil ▸ List.nil_prefix)
      | some lastFile =>
          obtain ⟨last, file⟩ := lastFile
          have hlast' : D.keys.getLast? = some last := by
            rw [← hlastKey, hlast]
            rfl
          refine Triple.bind (containsMigration_at hE) fun contains => ?_
          apply Triple.pure
          rintro s ⟨rfl, hs⟩
          refine ⟨?_, hs⟩
          by_cases hin : last ∈ ids ++ [id]
          · -- with its last migration the directory is a beginning of the history
            rw [if_pos (decide_eq_true hin), hlength]
            obtain ⟨before, hkeys⟩ := List.getLast?_eq_some_iff.mp hlast'
            have hlineage : S.hasher.Lineage (before ++ [last]) := hkeys ▸ D.lineage
            have hbegins := hlineage.prefix_of_last_mem hc hin
            rw [← hkeys] at hbegins
            exact .ahead hbegins
          · rw [if_neg (by simpa using hin)]
            exact .diverged (by simp) hnot hlast' hin

/-! ## Changing the schema -/

/-- At most one dev-mode migration more. -/
def Developed (H : Hasher) (c c' : List String) : Prop :=
  c' = c ∨ ∃ text, c' = c ++ [H.make (H.last c) text]

theorem Developed.lineage {c' : List String} (h : Developed H c c') (hc : H.Lineage c) :
    H.Lineage c' := by
  rcases h with rfl | ⟨text, rfl⟩
  · exact hc
  · exact hc.make text

theorem Developed.begins {c' : List String} (h : Developed H c c') : c <+: c' := by
  rcases h with rfl | ⟨text, rfl⟩
  · exact List.prefix_rfl
  · exact List.prefix_append _ _

def DevelopedAt (S : Server) (place : Place) (c : List String) (s : Session) : Prop :=
  ∃ c', Developed S.hasher c c' ∧ place.At c' s

theorem populateMigration_at (hE : Quiet S E) :
    Triple (fun s => place.At c s) (populateMigration S) (fun _ s => place.At c s) E := by
  refine Triple.bind (query_at hE) fun _ => ?_
  refine Triple.bind (R := fun _ s => place.At c s) (Triple.get fun s hs => hs) fun s => ?_
  exact Triple.pure fun t ht => ht

theorem applyStatements_at {items : List String} (hE : Quiet S E) :
    Triple (fun s => place.At c s) (applyStatements S items)
      (fun _ => DevelopedAt S place c) E := by
  apply execute_triple
  · intro s t hs _ ht
    rw [Session.after, hs.current] at ht
    cases ht
    exact ⟨_, .inr ⟨_, rfl⟩, (hs.push _).tick⟩
  · intro s hs hrefused
    cases hrefused hs.connected
  · exact fun s g _ hg => hE.of_effect hg

theorem developedAt_self {s : Session} (h : place.At c s) : DevelopedAt S place c s :=
  ⟨c, .inl rfl, h⟩

theorem changeSchema_at {ctx : Context} (hE : Quiet S E) :
    Triple (fun s => place.At c s) (changeSchema S ctx) (fun _ => DevelopedAt S place c) E := by
  refine Triple.bind (populateMigration_at hE) fun migs => ?_
  apply Triple.ite
  · exact fun _ => Triple.pure fun s hs => developedAt_self hs
  · intro _
    refine Triple.bind (runHooks_at hE) fun _ => ?_
    refine Triple.bind (autoBackup_at hE) fun _ => ?_
    exact Triple.bind (applyStatements_at hE) fun _ => Triple.pure fun s hs => hs

theorem changeSchemaInTransaction_at (hE : Quiet S E) :
    Triple (fun s => place.At c s) (changeSchemaInTransaction S)
      (fun _ => DevelopedAt S place c) E := by
  refine Triple.bind (populateMigration_at hE) fun migs => ?_
  apply Triple.ite
  · exact fun _ => Triple.pure fun s hs => developedAt_self hs
  · exact fun _ => Triple.bind (applyStatements_at hE) fun _ => Triple.pure fun s hs => hs

/-- Outside of a transaction the change has one of its own. -/
theorem migrateToSchema_plain {ctx : Context} (hE : Quiet S E) :
    Triple (fun s => (Place.plain none).At c s) (migrateToSchema S ctx)
      (fun _ => DevelopedAt S (.plain none) c) E := by
  refine Triple.bind (R := fun s t => (Place.plain none).At c t ∧ t = s)
    (Triple.get fun s hs => ⟨hs, rfl⟩) fun s => ?_
  apply Triple.ite
  · intro hin
    refine Triple.assume (c := False) ?_ False.elim
    rintro t ⟨⟨-, -, hrewrite, hsaved⟩, rfl⟩
    rw [Session.inTransaction, hrewrite, hsaved] at hin
    cases hin
  intro _
  refine Triple.conseq ?_ (fun t (ht : (Place.plain none).At c t ∧ t = s) => ht.1)
    fun _ _ ht => ht
  refine Triple.bind (inhibit_at hE) fun _ => ?_
  refine Triple.bind (R := fun _ => DevelopedAt S (.plain none) c) ?_ fun rv => ?_
  · refine Triple.withFinally (R := fun _ => DevelopedAt S (.plain none) c) ?_ ?_
      fun e => hE.after_error
    · refine Triple.bind (startTransaction_at hE) fun _ => ?_
      refine Triple.withUndo (changeSchema_at hE) (fun _ => ?_) fun e => hE.after_error
      apply Triple.of_exists
      intro c'
      refine Triple.assume (fun t ht => ht.1) fun hdeveloped => ?_
      refine Triple.conseq (executeIfConnected_triple (commit_at hE) ?_) (fun t ht => ht.2)
        fun _ t ht => ⟨c', hdeveloped, ht⟩
      intro t ht hlost
      rw [ht.connected] at hlost
      cases hlost
    · intro _
      apply Triple.of_exists
      intro c'
      refine Triple.assume (fun t ht => ht.1) fun hdeveloped => ?_
      exact Triple.conseq (restore_at hE) (fun t ht => ht.2)
        fun _ t ht => ⟨c', hdeveloped, ht⟩
  · apply Triple.of_exists
    intro c'
    refine Triple.assume (fun t ht => ht.1) fun hdeveloped => ?_
    refine Triple.conseq (Triple.bind (runHooks_at hE) fun _ => Triple.pure fun t ht => ht)
      (fun t ht => ht.2) fun _ t ht => ⟨c', hdeveloped, ht⟩

theorem migrateToSchema_rewriting {ctx : Context} {history : List String} (hE : Quiet S E) :
    Triple (fun s => (Place.rewriting history none).At c s) (migrateToSchema S ctx)
      (fun _ => DevelopedAt S (.rewriting history none) c) E := by
  refine Triple.bind (R := fun s t => (Place.rewriting history none).At c t ∧ t = s)
    (Triple.get fun s hs => ⟨hs, rfl⟩) fun s => ?_
  apply Triple.ite
  · exact fun _ => Triple.conseq (changeSchemaInTransaction_at hE)
      (fun t (ht : (Place.rewriting history none).At c t ∧ t = s) => ht.1) fun _ _ ht => ht
  · intro hout
    refine Triple.assume (c := False) ?_ False.elim
    rintro t ⟨⟨-, -, hrewrite, -⟩, rfl⟩
    rw [Session.inTransaction, hrewrite] at hout
    simp at hout

/-! ## Migrating -/

/-- The directory is applied from `skip` on. -/
theorem applyRest_at (D : FileChain S.hasher) {ctx : Context} {skip : Nat} (hE : Quiet S E) :
    Triple (fun s => (Place.plain none).At (D.keys.take skip) s)
      (applyRest S ctx (D.migrations.drop skip))
      (fun _ s => (Place.plain none).At D.keys s) E := by
  have hdrop : D.keys.take skip ++ (D.migrations.drop skip).map Prod.fst = D.keys := by
    rw [List.map_drop]
    exact List.take_append_drop skip D.keys
  apply Triple.ite
  · intro hempty
    apply Triple.pure
    intro s hs
    rw [List.isEmpty_iff.mp hempty, List.map_nil, List.append_nil] at hdrop
    rw [← hdrop]
    exact hs
  · intro _
    refine Triple.bind (autoBackup_at hE) fun _ => ?_
    refine Triple.bind (applyMigrations_at ctx false hE (R := (· = D.keys)) ?_) fun _ => ?_
    · intro saved
      have happly : Triple (fun s => (Place.plain saved).At (D.keys.take skip) s) _ _ E :=
        applyFiles_at hE (D.follows_drop skip)
      rw [D.map_id _ (List.drop_suffix skip _).isInfix, hdrop, List.map_map] at happly
      exact happly.conseq (fun s hs => hs) fun _ s hs => ⟨_, rfl, hs⟩
    · apply Triple.pure
      rintro s ⟨_, rfl, hs⟩
      exact hs

/-- A rewrite puts the directory in the place of the whole history. -/
theorem rebaseToSchema_at (D : FileChain S.hasher) {ctx : Context} (hE : Quiet S E) :
    Triple (fun s => (Place.plain none).At c s) (rebaseToSchema S ctx D.migrations)
      (fun _ => DevelopedAt S (.plain none) D.keys) E := by
  have hfollows := D.follows_drop 0
  rw [List.take_zero, List.drop_zero] at hfollows
  refine Triple.bind (startRewrite_at hE) fun _ => ?_
  refine Triple.withUndo (R := fun _ => DevelopedAt S (.rewriting c none) D.keys) ?_ ?_
    fun e => hE.after_error
  · have happly : Triple (fun s => (Place.rewriting c none).At [] s) _ _ E :=
      applyFiles_at hE hfollows
    rw [D.map_id _ List.infix_rfl, List.map_map, List.nil_append] at happly
    refine Triple.bind happly fun _ => ?_
    exact Triple.bind (migrateToSchema_rewriting hE) fun _ => Triple.pure fun s hs => hs
  · intro _
    apply Triple.of_exists
    intro c'
    refine Triple.assume (fun t ht => ht.1) fun hdeveloped => ?_
    exact Triple.conseq (commitRewrite_at hE) (fun t ht => ht.2)
      fun _ t ht => ⟨c', hdeveloped, ht⟩

/-- What `migrate` has made of the history when it ends. -/
inductive Migrated (H : Hasher) (keys history : List String) : Mode → List String → Prop where
  | take {skip : Nat} {result : List String} : skip ≤ keys.length →
      history = keys.take skip → Developed H keys result →
      Migrated H keys history (.normal skip) result
  | ahead {result : List String} : keys <+: history → Developed H history result →
      Migrated H keys history (.normal keys.length) result
  | rewritten {result : List String} : Developed H keys result →
      Migrated H keys history .rebase result

theorem migrateInMode_at (D : FileChain S.hasher) {ctx : Context} {mode : Mode} (hE : Quiet S E)
    (hmode : Chosen D.keys c mode) :
    Triple (fun s => (Place.plain none).At c s) (migrateInMode S ctx D.migrations mode)
      (fun _ s => ∃ result, Migrated S.hasher D.keys c mode result ∧
        (Place.plain none).At result s) E := by
  have hlength : D.migrations.length = D.keys.length := (List.length_map _).symm
  cases hmode with
  | @take skip hskip htake =>
      have hrange : getRange skip D.migrations = some (D.migrations.drop skip) :=
        if_pos (hlength ▸ hskip)
      simp only [migrateInMode, hrange]
      rw [htake]
      refine Triple.bind (applyRest_at D hE) fun ctx' => ?_
      refine Triple.bind (migrateToSchema_plain hE) fun _ => ?_
      apply Triple.pure
      rintro s ⟨result, hdeveloped, hs⟩
      exact ⟨result, .take hskip rfl hdeveloped, hs⟩
  | ahead hbegins =>
      have hrange : getRange D.keys.length D.migrations = some [] := by
        rw [getRange, if_pos hlength.ge, ← hlength, List.drop_length]
      simp only [migrateInMode, hrange]
      refine Triple.bind (R := fun _ s => (Place.plain none).At c s)
        (Triple.ite (fun _ => Triple.pure fun s hs => hs) fun hne => absurd rfl hne)
        fun ctx' => ?_
      refine Triple.bind (migrateToSchema_plain hE) fun _ => ?_
      apply Triple.pure
      rintro s ⟨result, hdeveloped, hs⟩
      exact ⟨result, .ahead hbegins hdeveloped, hs⟩
  | diverged =>
      refine Triple.bind (migrateToSchema_plain hE) fun changed => ?_
      apply Triple.of_exists
      intro c'
      refine Triple.conseq ?_ (fun s hs => hs.2) fun _ _ hs => hs
      refine Triple.bind (autoBackup_at hE) fun _ => ?_
      refine Triple.conseq (rebaseToSchema_at D hE) (fun s hs => hs) ?_
      rintro _ s ⟨result, hdeveloped, hs⟩
      exact ⟨result, .rewritten hdeveloped, hs⟩

theorem migrate_at (D : FileChain S.hasher) {ctx : Context} (hc : S.hasher.Lineage c)
    (hE : Quiet S E) (hsupported : S.devModeSupported = true ∨ ∀ e s, E e s) :
    Triple (fun s => (Place.plain none).At c s) (migrate S ctx D.migrations)
      (fun _ s => ∃ mode result, Chosen D.keys c mode ∧
        Migrated S.hasher D.keys c mode result ∧ (Place.plain none).At result s) E := by
  refine Triple.bind (R := fun _ s => (Place.plain none).At c s) ?_ fun _ => ?_
  · refine Triple.bind (query_at hE) fun _ => ?_
    apply Triple.ite
    · exact fun _ => Triple.pure fun s hs => hs
    · intro hnot
      apply Triple.throw
      intro s _
      rcases hsupported with hsupported | hall
      · exact absurd hsupported hnot
      · exact hall _ s
  refine Triple.bind (external_at hE) fun _ => ?_
  refine Triple.bind (getDbMigration_at hE) fun dbMigration => ?_
  refine Triple.assume (fun s hs => hs.1) ?_
  rintro rfl
  refine Triple.bind (Triple.conseq (selectMode_at D hc hE) (fun s hs => hs.2)
    fun _ _ hs => hs) fun mode => ?_
  refine Triple.assume (fun s hs => hs.1) fun hmode => ?_
  refine Triple.conseq (migrateInMode_at D hE hmode) (fun s hs => hs.2) ?_
  rintro _ s ⟨result, hmigrated, hs⟩
  exact ⟨mode, result, hmode, hmigrated, hs⟩

/-! ## Every file migration once, in order -/

/-- A list without repetitions that starts with `keys` has exactly these of them. -/
theorem filter_eq_of_prefix {result : List String} (h : keys <+: result) (hnodup : result.Nodup) :
    result.filter (fun id => decide (id ∈ keys)) = keys := by
  obtain ⟨rest, rfl⟩ := h
  obtain ⟨-, -, hdisjoint⟩ := List.nodup_append.mp hnodup
  have hkeys : keys.filter (fun id => decide (id ∈ keys)) = keys := by
    apply List.filter_eq_self.mpr
    exact fun id hid => decide_eq_true hid
  have hrest : rest.filter (fun id => decide (id ∈ keys)) = [] := by
    apply List.filter_eq_nil_iff.mpr
    intro id hid hin
    exact hdisjoint id (of_decide_eq_true hin) id hid rfl
  rw [List.filter_append, hkeys, hrest, List.append_nil]

theorem Migrated.complete {mode : Mode} {result : List String} (hkeys : H.Lineage keys)
    (hhistory : H.Lineage history) (h : Migrated H keys history mode result) :
    keys <+: result ∧ result.Nodup := by
  cases h with
  | take _ _ hdeveloped => exact ⟨hdeveloped.begins, (hdeveloped.lineage hkeys).nodup⟩
  | ahead hbegins hdeveloped =>
      exact ⟨hbegins.trans hdeveloped.begins, (hdeveloped.lineage hhistory).nodup⟩
  | rewritten hdeveloped => exact ⟨hdeveloped.begins, (hdeveloped.lineage hkeys).nodup⟩

/-- What `Developed` adds is no migration of the directory. -/
theorem Developed.added {base result : List String} (h : Developed H base result)
    (hbegins : keys <+: base) (hnodup : result.Nodup) :
    ∃ dev, result = base ++ dev ∧ ∀ id ∈ dev, id ∉ keys := by
  rcases h with rfl | ⟨text, rfl⟩
  · exact ⟨[], (List.append_nil _).symm, nofun⟩
  · obtain ⟨-, -, hdisjoint⟩ := List.nodup_append.mp hnodup
    refine ⟨_, rfl, fun id hid hin => ?_⟩
    exact hdisjoint id (hbegins.subset hin) id hid rfl

theorem Migrated.leads {mode : Mode} {result : List String} (hkeys : H.Lineage keys)
    (hhistory : H.Lineage history) (h : Migrated H keys history mode result) :
    mode.Leads keys history result := by
  have hnodup := (h.complete hkeys hhistory).2
  cases h with
  | @take skip _ hskip htake hdeveloped =>
      obtain ⟨dev, hresult, hdev⟩ := hdeveloped.added List.prefix_rfl hnodup
      refine ⟨dev, ?_, hdev⟩
      rw [htake, List.take_append_drop]
      exact hresult
  | ahead hbegins hdeveloped =>
      obtain ⟨dev, hresult, hdev⟩ := hdeveloped.added hbegins hnodup
      refine ⟨dev, ?_, hdev⟩
      rw [List.drop_length, List.append_nil]
      exact hresult
  | rewritten hdeveloped => exact hdeveloped.added List.prefix_rfl hnodup

/-- **Dev mode applies every file migration exactly once**: `select_mode` skips exactly
the files that the history has, or rewrites the whole history, and that iff the
history has a migration that the directory has not and lacks the last one of a
directory that is not empty; and when `migrate` ends without an error, the history is
the one that mode leads to, with every file migration once and in order. -/
theorem migrate_applies_once (S : Server) (ctx : Context) (D : FileChain S.hasher)
    {history : List String} (hhistory : S.hasher.Lineage history) (clock : Nat) :
    (∀ mode t, selectMode S D.migrations history.getLast? (.fresh history clock) = .ok mode t →
      Decides D.keys history mode) ∧
    ∀ t, migrate S ctx D.migrations (.fresh history clock) = .ok () t →
      (∃ mode, Decides D.keys history mode ∧ mode.Leads D.keys history t.history) ∧
        t.history.filter (fun id => decide (id ∈ D.keys)) = D.keys := by
  have hE : Quiet S fun _ _ => True := .inr fun _ _ => trivial
  have hfresh : (Place.plain none).At history (.fresh history clock) := ⟨rfl, rfl, rfl, rfl⟩
  constructor
  · intro mode t hselect
    exact ((selectMode_at D hhistory hE).of_ok hfresh hselect).1.decides
  · intro t hmigrate
    obtain ⟨mode, result, hmode, hmigrated, ht⟩ :=
      (migrate_at D hhistory hE (.inr fun _ _ => trivial)).of_ok hfresh hmigrate
    obtain ⟨-, rfl, -⟩ := ht
    obtain ⟨hbegins, hnodup⟩ := hmigrated.complete D.lineage hhistory
    exact ⟨⟨mode, hmode.decides, hmigrated.leads D.lineage hhistory⟩,
      filter_eq_of_prefix hbegins hnodup⟩

section Sample

/-- Two migrations. -/
def sampleChain : FileChain spellingHasher where
  migrations := [sampleFile "initial" "a", sampleFile (spelled "initial" "a") "b"]
  lineage := .make "b" (.make "a" .nil)
  ids := by
    intro migration hmem
    simp only [List.mem_cons, List.not_mem_nil, or_false] at hmem
    rcases hmem with rfl | rfl <;> rfl
  follows := ⟨rfl, rfl, trivial⟩

/-- The first of them with a dev-mode migration. -/
def sampleHistory : List String := [spelled "initial" "a", spelled (spelled "initial" "a") "d"]

def quietServer : Server where
  hasher := spellingHasher
  fault _ := .none
  schemaDiff _ := []
  devModeSupported := true

theorem lineage_sampleHistory : spellingHasher.Lineage sampleHistory :=
  .make "d" (.make "a" .nil)

theorem migrate_applies_once_rebase :
    ∃ t, migrate quietServer quietContext sampleChain.migrations (.fresh sampleHistory 0) = .ok () t ∧
      t.history.filter (fun id => decide (id ∈ sampleChain.keys)) = sampleChain.keys := by
  have hE : Quiet quietServer fun _ _ => False := .inl ⟨fun _ => rfl, fun _ _ hfalse => hfalse⟩
  have hfresh : (Place.plain none).At sampleHistory (.fresh sampleHistory 0) :=
    ⟨rfl, rfl, rfl, rfl⟩
  obtain ⟨_, t, hrun, -⟩ :=
    (migrate_at sampleChain lineage_sampleHistory hE (.inl rfl)).exists_ok hfresh
  have happlies := migrate_applies_once quietServer quietContext sampleChain lineage_sampleHistory 0
  exact ⟨t, hrun, (happlies.2 t hrun).2⟩

end Sample

end GelCli.Migrations
