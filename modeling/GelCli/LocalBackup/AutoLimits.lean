import Mathlib.Data.List.Induction
import GelCli.LocalBackup.Strategy

/-!
# The limits of automatic incremental backups

The chain of parents of every incremental backup ends at a completed full one. The
limits are checked on the parent: its generation may already be the highest one, and
the age of a parent that is full itself is not looked at. `Overlooked` says of a step that
it goes over a limit so, and the limits hold after a run if and only if no step does.
-/

namespace GelCli.LocalBackup

open GelCli.Foundation

variable {Uuid : Type} (U : UuidText Uuid)

/-! ## Chains -/

/-- The chain of parents of the backup ends at a full one, completed at the given time. -/
inductive HangsOn (backups : List (Uuid × BackupMetadata)) : Uuid → SystemTime → Prop where
  | full {id : Uuid} {metadata : BackupMetadata} {t : SystemTime} :
      (id, metadata) ∈ backups → metadata.backupStrategy = .full → metadata.incremental = none →
      metadata.completedAt = some t → HangsOn backups id t
  | incremental {id parent : Uuid} {metadata : BackupMetadata} {incremental : IncrementalMetadata}
      {t : SystemTime} :
      (id, metadata) ∈ backups → metadata.incremental = some incremental →
      incremental.parentBackupId = U.toText parent → HangsOn backups parent t →
      HangsOn backups id t

/-- Every incremental backup hangs on a completed full one. -/
def Chained (s : BackupsDir Uuid) : Prop :=
  ∀ id metadata, (id, metadata) ∈ s.backups → metadata.backupStrategy = .incremental →
    ∃ t, HangsOn U s.backups id t

/-- No incremental backup is of a generation too high, and the full one it hangs on was
not too old when it started. -/
def WithinLimits (s : BackupsDir Uuid) : Prop :=
  ∀ id metadata, (id, metadata) ∈ s.backups → metadata.backupStrategy = .incremental →
    (∃ incremental, metadata.incremental = some incremental ∧
      incremental.incrementalGeneration ≤ maxIncrementalGeneration) ∧
    ∃ t, HangsOn U s.backups id t ∧ metadata.startedAt ≤ t + maxIncrementalAge

/-! ## The invariant -/

/-- What a record says of its backup is so. -/
def Recorded (backups : List (Uuid × BackupMetadata)) (metadata : BackupMetadata) : Prop :=
  metadata.backupStrategy = .full ∧ metadata.incremental = none ∨
    metadata.backupStrategy = .incremental ∧ ∃ incremental parent,
      metadata.incremental = some incremental ∧ incremental.parentBackupId = U.toText parent ∧
      HangsOn U backups parent incremental.fullBackupCompletedAt

structure SoundRecords (s : BackupsDir Uuid) : Prop where
  nodup : (s.backups.map Prod.fst).Nodup
  completed : ∀ id metadata, (id, metadata) ∈ s.backups → metadata.completedAt.isSome
  recorded : ∀ id metadata, (id, metadata) ∈ s.backups → Recorded U s.backups metadata

variable {U} {backups : List (Uuid × BackupMetadata)}

theorem HangsOn.mono {added : List (Uuid × BackupMetadata)} {id : Uuid} {t : SystemTime}
    (h : HangsOn U backups id t) : HangsOn U (backups ++ added) id t := by
  induction h with
  | full hmem hstrategy hincremental hcompleted =>
      exact .full (List.mem_append_left _ hmem) hstrategy hincremental hcompleted
  | incremental hmem hincremental hparent _ ih =>
      exact .incremental (List.mem_append_left _ hmem) hincremental hparent ih

theorem UuidText.toText_injective {id id' : Uuid} (h : U.toText id = U.toText id') : id = id' :=
  U.targetName_injective h

/-- The chain is determined by the backup. -/
theorem HangsOn.unique (hnodup : (backups.map Prod.fst).Nodup) {id : Uuid} {t t' : SystemTime}
    (h : HangsOn U backups id t) (h' : HangsOn U backups id t') : t = t' := by
  have hsame : ∀ {id metadata metadata'}, (id, metadata) ∈ backups → (id, metadata') ∈ backups →
      metadata = metadata' := by
    intro id metadata metadata' hmem hmem'
    exact congrArg Prod.snd (List.inj_on_of_nodup_map hnodup hmem hmem' rfl)
  induction h with
  | full hmem _ hincremental hcompleted =>
      cases h' with
      | full hmem' _ _ hcompleted' =>
          rw [hsame hmem hmem'] at hcompleted
          exact Option.some.inj (hcompleted.symm.trans hcompleted')
      | incremental hmem' hincremental' _ _ =>
          rw [hsame hmem hmem', hincremental'] at hincremental
          cases hincremental
  | incremental hmem hincremental hparent _ ih =>
      cases h' with
      | full hmem' _ hincremental' _ =>
          rw [hsame hmem hmem', hincremental'] at hincremental
          cases hincremental
      | incremental hmem' hincremental' hparent' hchain' =>
          rw [hsame hmem hmem', hincremental'] at hincremental
          cases hincremental
          obtain rfl := UuidText.toText_injective (hparent.symm.trans hparent')
          exact ih hchain'

theorem Recorded.mono {added : List (Uuid × BackupMetadata)} {metadata : BackupMetadata}
    (h : Recorded U backups metadata) : Recorded U (backups ++ added) metadata :=
  h.imp_right fun ⟨hstrategy, incremental, parent, hincremental, hparent, hchain⟩ =>
    ⟨hstrategy, incremental, parent, hincremental, hparent, hchain.mono⟩

/-- A recorded backup hangs on the full one that its record dates. -/
theorem Recorded.hangsOn {id : Uuid} {metadata : BackupMetadata}
    {incremental : IncrementalMetadata} (h : Recorded U backups metadata)
    (hmem : (id, metadata) ∈ backups) (hincremental : metadata.incremental = some incremental) :
    metadata.backupStrategy = .incremental ∧
      HangsOn U backups id incremental.fullBackupCompletedAt := by
  rcases h with ⟨-, hnone⟩ | ⟨hstrategy, incremental', parent, hincremental', hparent, hchain⟩
  · rw [hnone] at hincremental
    cases hincremental
  · obtain rfl := Option.some.inj (hincremental.symm.trans hincremental')
    exact ⟨hstrategy, .incremental hmem hincremental hparent hchain⟩

theorem SoundRecords.chained {s : BackupsDir Uuid} (h : SoundRecords U s) : Chained U s := by
  intro id metadata hmem hstrategy
  rcases h.recorded id metadata hmem with ⟨hfull, -⟩ | ⟨-, incremental, parent, hincremental, -⟩
  · rw [hfull] at hstrategy
    cases hstrategy
  · exact ⟨_, ((h.recorded id metadata hmem).hangsOn hmem hincremental).2⟩

/-- The record is within the limits, by what it says itself. -/
def RecordWithin (metadata : BackupMetadata) : Prop :=
  ∀ incremental, metadata.incremental = some incremental →
    incremental.incrementalGeneration ≤ maxIncrementalGeneration ∧
      metadata.startedAt ≤ incremental.fullBackupCompletedAt + maxIncrementalAge

theorem SoundRecords.withinLimits_iff {s : BackupsDir Uuid} (h : SoundRecords U s) :
    WithinLimits U s ↔ ∀ id metadata, (id, metadata) ∈ s.backups → RecordWithin metadata := by
  constructor
  · intro hwithin id metadata hmem incremental hincremental
    obtain ⟨hstrategy, hchain⟩ := (h.recorded id metadata hmem).hangsOn hmem hincremental
    obtain ⟨⟨incremental', hincremental', hgeneration⟩, t, ht, hage⟩ :=
      hwithin id metadata hmem hstrategy
    obtain rfl := Option.some.inj (hincremental.symm.trans hincremental')
    obtain rfl := hchain.unique h.nodup ht
    exact ⟨hgeneration, hage⟩
  · intro hwithin id metadata hmem hstrategy
    rcases h.recorded id metadata hmem with ⟨hfull, -⟩ | ⟨-, incremental, parent, hincremental, -⟩
    · rw [hfull] at hstrategy
      cases hstrategy
    · obtain ⟨hgeneration, hage⟩ := hwithin id metadata hmem incremental hincremental
      exact ⟨⟨incremental, hincremental, hgeneration⟩, _,
        ((h.recorded id metadata hmem).hangsOn hmem hincremental).2, hage⟩

/-! ## One backup -/

/-- The parent is at a limit: of the highest generation, or its full backup is too old at
the start. The check does not see the latter where the parent is that backup itself, or
where the clock is set back between the two. -/
def AtLimit (startedAt : SystemTime) (parent : BackupMetadata) : Prop :=
  match parent.incremental with
  | some incremental => incremental.incrementalGeneration = maxIncrementalGeneration ∨
      incremental.fullBackupCompletedAt + maxIncrementalAge < startedAt
  | none => ∃ t ∈ parent.completedAt, t + maxIncrementalAge < startedAt

variable [LinearOrder Uuid] [OrderBot Uuid]

/-- The step completes an incremental backup with this parent. -/
structure CompletesOn (s : BackupsDir Uuid) (a : Attempt Uuid) (parent : ParentRecord Uuid) :
    Prop where
  renamed : a.ending ≠ .failed
  succeeds : a.incrementalSucceeds = true
  free : s.backups.lookup a.id = none
  parent : incrementalParent s .auto a.checkedAt = .ok (some parent)

/-- The step completes an incremental backup whose parent is at a limit. -/
def Overlooked (s : BackupsDir Uuid) (a : Attempt Uuid) : Prop :=
  ∃ parent, CompletesOn s a parent ∧ AtLimit a.startedAt parent.2

omit [OrderBot Uuid] in
theorem mem_of_record {s : BackupsDir Uuid} {now : SystemTime} {id : Uuid}
    {record : ParentRecord Uuid} (h : s.record now id = .ok record) : record ∈ s.backups := by
  rw [BackupsDir.record, BackupsDir.backupJson] at h
  cases hlookup : s.backups.lookup id with
  | none =>
      rw [hlookup] at h
      cases h
  | some metadata =>
      rw [hlookup, Option.map_some, BackupMetadata.fromFile] at h
      split at h
      · cases h
      · cases h
        obtain ⟨front, back, heq, -⟩ := List.lookup_eq_some_iff.mp hlookup
        rw [heq]
        exact List.mem_append_right _ List.mem_cons_self

omit [LinearOrder Uuid] [OrderBot Uuid] in
/-- What the `Auto` strategy keeps is completed, and its own record within the limits. -/
theorem autoParent_eq_some {now : SystemTime} {record : Option (ParentRecord Uuid)}
    {parent : ParentRecord Uuid} (h : autoParent now record = some parent) :
    record = some parent ∧ parent.2.completedAt.isSome ∧
      ∀ incremental, parent.2.incremental = some incremental →
        incremental.incrementalGeneration ≤ maxIncrementalGeneration := by
  cases record with
  | none => cases h
  | some found =>
      rw [autoParent] at h
      by_cases hnone : found.2.completedAt.isNone
      · rw [if_pos hnone] at h
        cases h
      rw [if_neg hnone] at h
      have hcompleted : found.2.completedAt.isSome := by
        rwa [Bool.not_eq_true, Option.isNone_eq_false_iff] at hnone
      cases hincremental : found.2.incremental with
      | none =>
          rw [hincremental] at h
          cases h
          exact ⟨rfl, hcompleted, fun incremental heq => by rw [hincremental] at heq; cases heq⟩
      | some incremental =>
          simp only [hincremental] at h
          split at h
          · cases h
          · next hcheck =>
            cases h
            refine ⟨rfl, hcompleted, fun incremental' heq => ?_⟩
            obtain rfl := Option.some.inj (hincremental.symm.trans heq)
            exact not_lt.mp fun hlt => hcheck (.inl hlt)

theorem incrementalParent_auto {s : BackupsDir Uuid} {now : SystemTime}
    {parent : ParentRecord Uuid} (h : incrementalParent s .auto now = .ok (some parent)) :
    parent ∈ s.backups ∧ parent.2.completedAt.isSome ∧
      ∀ incremental, parent.2.incremental = some incremental →
        incremental.incrementalGeneration ≤ maxIncrementalGeneration := by
  rw [incrementalParent, if_pos (.inr rfl)] at h
  obtain ⟨-, h⟩ := require_bind_eq_ok.mp h
  obtain ⟨record, hrecord, h⟩ := bind_eq_ok.mp h
  obtain ⟨rfl, hkept⟩ := autoParent_eq_some (Except.ok.inj h)
  refine ⟨?_, hkept⟩
  cases hlatest : s.latestId now with
  | none =>
      rw [hlatest, recordOf] at hrecord
      cases hrecord
  | some id =>
      rw [hlatest, recordOf, mapError_eq_ok] at hrecord
      cases hfound : s.record now id with
      | error e =>
          rw [hfound] at hrecord
          cases hrecord
      | ok found =>
          rw [hfound] at hrecord
          cases hrecord
          exact mem_of_record hfound

omit [LinearOrder Uuid] [OrderBot Uuid] in
/-- The record of an incremental backup is within the limits unless its parent is at one. -/
theorem recordWithin_iff {parent : ParentRecord Uuid} {incremental : IncrementalMetadata}
    {metadata : BackupMetadata}
    (hgeneration : ∀ incremental, parent.2.incremental = some incremental →
      incremental.incrementalGeneration ≤ maxIncrementalGeneration)
    (hrecord : incrementalMetadata U parent = some incremental)
    (hmetadata : metadata.incremental = some incremental) :
    RecordWithin metadata ↔ ¬ AtLimit metadata.startedAt parent.2 := by
  obtain ⟨t, ht, rfl⟩ := Option.map_eq_some_iff.mp hrecord
  have hwithin : RecordWithin metadata ↔
      (parent.2.incremental.map IncrementalMetadata.incrementalGeneration).getD 0 + 1 ≤
          maxIncrementalGeneration ∧
        metadata.startedAt ≤
          (parent.2.incremental.map IncrementalMetadata.fullBackupCompletedAt).getD t +
            maxIncrementalAge := by
    rw [RecordWithin, hmetadata]
    exact ⟨fun h => h _ rfl, fun h incremental heq => Option.some.inj heq ▸ h⟩
  rw [hwithin, AtLimit]
  cases hincremental : parent.2.incremental with
  | none =>
      rw [Option.map_none, Option.getD_none, Option.map_none, Option.getD_none, ht]
      simp [maxIncrementalGeneration]
  | some i =>
      have hle := hgeneration i hincremental
      show i.incrementalGeneration + 1 ≤ _ ∧ _ ≤ i.fullBackupCompletedAt + _ ↔ _
      rw [not_or, not_lt, Nat.add_one_le_iff]
      exact and_congr_left' ⟨ne_of_lt, lt_of_le_of_ne hle⟩

/-- The metadata of a completed backup. -/
def fullMetadata (a : Attempt Uuid) : BackupMetadata :=
  (BackupMetadata.starting a.startedAt a.ourPid a.serverVersion).completed a.completedAt a.size

def childMetadata (a : Attempt Uuid) (incremental : IncrementalMetadata) : BackupMetadata :=
  { fullMetadata a with
    backupStrategy := .incremental
    incremental := some incremental }

omit [OrderBot Uuid] in
/-- A finished backup is there, unless it fails or its name is taken. -/
theorem finish_cases (s : BackupsDir Uuid) (a : Attempt Uuid) (metadata : BackupMetadata) :
    (finish s a metadata = s ∧ ¬ (a.ending ≠ .failed ∧ s.backups.lookup a.id = none)) ∨
      a.ending ≠ .failed ∧ s.backups.lookup a.id = none ∧
        (finish s a metadata).backups =
          s.backups ++ [(a.id, metadata.completed a.completedAt a.size)] := by
  rw [finish]
  cases hending : a.ending with
  | failed => exact .inl ⟨rfl, fun h => h.1 rfl⟩
  | renamed latest =>
      show (s.rename a.id _ latest = s ∧ _) ∨ _ ∧ _ ∧ (s.rename a.id _ latest).backups = _
      rw [BackupsDir.rename]
      cases hlookup : s.backups.lookup a.id with
      | some taken =>
          refine .inl ⟨rfl, fun h => ?_⟩
          cases h.2
      | none => exact .inr ⟨fun h => (by cases h), rfl, rfl⟩

theorem backup_of_base {s : BackupsDir Uuid} {a : Attempt Uuid} {record : Option (ParentRecord Uuid)}
    {metadata : BackupMetadata} (hrecord : incrementalParent s .auto a.checkedAt = .ok record)
    (hbase : baseMetadata U a record = some metadata) :
    backup U .auto s a = finish s a metadata := by
  rw [backup, hrecord]
  simp only [hbase]

/-- What one automatic backup does: nothing, or it adds a full backup, or an incremental one. -/
theorem backup_cases (s : BackupsDir Uuid) (a : Attempt Uuid) :
    ((backup U .auto s a).backups = s.backups ∧ ∀ parent, ¬ CompletesOn s a parent) ∨
      ((backup U .auto s a).backups = s.backups ++ [(a.id, fullMetadata a)] ∧
        s.backups.lookup a.id = none ∧ ∀ parent, ¬ CompletesOn s a parent) ∨
      ∃ parent incremental, CompletesOn s a parent ∧
        incrementalMetadata U parent = some incremental ∧
        (backup U .auto s a).backups = s.backups ++ [(a.id, childMetadata a incremental)] := by
  have hfull : (∀ parent, ¬ CompletesOn s a parent) → backup U .auto s a =
      finish s a (.starting a.startedAt a.ourPid a.serverVersion) →
      ((backup U .auto s a).backups = s.backups ∧ ∀ parent, ¬ CompletesOn s a parent) ∨
        ((backup U .auto s a).backups = s.backups ++ [(a.id, fullMetadata a)] ∧
          s.backups.lookup a.id = none ∧ ∀ parent, ¬ CompletesOn s a parent) := by
    intro hnot heq
    rw [heq]
    rcases finish_cases s a (.starting a.startedAt a.ourPid a.serverVersion) with
      ⟨hsame, -⟩ | ⟨-, hfree, hadded⟩
    · exact .inl ⟨congrArg _ hsame, hnot⟩
    · exact .inr ⟨hadded, hfree, hnot⟩
  cases hrecord : incrementalParent s .auto a.checkedAt with
  | error e =>
      refine .inl ⟨by rw [backup, hrecord], fun parent h => ?_⟩
      rw [h.parent] at hrecord
      cases hrecord
  | ok record =>
      cases record with
      | none =>
          rw [← or_assoc]
          refine .inl (hfull (fun parent h => ?_) (by rw [backup, hrecord]; rfl))
          rw [h.parent] at hrecord
          cases hrecord
      | some parent =>
          by_cases hsucceeds : a.incrementalSucceeds = true
          · obtain ⟨t, ht⟩ := Option.isSome_iff_exists.mp (incrementalParent_auto hrecord).2.1
            have hchild : ∃ incremental, incrementalMetadata U parent = some incremental := by
              rw [incrementalMetadata, ht]
              exact ⟨_, rfl⟩
            obtain ⟨incremental, hincremental⟩ := hchild
            have hbackup : backup U .auto s a = finish s a
                { BackupMetadata.starting a.startedAt a.ourPid a.serverVersion with
                  backupStrategy := .incremental
                  incremental := some incremental } := by
              apply backup_of_base hrecord
              rw [baseMetadata, if_pos hsucceeds, hincremental]
              rfl
            rw [hbackup]
            rcases finish_cases s a _ with ⟨hsame, hnot⟩ | ⟨hrenamed, hfree, hadded⟩
            · exact .inl ⟨congrArg _ hsame, fun parent h => hnot ⟨h.renamed, h.free⟩⟩
            · exact .inr (.inr ⟨parent, incremental, ⟨hrenamed, hsucceeds, hfree, hrecord⟩,
                hincremental, hadded⟩)
          · rw [← or_assoc]
            refine .inl (hfull (fun parent h => hsucceeds h.succeeds) ?_)
            apply backup_of_base hrecord
            rw [baseMetadata, if_neg hsucceeds]
            rfl

/-! ## The run -/

omit [OrderBot Uuid] in
theorem notMem_of_lookup_eq_none {id : Uuid} (h : backups.lookup id = none) :
    id ∉ backups.map Prod.fst := by
  intro hmem
  obtain ⟨entry, hentry, rfl⟩ := List.mem_map.mp hmem
  have hne := List.lookup_eq_none_iff.mp h entry hentry
  exact absurd rfl (bne_iff_ne.mp hne)

omit [OrderBot Uuid] in
theorem SoundRecords.append {s s' : BackupsDir Uuid} {id : Uuid} {metadata : BackupMetadata}
    (h : SoundRecords U s) (hfree : s.backups.lookup id = none)
    (hbackups : s'.backups = s.backups ++ [(id, metadata)])
    (hcompleted : metadata.completedAt.isSome) (hrecorded : Recorded U s.backups metadata) :
    SoundRecords U s' := by
  have hmem : ∀ {id' metadata'}, (id', metadata') ∈ s'.backups →
      (id', metadata') ∈ s.backups ∨ metadata' = metadata := by
    intro id' metadata' hin
    rw [hbackups] at hin
    exact (List.mem_append.mp hin).imp_right fun hin => congrArg Prod.snd (List.mem_singleton.mp hin)
  constructor
  · rw [hbackups, List.map_append, List.map_singleton]
    exact List.concat_eq_append ▸ h.nodup.concat (notMem_of_lookup_eq_none hfree)
  · intro id' metadata' hin
    rcases hmem hin with hin | rfl
    · exact h.completed id' metadata' hin
    · exact hcompleted
  · intro id' metadata' hin
    rw [hbackups]
    rcases hmem hin with hin | rfl
    · exact (h.recorded id' metadata' hin).mono
    · exact hrecorded.mono

omit [LinearOrder Uuid] [OrderBot Uuid] in
theorem recorded_childMetadata {s : BackupsDir Uuid} (h : SoundRecords U s) {a : Attempt Uuid}
    {parent : ParentRecord Uuid} {incremental : IncrementalMetadata}
    (hmem : parent ∈ s.backups) (hincremental : incrementalMetadata U parent = some incremental) :
    Recorded U s.backups (childMetadata a incremental) := by
  obtain ⟨t, ht, rfl⟩ := Option.map_eq_some_iff.mp hincremental
  refine .inr ⟨rfl, _, parent.1, rfl, rfl, ?_⟩
  show HangsOn U s.backups parent.1
    ((parent.2.incremental.map IncrementalMetadata.fullBackupCompletedAt).getD t)
  have hrecorded := h.recorded parent.1 parent.2 hmem
  cases hparent : parent.2.incremental with
  | none =>
      rcases hrecorded with ⟨hfull, -⟩ | ⟨-, i, -, hi, -⟩
      · exact .full hmem hfull hparent ht
      · rw [hparent] at hi
        cases hi
  | some i => exact (hrecorded.hangsOn hmem hparent).2

omit [LinearOrder Uuid] [OrderBot Uuid] in
theorem forall_recordWithin_append {id : Uuid} {metadata : BackupMetadata} :
    (∀ id' metadata', (id', metadata') ∈ backups ++ [(id, metadata)] → RecordWithin metadata') ↔
      (∀ id' metadata', (id', metadata') ∈ backups → RecordWithin metadata') ∧
        RecordWithin metadata := by
  constructor
  · exact fun h => ⟨fun id' metadata' hmem => h id' metadata' (List.mem_append_left _ hmem),
      h id metadata (List.mem_append_right _ List.mem_cons_self)⟩
  · rintro ⟨hold, hnew⟩ id' metadata' hmem
    rcases List.mem_append.mp hmem with hmem | hmem
    · exact hold id' metadata' hmem
    · obtain rfl : metadata' = metadata := congrArg Prod.snd (List.mem_singleton.mp hmem)
      exact hnew

/-- One backup keeps the records sound, and the limits unless it is overlooked. -/
theorem backup_step {s : BackupsDir Uuid} (h : SoundRecords U s) (a : Attempt Uuid) :
    SoundRecords U (backup U .auto s a) ∧
      (WithinLimits U (backup U .auto s a) ↔ WithinLimits U s ∧ ¬ Overlooked s a) := by
  rcases backup_cases (U := U) s a with ⟨hbackups, hnot⟩ | ⟨hbackups, hfree, hnot⟩ |
    ⟨parent, incremental, hcompletes, hincremental, hbackups⟩
  · have hsound : SoundRecords U (backup U .auto s a) :=
      ⟨hbackups ▸ h.nodup, hbackups ▸ h.completed, hbackups ▸ h.recorded⟩
    refine ⟨hsound, ?_⟩
    rw [hsound.withinLimits_iff, h.withinLimits_iff, hbackups]
    exact (and_iff_left fun ⟨parent, hparent, _⟩ => hnot parent hparent).symm
  · have hsound := h.append hfree hbackups rfl (.inl ⟨rfl, rfl⟩)
    refine ⟨hsound, ?_⟩
    rw [hsound.withinLimits_iff, h.withinLimits_iff, hbackups, forall_recordWithin_append]
    refine and_congr_right' (iff_of_true (fun incremental hnone => ?_) ?_)
    · cases hnone
    · exact fun ⟨parent, hparent, _⟩ => hnot parent hparent
  · obtain ⟨hmem, -, hgeneration⟩ := incrementalParent_auto hcompletes.parent
    have hsound := h.append hcompletes.free hbackups rfl (recorded_childMetadata h hmem hincremental)
    refine ⟨hsound, ?_⟩
    rw [hsound.withinLimits_iff, h.withinLimits_iff, hbackups, forall_recordWithin_append]
    refine and_congr_right' ((recordWithin_iff hgeneration hincremental rfl).trans (not_congr ?_))
    constructor
    · exact fun hlimit => ⟨parent, hcompletes, hlimit⟩
    · rintro ⟨parent', hparent', hlimit⟩
      have hsame := hparent'.parent.symm.trans hcompletes.parent
      rw [Except.ok.injEq, Option.some.injEq] at hsame
      exact hsame ▸ hlimit

/-! ## The run -/

variable (U)

/-- The backups of an instance after these automatic ones. -/
def runAuto (attempts : List (Attempt Uuid)) : BackupsDir Uuid :=
  attempts.foldl (backup U .auto) ⟨[], none⟩

variable {U}

theorem runAuto_append (attempts : List (Attempt Uuid)) (a : Attempt Uuid) :
    runAuto U (attempts ++ [a]) = backup U .auto (runAuto U attempts) a := by
  rw [runAuto, List.foldl_append]
  rfl

theorem sound_runAuto (attempts : List (Attempt Uuid)) : SoundRecords U (runAuto U attempts) := by
  induction attempts using List.reverseRecOn with
  | nil => exact ⟨List.nodup_nil, fun _ _ h => (by cases h), fun _ _ h => (by cases h)⟩
  | append_singleton attempts a ih =>
      rw [runAuto_append]
      exact (backup_step ih a).1

/-- **After every run of automatic backups the incremental ones hang on completed full
ones, and they are within the limits exactly if no step of the run was overlooked.** -/
theorem runAuto_withinLimits_iff (U : UuidText Uuid) (attempts : List (Attempt Uuid)) :
    Chained U (runAuto U attempts) ∧
      (WithinLimits U (runAuto U attempts) ↔
        ∀ before a, before ++ [a] <+: attempts → ¬ Overlooked (runAuto U before) a) := by
  refine ⟨(sound_runAuto attempts).chained, ?_⟩
  induction attempts using List.reverseRecOn with
  | nil =>
      refine iff_of_true (fun _ _ h => (by cases h)) fun before a h => ?_
      have hlength := h.length_le
      simp at hlength
  | append_singleton attempts a ih =>
      rw [runAuto_append, (backup_step (sound_runAuto attempts) a).2, ih]
      constructor
      · rintro ⟨hbefore, hlast⟩ before b h
        rcases List.prefix_concat_iff.mp h with heq | h
        · obtain ⟨rfl, hsame⟩ := List.append_inj' heq rfl
          rwa [List.singleton_inj.mp hsame]
        · exact hbefore before b h
      · intro h
        exact ⟨fun before b hbegins => h before b (hbegins.trans (List.prefix_append _ _)),
          h attempts a List.prefix_rfl⟩

/-! ## Two runs -/

namespace AutoExample

instance nilUuid : OrderBot (Fin 8) where
  bot := 0
  bot_le := Fin.zero_le

def idText (id : Fin 8) : Text :=
  if id = 0 then "00000000-0000-0000-0000-000000000000".toList
  else "0193b3c4-5d6e-7f80-9a1b-2c3d4e5f607".toList ++ [Nat.digitChar id]

/-- Eight UUIDs and their texts. -/
def uuidText : UuidText (Fin 8) where
  toText := idText
  parseStr text := (List.finRange 8).find? fun id => idText id = text
  parseStr_toText := by decide +kernel
  head_toText := by decide +kernel

/-- A backup that takes ten minutes. -/
def attempt (id : Fin 8) (hour : Nat) : Attempt (Fin 8) where
  id := id
  startedAt := 1767225600000000000 + Duration.fromSecs (hour * 3600)
  checkedAt := 1767225600000000000 + Duration.fromSecs (hour * 3600)
  completedAt := 1767225600000000000 + Duration.fromSecs (hour * 3600 + 600)
  ourPid := 4711
  serverVersion := "6.8".toList
  size := 50000000
  incrementalSucceeds := true
  ending := .renamed .updated

/-- One backup an hour. -/
def hourly : List (Attempt (Fin 8)) :=
  [attempt 1 0, attempt 2 1, attempt 3 2, attempt 4 3, attempt 5 4, attempt 6 5, attempt 7 6]

/-- The second backup is eight days after the first. -/
def late : List (Attempt (Fin 8)) := [attempt 1 0, attempt 2 192]

theorem not_withinLimits {attempts : List (Attempt (Fin 8))} {id : Fin 8}
    {metadata : BackupMetadata} (hmem : (id, metadata) ∈ (runAuto uuidText attempts).backups)
    (h : ¬ RecordWithin metadata) : ¬ WithinLimits uuidText (runAuto uuidText attempts) :=
  fun hwithin => h ((sound_runAuto attempts).withinLimits_iff.mp hwithin id metadata hmem)

end AutoExample

open AutoExample in
/-- The seventh backup is of generation six, and the late one hangs on a full backup that
is eight days old. -/
theorem not_withinLimits_hourly_late :
    ¬ WithinLimits uuidText (runAuto uuidText hourly) ∧
      ¬ WithinLimits uuidText (runAuto uuidText late) := by
  constructor
  · refine @not_withinLimits hourly 7 (childMetadata (attempt 7 6)
      ⟨idText 6, 6, (attempt 1 0).completedAt⟩) (by decide +kernel) fun h => ?_
    exact absurd (h _ rfl).1 (by decide)
  · refine @not_withinLimits late 2 (childMetadata (attempt 2 192)
      ⟨idText 1, 1, (attempt 1 0).completedAt⟩) (by decide +kernel) fun h => ?_
    exact absurd (h _ rfl).2 (by decide)

end GelCli.LocalBackup
