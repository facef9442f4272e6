import Mathlib.Data.List.Induction
import GelCli.Registry.Catalog

/-!
# Composition is conflict-safe

What the fold over the records leaves behind depends on the records only through
two questions: which record of an identity comes first, and whether two records
of an identity disagree. `Composed` is that invariant, `composeArtifact_composed`
keeps it for one record, and `assemble_conflictSafe` reads the laws of the whole
catalogue off it.
-/

namespace GelCli.Registry

open GelCli.Foundation

/-! ## Records -/

/-- A validated record with the index it comes from. -/
abbrev Record := Source × ValidatedArtifact

def Record.identity (r : Record) : ArtifactIdentity := r.2.identity

/-- What two records of one identity are compared on. -/
inductive Content where
  | server (size : Nat) (hash : List UInt8) (tags : Tags)
  | cli (size : Nat) (hash : List UInt8) (compression : Option Compression)
  | extension (size : Nat) (hash : List UInt8) (tags : Tags)

def content : ValidatedArtifact → Content
  | .server _ package => .server package.size package.hash package.tags
  | .cli _ package => .cli package.size package.hash package.compression
  | .extension _ package => .extension package.size package.hash package.tags

theorem differing_eq_nil {α : Type} [DecidableEq α] {field : String} {first later : α} :
    differing field first later = [] ↔ first = later := by
  unfold differing
  by_cases h : first = later <;> simp [h]

theorem compressionVariant_eq_iff {first later : CliPackage} :
    first.compressionVariant = later.compressionVariant ↔
      first.compression = later.compression := by
  unfold CliPackage.compressionVariant
  cases first.compression <;> cases later.compression <;> simp

/-- A mirror is equivalent when it agrees on the compared content. -/
theorem duplicateRelation_mirror_iff {first later : ValidatedArtifact} :
    duplicateRelation first later = .equivalentMirror ↔ content first = content later := by
  unfold duplicateRelation
  cases first <;> cases later <;>
    simp [duplicateFields, taggedFields, cliFields, differing_eq_nil, content,
      compressionVariant_eq_iff]

/-- Two records of the identity disagree. -/
def Contested (records : List Record) (id : ArtifactIdentity) : Prop :=
  ∃ r ∈ records, ∃ r' ∈ records, r.identity = id ∧ r'.identity = id ∧
    content r.2 ≠ content r'.2

def Published (records : List Record) (id : ArtifactIdentity) : Prop :=
  ∃ r ∈ records, r.identity = id

def firstRecord (records : List Record) (id : ArtifactIdentity) : Option Record :=
  records.find? fun r => decide (r.identity = id)

theorem firstRecord_identity {records : List Record} {id : ArtifactIdentity} {r : Record}
    (h : firstRecord records id = some r) : r ∈ records ∧ r.identity = id :=
  ⟨List.mem_of_find?_eq_some h, by simpa using List.find?_some h⟩

theorem firstRecord_isSome {records : List Record} {id : ArtifactIdentity} :
    (∃ r, firstRecord records id = some r) ↔ Published records id := by
  rw [← Option.isSome_iff_exists, firstRecord, List.find?_isSome]
  simp [Published]

theorem firstRecord_eq_none {records : List Record} {id : ArtifactIdentity} :
    firstRecord records id = none ↔ ¬ Published records id := by
  rw [← firstRecord_isSome, Option.eq_none_iff_forall_not_mem, not_exists]
  rfl

theorem firstRecord_snoc (records : List Record) (r : Record) (id : ArtifactIdentity) :
    firstRecord (records ++ [r]) id =
      (firstRecord records id).or (if r.identity = id then some r else none) := by
  unfold firstRecord
  rw [List.find?_append]
  by_cases h : r.identity = id <;> simp [h]

/-- One more record contests an identity when it disagrees with an earlier one. -/
theorem contested_snoc {records : List Record} {r : Record} {id : ArtifactIdentity} :
    Contested (records ++ [r]) id ↔ Contested records id ∨
      (r.identity = id ∧ ∃ r' ∈ records, r'.identity = id ∧ content r'.2 ≠ content r.2) := by
  constructor
  · rintro ⟨a, ha, b, hb, hai, hbi, hne⟩
    rcases List.mem_append.mp ha with ha' | ha' <;> rcases List.mem_append.mp hb with hb' | hb'
    · exact Or.inl ⟨a, ha', b, hb', hai, hbi, hne⟩
    · rw [List.mem_singleton.mp hb'] at hbi hne
      exact Or.inr ⟨hbi, a, ha', hai, hne⟩
    · rw [List.mem_singleton.mp ha'] at hai hne
      exact Or.inr ⟨hai, b, hb', hbi, hne.symm⟩
    · rw [List.mem_singleton.mp ha', List.mem_singleton.mp hb'] at hne
      exact absurd rfl hne
  · rintro (⟨a, ha, b, hb, hrest⟩ | ⟨hri, a, ha, hai, hne⟩)
    · exact ⟨a, List.mem_append_left _ ha, b, List.mem_append_left _ hb, hrest⟩
    · exact ⟨a, List.mem_append_left _ ha, r,
        List.mem_append_right _ (List.mem_singleton_self r), hai, hri, hne⟩

/-- Uncontested records of an identity all have the content of the first. -/
theorem content_eq_first {records : List Record} {id : ArtifactIdentity} {first r : Record}
    (h : ¬ Contested records id) (hfirst : firstRecord records id = some first)
    (hr : r ∈ records) (hid : r.identity = id) : content r.2 = content first.2 := by
  obtain ⟨hmem, hfid⟩ := firstRecord_identity hfirst
  by_contra hne
  exact h ⟨r, hr, first, hmem, hid, hfid, hne⟩

/-! ## The invariant -/

/-- The collections after `records` were composed. -/
structure Composed (records : List Record) (c : Composition) : Prop where
  /-- The artifacts are the first records of their identities. -/
  artifact : ∀ a ∈ c.artifacts, ∃ source, firstRecord records a.identity = some (source, a)
  nodup : (c.artifacts.map ValidatedArtifact.identity).Nodup
  seen_none : ∀ id, c.seen.get id = none → ¬ Published records id
  seen_some : ∀ id entry, c.seen.get id = some entry →
    ∃ a, c.artifacts[entry.artifactIndex]? = some a ∧
      firstRecord records id = some (entry.indexSource, a)
  contested : ∀ id, id ∈ c.contested ↔ Contested records id
  conflicts : ∀ id, (c.conflicts.map CatalogConflict.identity).count id =
    if id ∈ c.contested then 1 else 0

theorem Composed.empty : Composed [] Composition.empty where
  artifact := by simp [Composition.empty]
  nodup := List.nodup_nil
  seen_none := by simp [Published]
  seen_some := by simp [Composition.empty]
  contested := by simp [Composition.empty, Contested]
  conflicts := by simp [Composition.empty]

theorem published_snoc {records : List Record} {r : Record} {id : ArtifactIdentity} :
    Published (records ++ [r]) id ↔ Published records id ∨ r.identity = id := by
  simp [Published, or_and_right, exists_or]

/-- A record that leaves the artifacts as they are. -/
theorem Composed.keep {records : List Record} {c : Composition} {r : Record}
    (h : Composed records c) (hpublished : Published records r.identity)
    {contested : Finset ArtifactIdentity} {conflicts : List CatalogConflict}
    (hcontested : ∀ id, id ∈ contested ↔ Contested (records ++ [r]) id)
    (hconflicts : ∀ id, (conflicts.map CatalogConflict.identity).count id =
      if id ∈ contested then 1 else 0) :
    Composed (records ++ [r]) { c with contested := contested, conflicts := conflicts } where
  artifact := by
    intro a ha
    obtain ⟨source, hfirst⟩ := h.artifact a ha
    exact ⟨source, by rw [firstRecord_snoc, hfirst]; rfl⟩
  nodup := h.nodup
  seen_none := by
    intro id hnone hpub
    rcases published_snoc.mp hpub with hpub | rfl
    · exact h.seen_none id hnone hpub
    · exact h.seen_none _ hnone hpublished
  seen_some := by
    intro id entry hsome
    obtain ⟨a, ha, hfirst⟩ := h.seen_some id entry hsome
    exact ⟨a, ha, by rw [firstRecord_snoc, hfirst]; rfl⟩
  contested := hcontested
  conflicts := hconflicts

/-- The record that opens its identity. -/
theorem Composed.first {records : List Record} {c : Composition} {r : Record}
    (h : Composed records c) (hnone : c.seen.get r.identity = none) :
    Composed (records ++ [r]) { c with
      seen := c.seen.insert r.identity ⟨c.artifacts.length, r.1⟩
      artifacts := c.artifacts ++ [r.2] } where
  artifact := by
    intro a ha
    rcases List.mem_append.mp ha with ha | ha
    · obtain ⟨source, hfirst⟩ := h.artifact a ha
      exact ⟨source, by rw [firstRecord_snoc, hfirst]; rfl⟩
    · obtain rfl := List.mem_singleton.mp ha
      refine ⟨r.1, ?_⟩
      have hopen := firstRecord_eq_none.mpr (h.seen_none _ hnone)
      rw [firstRecord_snoc, if_pos (by rfl)]
      exact (congrArg (·.or (some r)) hopen).trans rfl
  nodup := by
    rw [List.map_append, List.map_singleton, List.nodup_append]
    refine ⟨h.nodup, List.nodup_singleton _, ?_⟩
    rintro _ ha _ hb rfl
    rw [List.mem_singleton] at hb
    obtain ⟨a, hmem, hid⟩ := List.mem_map.mp ha
    obtain ⟨source, hfirst⟩ := h.artifact a hmem
    -- an artifact of this identity would have been filed under it
    exact h.seen_none _ hnone (firstRecord_isSome.mp ⟨_, (hid.trans hb) ▸ hfirst⟩)
  seen_none := by
    intro id hget hpub
    rw [HashMap.get_insert] at hget
    split at hget
    · cases hget
    · next hne =>
      rcases published_snoc.mp hpub with hpub | heq
      · exact h.seen_none id hget hpub
      · exact hne heq.symm
  seen_some := by
    intro id entry hget
    rw [HashMap.get_insert] at hget
    split at hget
    · next heq =>
      obtain rfl := Option.some.inj hget
      refine ⟨r.2, by simp, ?_⟩
      rw [firstRecord_snoc, heq, if_pos rfl,
        firstRecord_eq_none.mpr (h.seen_none _ hnone)]
      rfl
    · obtain ⟨a, ha, hfirst⟩ := h.seen_some id entry hget
      refine ⟨a, ?_, by rw [firstRecord_snoc, hfirst]; rfl⟩
      obtain ⟨hlt, _⟩ := List.getElem?_eq_some_iff.mp ha
      rw [← ha]
      exact List.getElem?_append_left hlt
  contested := by
    intro id
    rw [h.contested, contested_snoc]
    refine ⟨Or.inl, ?_⟩
    rintro (hc | ⟨hid, r', hr', hid', _⟩)
    · exact hc
    · exact absurd ⟨r', hr', hid'.trans hid.symm⟩ (h.seen_none _ hnone)
  conflicts := h.conflicts

/-- **One record keeps the invariant**, and never panics. -/
theorem composeArtifact_composed {records : List Record} {c : Composition}
    (h : Composed records c) (r : Record) :
    ∃ c', composeArtifact c r.1 r.2 = some c' ∧ Composed (records ++ [r]) c' := by
  by_cases hcontested : r.2.identity ∈ c.contested
  · refine ⟨c, by rw [composeArtifact, if_pos hcontested], ?_⟩
    have hc := (h.contested _).mp hcontested
    obtain ⟨r', hr', _, _, hid, _⟩ := id hc
    refine h.keep ⟨r', hr', hid⟩ (fun id => ?_) h.conflicts
    rw [h.contested, contested_snoc]
    refine ⟨Or.inl, ?_⟩
    rintro (hc' | ⟨rfl, _⟩)
    · exact hc'
    · exact hc
  · cases hseen : c.seen.get r.2.identity with
    | none =>
        refine ⟨_, ?_, h.first hseen⟩
        simp only [composeArtifact, if_neg hcontested, hseen]
        rfl
    | some entry =>
        obtain ⟨first, hfirst, hrecord⟩ := h.seen_some _ _ hseen
        have hpub := firstRecord_isSome.mp ⟨_, hrecord⟩
        have hnot : ¬ Contested records r.identity :=
          fun hc => hcontested ((h.contested _).mpr hc)
        cases hrel : duplicateRelation first r.2 with
        | equivalentMirror =>
            refine ⟨c, by simp only [composeArtifact, if_neg hcontested, hseen, hfirst, hrel], ?_⟩
            refine h.keep hpub (fun id => ?_) h.conflicts
            rw [h.contested, contested_snoc]
            refine ⟨Or.inl, ?_⟩
            rintro (hc | ⟨rfl, r', hr', hid', hne⟩)
            · exact hc
            · exact absurd ((content_eq_first hnot hrecord hr' hid').trans
                (duplicateRelation_mirror_iff.mp hrel)) hne
        | conflict fields =>
            refine ⟨_, by simp only [composeArtifact, if_neg hcontested, hseen, hfirst, hrel]; rfl,
              h.keep hpub (fun id => ?_) (fun id => ?_)⟩
            · obtain ⟨hmem, hid⟩ := firstRecord_identity hrecord
              have hne : content first ≠ content r.2 := by
                intro heq
                rw [duplicateRelation_mirror_iff.mpr heq] at hrel
                cases hrel
              rw [Finset.mem_insert, h.contested, contested_snoc, or_comm]
              refine or_congr_right ⟨?_, fun hr => hr.1.symm⟩
              rintro rfl
              exact ⟨rfl, _, hmem, hid, hne⟩
            · have hcount := h.conflicts id
              rw [List.map_append, List.count_append, hcount]
              by_cases hid : id = r.2.identity
              · subst hid
                simp [hcontested]
              · simp [hid, Ne.symm hid]

/-- **All records of a source keep the invariant.** -/
theorem composeSourceArtifacts_composed {records : List Record} {c : Composition}
    (h : Composed records c) (sourceArtifacts : List Record) :
    ∃ c', composeSourceArtifacts c sourceArtifacts = some c' ∧
      Composed (records ++ sourceArtifacts) c' := by
  induction sourceArtifacts generalizing records c with
  | nil => exact ⟨c, rfl, by rwa [List.append_nil]⟩
  | cons r rest ih =>
      obtain ⟨c₁, hstep, h₁⟩ := composeArtifact_composed h r
      obtain ⟨c₂, hrest, h₂⟩ := ih h₁
      refine ⟨c₂, ?_, by rwa [List.append_assoc] at h₂⟩
      rw [composeSourceArtifacts, List.foldlM_cons, hstep]
      exact hrest

/-! ## The whole catalogue -/

namespace ConfiguredSourceOutcome

/-- The records a source contributes. -/
def records : ConfiguredSourceOutcome → List Record
  | healthy _ _ artifacts => artifacts
  | _ => []

def isHealthy : ConfiguredSourceOutcome → Bool
  | healthy _ _ _ => true
  | _ => false

def report : ConfiguredSourceOutcome → SourceReport
  | healthy source selectedIndexes artifacts => .healthy source selectedIndexes artifacts.length
  | unavailable source error => .unavailable source error
  | rejected source error => .rejected source error

end ConfiguredSourceOutcome

def healthyRecords (outcomes : List ConfiguredSourceOutcome) : List Record :=
  outcomes.flatMap ConfiguredSourceOutcome.records

/-- The loop over the accumulators after `outcomes`. -/
structure Assembled (outcomes : List ConfiguredSourceOutcome) (a : Assembly) : Prop where
  composed : Composed (healthyRecords outcomes) a.composition
  healthySources : a.healthySources = outcomes.countP ConfiguredSourceOutcome.isHealthy
  sourceReports : a.sourceReports = outcomes.map ConfiguredSourceOutcome.report

theorem Assembly.add_assembled {outcomes : List ConfiguredSourceOutcome} {a : Assembly}
    (h : Assembled outcomes a) (outcome : ConfiguredSourceOutcome) :
    ∃ a', a.add outcome = some a' ∧ Assembled (outcomes ++ [outcome]) a' := by
  have hrecords : healthyRecords (outcomes ++ [outcome]) =
      healthyRecords outcomes ++ outcome.records := by
    simp [healthyRecords]
  cases outcome with
  | healthy source selectedIndexes artifacts =>
      obtain ⟨c, hc, hcomposed⟩ := composeSourceArtifacts_composed h.composed artifacts
      refine ⟨_, by simp only [Assembly.add, hc, Option.map_some]; rfl, ?_, ?_, ?_⟩
      · rw [hrecords]
        exact hcomposed
      · simp [List.countP_append, h.healthySources, ConfiguredSourceOutcome.isHealthy]
      · simp [h.sourceReports, ConfiguredSourceOutcome.report]
  | unavailable source error | rejected source error =>
      refine ⟨_, rfl, ?_, ?_, ?_⟩
      · rw [hrecords]
        exact (List.append_nil _).symm ▸ h.composed
      · simp [List.countP_append, h.healthySources, ConfiguredSourceOutcome.isHealthy]
      · simp [h.sourceReports, ConfiguredSourceOutcome.report]

theorem foldlM_add_assembled {before : List ConfiguredSourceOutcome} {a : Assembly}
    (h : Assembled before a) (outcomes : List ConfiguredSourceOutcome) :
    ∃ a', outcomes.foldlM Assembly.add a = some a' ∧ Assembled (before ++ outcomes) a' := by
  induction outcomes generalizing before a with
  | nil => exact ⟨a, rfl, by rwa [List.append_nil]⟩
  | cons outcome rest ih =>
      obtain ⟨a₁, hstep, h₁⟩ := Assembly.add_assembled h outcome
      obtain ⟨a₂, hrest, h₂⟩ := ih h₁
      refine ⟨a₂, ?_, by rwa [List.append_assoc] at h₂⟩
      rw [List.foldlM_cons, hstep]
      exact hrest

/-- **`assemble` never panics**, and its result is the end of an assembled loop. -/
theorem assemble_eq (outcomes : List ConfiguredSourceOutcome) :
    ∃ a, assemble outcomes = some a.finish ∧ Assembled outcomes a := by
  have hempty : Assembled [] Assembly.empty := ⟨Composed.empty, rfl, rfl⟩
  obtain ⟨a, hfold, h⟩ := foldlM_add_assembled hempty outcomes
  exact ⟨a, by rw [assemble, hfold, Option.map_some], h⟩

/-! ## The laws of the catalogue -/

def Retained (load : CatalogLoad) (id : ArtifactIdentity) : Prop :=
  ∃ a ∈ load.artifacts, a.identity = id

def Reported (load : CatalogLoad) (id : ArtifactIdentity) : Prop :=
  ∃ conflict ∈ load.conflicts, conflict.identity = id

/-- What a catalogue owes to the records of its healthy sources. -/
structure ConflictSafe (records : List Record) (load : CatalogLoad) : Prop where
  /-- At most one artifact for an identity. -/
  nodup : (load.artifacts.map ValidatedArtifact.identity).Nodup
  /-- Nothing is made up. -/
  published : ∀ id, Retained load id → Published records id
  absent_iff : ∀ id, Published records id → (¬ Retained load id ↔ Contested records id)
  /-- One conflict for a contested identity, none for another. -/
  conflicts : ∀ id, (Contested records id →
      (load.conflicts.map CatalogConflict.identity).count id = 1) ∧
    (¬ Contested records id → (load.conflicts.map CatalogConflict.identity).count id = 0)
  /-- An uncontested identity keeps its first record. -/
  first : ∀ id, Published records id → ¬ Contested records id →
    ∃ source, ∃ a ∈ load.artifacts, firstRecord records id = some (source, a)

/-- The artifacts that survive the final `retain`. -/
def Composition.retained (c : Composition) : List ValidatedArtifact :=
  c.artifacts.filter fun artifact => decide (artifact.identity ∉ c.contested)

theorem Composed.mem_retained {records : List Record} {c : Composition}
    (h : Composed records c) {a : ValidatedArtifact} (ha : a ∈ c.retained) :
    (∃ source, firstRecord records a.identity = some (source, a)) ∧
      ¬ Contested records a.identity := by
  obtain ⟨hmem, hnot⟩ := List.mem_filter.mp ha
  refine ⟨h.artifact a hmem, ?_⟩
  rw [← h.contested]
  exact of_decide_eq_true hnot

theorem Composed.retained_first {records : List Record} {c : Composition}
    (h : Composed records c) {id : ArtifactIdentity} (hpub : Published records id)
    (hnot : ¬ Contested records id) :
    ∃ source, ∃ a ∈ c.retained, firstRecord records id = some (source, a) := by
  cases hseen : c.seen.get id with
  | none => exact absurd hpub (h.seen_none id hseen)
  | some entry =>
      obtain ⟨a, hget, hfirst⟩ := h.seen_some id entry hseen
      have hid : a.identity = id := (firstRecord_identity hfirst).2
      refine ⟨_, a, List.mem_filter.mpr ⟨List.mem_of_getElem? hget, ?_⟩, hfirst⟩
      rw [hid, decide_eq_true_eq, h.contested]
      exact hnot

theorem Composed.conflictSafe {records : List Record} {c : Composition}
    (h : Composed records c) (sourceReports : List SourceReport) :
    ConflictSafe records ⟨c.retained, sourceReports, c.conflicts⟩ where
  nodup := h.nodup.sublist (List.filter_sublist.map _)
  published := by
    rintro _ ⟨a, ha, rfl⟩
    obtain ⟨⟨source, hfirst⟩, _⟩ := h.mem_retained ha
    exact firstRecord_isSome.mp ⟨_, hfirst⟩
  absent_iff := by
    intro id hpub
    constructor
    · intro habsent
      by_contra hnot
      obtain ⟨source, a, ha, hfirst⟩ := h.retained_first hpub hnot
      exact habsent ⟨a, ha, (firstRecord_identity hfirst).2⟩
    · rintro hcontested ⟨a, ha, rfl⟩
      exact (h.mem_retained ha).2 hcontested
  conflicts := by
    intro id
    constructor
    · intro hcontested
      exact (h.conflicts id).trans (if_pos ((h.contested id).mpr hcontested))
    · intro hnot
      exact (h.conflicts id).trans (if_neg (mt (h.contested id).mp hnot))
  first := fun _ => h.retained_first

/-! ## Permuting the sources -/

theorem healthyRecords_perm {outcomes outcomes' : List ConfiguredSourceOutcome}
    (h : outcomes.Perm outcomes') {r : Record} :
    r ∈ healthyRecords outcomes' ↔ r ∈ healthyRecords outcomes :=
  (h.flatMap_right _).mem_iff.symm

section Permuted

variable {records records' : List Record} (h : ∀ r, r ∈ records' ↔ r ∈ records)

include h

theorem published_congr (id : ArtifactIdentity) : Published records' id ↔ Published records id := by
  simp only [Published, h]

theorem contested_congr (id : ArtifactIdentity) : Contested records' id ↔ Contested records id := by
  simp only [Contested, h]

theorem ConflictSafe.retained_congr {load load' : CatalogLoad} (hsafe : ConflictSafe records load)
    (hsafe' : ConflictSafe records' load') (id : ArtifactIdentity) :
    Retained load' id ↔ Retained load id := by
  have hpub := published_congr h id
  have hcontested := contested_congr h id
  constructor
  · intro hretained
    have hp' := hsafe'.published id hretained
    by_contra habsent
    have hc := (hsafe.absent_iff id (hpub.mp hp')).mp habsent
    exact (hsafe'.absent_iff id hp').mpr (hcontested.mpr hc) hretained
  · intro hretained
    have hp := hsafe.published id hretained
    by_contra habsent
    have hc := (hsafe'.absent_iff id (hpub.mpr hp)).mp habsent
    exact (hsafe.absent_iff id hp).mpr (hcontested.mp hc) hretained

end Permuted

theorem ConflictSafe.reported_iff {records : List Record} {load : CatalogLoad}
    (h : ConflictSafe records load) (id : ArtifactIdentity) :
    Reported load id ↔ Contested records id := by
  have hmem : Reported load id ↔ id ∈ load.conflicts.map CatalogConflict.identity :=
    List.mem_map.symm
  rw [hmem]
  constructor
  · intro hreported
    by_contra hnot
    exact List.count_eq_zero.mp ((h.conflicts id).2 hnot) hreported
  · intro hcontested
    rw [← List.count_pos_iff, (h.conflicts id).1 hcontested]
    exact Nat.one_pos

theorem assemble_healthy {outcomes : List ConfiguredSourceOutcome}
    (h : ∃ outcome ∈ outcomes, outcome.isHealthy) :
    ∃ load, assemble outcomes = some (.ok load) ∧
      load.sourceReports = outcomes.map ConfiguredSourceOutcome.report ∧
      ConflictSafe (healthyRecords outcomes) load := by
  obtain ⟨a, ha, hassembled⟩ := assemble_eq outcomes
  have hpos : a.healthySources ≠ 0 := by
    rw [hassembled.healthySources]
    exact (List.countP_pos_iff.mpr h).ne'
  refine ⟨⟨a.composition.retained, a.sourceReports, a.composition.conflicts⟩, ?_,
    hassembled.sourceReports, hassembled.composed.conflictSafe _⟩
  rw [ha, Assembly.finish, if_neg hpos]
  rfl

theorem assemble_unhealthy {outcomes : List ConfiguredSourceOutcome}
    (h : ∀ outcome ∈ outcomes, ¬ outcome.isHealthy) :
    assemble outcomes =
      some (.error (.new (outcomes.map ConfiguredSourceOutcome.report))) := by
  obtain ⟨a, ha, hassembled⟩ := assemble_eq outcomes
  have hzero : a.healthySources = 0 := by
    rw [hassembled.healthySources, List.countP_eq_zero]
    exact h
  rw [ha, Assembly.finish, if_pos hzero, hassembled.sourceReports]

/-- **Composition is conflict-safe and independent of the order of the sources.** -/
theorem assemble_conflictSafe {outcomes : List ConfiguredSourceOutcome}
    (h : ∃ outcome ∈ outcomes, outcome.isHealthy) :
    ∃ load, assemble outcomes = some (.ok load) ∧ ConflictSafe (healthyRecords outcomes) load ∧
      ∀ outcomes', outcomes.Perm outcomes' →
        ∃ load', assemble outcomes' = some (.ok load') ∧
          (∀ id, Reported load' id ↔ Reported load id) ∧
          (∀ id, Retained load' id ↔ Retained load id) := by
  obtain ⟨load, hload, _, hsafe⟩ := assemble_healthy h
  refine ⟨load, hload, hsafe, ?_⟩
  intro outcomes' hperm
  obtain ⟨outcome, hmem, hhealthy⟩ := h
  obtain ⟨load', hload', _, hsafe'⟩ :=
    assemble_healthy ⟨outcome, hperm.mem_iff.mp hmem, hhealthy⟩
  have hrecords := fun r => healthyRecords_perm hperm (r := r)
  refine ⟨load', hload', fun id => ?_, hsafe.retained_congr hrecords hsafe'⟩
  rw [hsafe'.reported_iff, hsafe.reported_iff]
  exact contested_congr hrecords id

def mirroredServer (url : String) (size : Nat) : Record :=
  (.http url, .server (.server "gel-server" "6.0+local" "6")
    ⟨"gel-server", "6.0+local", url, size, [1], .tarZst, "6", ∅⟩)

/-- Three records of one identity, of which the second disagrees. -/
theorem assemble_conflictSafe_three :
    let outcomes : List ConfiguredSourceOutcome :=
      [.healthy (.legacyPackageRoot "a") 1 [mirroredServer "a" 10],
        .unavailable (.legacyPackageRoot "b") "timeout",
        .healthy (.legacyPackageRoot "c") 2 [mirroredServer "c" 11, mirroredServer "d" 10]]
    ∃ load, assemble outcomes = some (.ok load) ∧ ConflictSafe (healthyRecords outcomes) load ∧
      ∀ outcomes', outcomes.Perm outcomes' →
        ∃ load', assemble outcomes' = some (.ok load') ∧
          (∀ id, Reported load' id ↔ Reported load id) ∧
          (∀ id, Retained load' id ↔ Retained load id) :=
  assemble_conflictSafe ⟨_, List.mem_cons_self, rfl⟩

end GelCli.Registry
