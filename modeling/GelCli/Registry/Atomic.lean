import GelCli.Registry.Compose
import GelCli.Registry.Load

/-!
# Sources are atomic and independent

Loading the sources concurrently gives what loading them one after the other
gives. `sourceOutcome` is a source on its own: its first failure in manifest
order, or all of its packages. The fold of the index results over the
accumulators reaches it for each source, since the results of one source lie
together and in manifest order once the collection has sorted them.
-/

namespace GelCli.Registry

open GelCli.Foundation

namespace ValidatedIndexOutcome

def failure : ValidatedIndexOutcome → Option IndexFailure
  | healthy _ _ _ _ => none
  | unavailable _ _ error => some (.unavailable error)
  | rejected _ _ error => some (.rejected error)

def records : ValidatedIndexOutcome → List Record
  | healthy _ _ indexSource artifacts => artifacts.map fun artifact => (indexSource, artifact)
  | unavailable _ _ _ | rejected _ _ _ => []

end ValidatedIndexOutcome

def IndexFailure.outcome (source : RegistrySource) : IndexFailure → ConfiguredSourceOutcome
  | .unavailable error => .unavailable source error
  | .rejected error => .rejected source error

/-! ## One accumulator -/

namespace SourceAccumulator

/-- The accumulator of a source after the outcomes of its first indexes. -/
def recorded (source : RegistrySource) (selectedIndexes : Nat)
    (outcomes : List ValidatedIndexOutcome) : SourceAccumulator :=
  { source := source
    selectedIndexes := selectedIndexes
    nextIndexOrdinal := outcomes.length
    artifacts :=
      if outcomes.findSome? ValidatedIndexOutcome.failure = none then
        outcomes.flatMap ValidatedIndexOutcome.records
      else []
    failure := outcomes.findSome? ValidatedIndexOutcome.failure }

variable {source : RegistrySource} {selectedIndexes : Nat}

theorem recordIndex_recorded {outcomes : List ValidatedIndexOutcome}
    {outcome : ValidatedIndexOutcome} (h : outcome.indexOrdinal = outcomes.length) :
    (recorded source selectedIndexes outcomes).recordIndex outcome =
      some (recorded source selectedIndexes (outcomes ++ [outcome])) := by
  have hordinal : ¬ (recorded source selectedIndexes outcomes).nextIndexOrdinal ≠
      outcome.indexOrdinal := by
    rw [not_not, h]
    rfl
  rw [recordIndex, if_neg hordinal]
  cases hfailure : outcomes.findSome? ValidatedIndexOutcome.failure <;> cases outcome <;>
    simp [recorded, fail, hfailure, ValidatedIndexOutcome.failure, ValidatedIndexOutcome.records]

theorem finish_recorded (outcomes : List ValidatedIndexOutcome) :
    (recorded source selectedIndexes outcomes).finish =
      ((outcomes.findSome? ValidatedIndexOutcome.failure).map (·.outcome source)).getD
        (.healthy source selectedIndexes (outcomes.flatMap ValidatedIndexOutcome.records)) := by
  rcases hfailure : outcomes.findSome? ValidatedIndexOutcome.failure with _ | (_ | _) <;>
    simp [finish, recorded, hfailure, IndexFailure.outcome]

end SourceAccumulator

/-! ## The fold over the accumulators -/

/-- The outcomes belong to the source `sourceOrdinal`, from its index `first` on. -/
def Ordered (sourceOrdinal first : Nat) (outcomes : List ValidatedIndexOutcome) : Prop :=
  ∀ k outcome, outcomes[k]? = some outcome →
    outcome.sourceOrdinal = sourceOrdinal ∧ outcome.indexOrdinal = first + k

theorem Ordered.cons_inv {sourceOrdinal first : Nat} {outcome : ValidatedIndexOutcome}
    {outcomes : List ValidatedIndexOutcome}
    (h : Ordered sourceOrdinal first (outcome :: outcomes)) :
    outcome.sourceOrdinal = sourceOrdinal ∧ outcome.indexOrdinal = first ∧
      Ordered sourceOrdinal (first + 1) outcomes := by
  obtain ⟨hsource, hindex⟩ := h 0 outcome rfl
  refine ⟨hsource, hindex, fun k o hk => ?_⟩
  obtain ⟨hs, hi⟩ := h (k + 1) o hk
  refine ⟨hs, ?_⟩
  rw [hi]
  omega

/-- The outcomes of one source reach its accumulator and no other. -/
theorem foldlM_recordOutcome {source : RegistrySource} {selectedIndexes sourceOrdinal : Nat}
    {before outcomes : List ValidatedIndexOutcome} {accumulators : List SourceAccumulator}
    (hordered : Ordered sourceOrdinal before.length outcomes)
    (hget : accumulators[sourceOrdinal]? = some (.recorded source selectedIndexes before)) :
    outcomes.foldlM recordOutcome accumulators =
      some (accumulators.set sourceOrdinal
        (.recorded source selectedIndexes (before ++ outcomes))) := by
  induction outcomes generalizing before accumulators with
  | nil =>
      obtain ⟨hlt, hval⟩ := List.getElem?_eq_some_iff.mp hget
      rw [List.append_nil, ← hval, List.set_getElem_self]
      rfl
  | cons outcome rest ih =>
      obtain ⟨hsource, hindex, hrest⟩ := hordered.cons_inv
      obtain ⟨hlt, _⟩ := List.getElem?_eq_some_iff.mp hget
      have hstep : recordOutcome accumulators outcome = some (accumulators.set sourceOrdinal
          (.recorded source selectedIndexes (before ++ [outcome]))) := by
        simp [recordOutcome, hsource, hget, SourceAccumulator.recordIndex_recorded hindex]
      rw [List.foldlM_cons, hstep]
      have hlength : (before ++ [outcome]).length = before.length + 1 := by
        simp
      show rest.foldlM recordOutcome _ = _
      rw [ih (hlength ▸ hrest) (List.getElem?_set_self hlt), List.set_set, List.append_assoc]
      rfl

section Loading

variable (loader : Loader) (channel : Channel) (platform : String)

/-- The outcomes of the selected indexes of a source, in manifest order. -/
def ResolvedSourceOutcome.indexOutcomes (resolved : ResolvedSourceOutcome) :
    List ValidatedIndexOutcome :=
  resolved.indexInputs.map (loadAndValidateIndex loader platform)

/-- The accumulator a source ends with. -/
def ResolvedSourceOutcome.accumulator (resolved : ResolvedSourceOutcome) : SourceAccumulator :=
  match resolved with
  | .ready source indexes => .recorded source indexes.length (resolved.indexOutcomes loader platform)
  | .unavailable _ _ | .rejected _ _ => .fromResolved resolved

variable {loader channel platform}

theorem foldlM_recordOutcome_sources {recorded : List SourceAccumulator}
    {resolved : List ResolvedSourceOutcome}
    (hordered : ∀ j r, resolved[j]? = some r →
      Ordered (recorded.length + j) 0 (r.indexOutcomes loader platform)) :
    (resolved.flatMap (·.indexOutcomes loader platform)).foldlM recordOutcome
        (recorded ++ resolved.map SourceAccumulator.fromResolved) =
      some (recorded ++ resolved.map (·.accumulator loader platform)) := by
  induction resolved generalizing recorded with
  | nil => rfl
  | cons r rest ih =>
      have hrest : ∀ j r', rest[j]? = some r' →
          Ordered ((recorded ++ [r.accumulator loader platform]).length + j) 0
            (r'.indexOutcomes loader platform) := by
        intro j r' hj
        have := hordered (j + 1) r' hj
        rw [List.length_append, List.length_singleton, Nat.add_assoc, Nat.add_comm 1]
        exact this
      have hblock : (r.indexOutcomes loader platform).foldlM recordOutcome
          (recorded ++ (r :: rest).map SourceAccumulator.fromResolved) =
          some (recorded ++ r.accumulator loader platform ::
            rest.map SourceAccumulator.fromResolved) := by
        cases r with
        | ready source indexes =>
            have hget : (recorded ++ ((ResolvedSourceOutcome.ready source indexes) :: rest).map
                SourceAccumulator.fromResolved)[recorded.length]? =
                some (.recorded source indexes.length []) := by
              rw [List.getElem?_append_right (Nat.le_refl _), Nat.sub_self]
              rfl
            rw [foldlM_recordOutcome (hordered 0 _ rfl) hget,
              List.set_append_right _ _ (Nat.le_refl _), Nat.sub_self]
            rfl
        | unavailable source error => rfl
        | rejected source error => rfl
      rw [List.flatMap_cons, List.foldlM_append, hblock]
      have := ih hrest
      rw [List.append_assoc, List.append_assoc] at this
      exact this

/-! ## Ordinals -/

variable (loader platform) in
theorem loadAndValidateIndex_ordinals (input : SelectedIndexInput) :
    (loadAndValidateIndex loader platform input).sourceOrdinal = input.sourceOrdinal ∧
      (loadAndValidateIndex loader platform input).indexOrdinal = input.indexOrdinal := by
  unfold loadAndValidateIndex
  split
  · exact ⟨rfl, rfl⟩
  · split
    · exact ⟨rfl, rfl⟩
    · split <;> exact ⟨rfl, rfl⟩

/-- A source that resolves has its indexes numbered in manifest order. -/
theorem resolveConfiguredSource_ordinals {sourceOrdinal : Nat} {source : RegistrySource} {k : Nat}
    {input : SelectedIndexInput}
    (h : (resolveConfiguredSource loader channel platform (sourceOrdinal, source)).indexInputs[k]? =
      some input) :
    input.sourceOrdinal = sourceOrdinal ∧ input.indexOrdinal = k := by
  unfold resolveConfiguredSource at h
  cases source with
  | manifest manifestSource =>
      simp only [resolveManifest] at h
      split at h
      · cases h
      · split at h
        · cases h
        · split at h
          · cases h
          · simp only [ResolvedSourceOutcome.indexInputs, selectedIndexInputs,
              List.getElem?_mapIdx, Option.map_eq_some_iff] at h
            obtain ⟨_, _, rfl⟩ := h
            exact ⟨rfl, rfl⟩
  | legacyPackageRoot root =>
      simp only at h
      split at h
      · cases h
      · cases k with
        | zero =>
            obtain rfl := Option.some.inj h
            exact ⟨rfl, rfl⟩
        | succ k => cases h

theorem ordered_indexOutcomes (sourceOrdinal : Nat) (source : RegistrySource) :
    Ordered sourceOrdinal 0
      ((resolveConfiguredSource loader channel platform (sourceOrdinal, source)).indexOutcomes
        loader platform) := by
  intro k outcome hk
  rw [ResolvedSourceOutcome.indexOutcomes, List.getElem?_map, Option.map_eq_some_iff] at hk
  obtain ⟨input, hinput, rfl⟩ := hk
  obtain ⟨hsource, hindex⟩ := resolveConfiguredSource_ordinals hinput
  obtain ⟨hs, hi⟩ := loadAndValidateIndex_ordinals loader platform input
  refine ⟨hs.trans hsource, ?_⟩
  rw [hi, hindex, Nat.zero_add]

/-! ## Sources one after the other -/

variable (loader channel platform)

/-- A source loaded on its own. -/
def sourceOutcome (input : Nat × RegistrySource) : ConfiguredSourceOutcome :=
  let resolved := resolveConfiguredSource loader channel platform input
  match resolved with
  | .ready source indexes =>
      match (resolved.indexOutcomes loader platform).findSome? ValidatedIndexOutcome.failure with
      | some failure => failure.outcome source
      | none =>
          .healthy source indexes.length
            ((resolved.indexOutcomes loader platform).flatMap ValidatedIndexOutcome.records)
  | .unavailable source error => .unavailable source error
  | .rejected source error => .rejected source error

/-- All sources, one after the other. -/
def sourceOutcomes (sources : List RegistrySource) : List ConfiguredSourceOutcome :=
  (enumerate sources).map (sourceOutcome loader channel platform)

variable {loader channel platform}

theorem finish_accumulator (input : Nat × RegistrySource) :
    ((resolveConfiguredSource loader channel platform input).accumulator loader platform).finish =
      sourceOutcome loader channel platform input := by
  unfold sourceOutcome
  cases hresolved : resolveConfiguredSource loader channel platform input with
  | ready source indexes =>
      simp only [ResolvedSourceOutcome.accumulator, SourceAccumulator.finish_recorded]
      cases List.findSome? ValidatedIndexOutcome.failure _ <;> rfl
  | unavailable source error => rfl
  | rejected source error => rfl

theorem assembleLoad_sequential (sources : List RegistrySource) :
    let resolved := (enumerate sources).map (resolveConfiguredSource loader channel platform)
    assembleLoad resolved
        ((resolved.flatMap ResolvedSourceOutcome.indexInputs).map
          (loadAndValidateIndex loader platform)) =
      assemble (sourceOutcomes loader channel platform sources) := by
  intro resolved
  have hordered : ∀ j r, resolved[j]? = some r →
      Ordered (([] : List SourceAccumulator).length + j) 0 (r.indexOutcomes loader platform) := by
    intro j r hj
    simp only [resolved, enumerate, List.getElem?_map, List.getElem?_mapIdx, Option.map_map,
      Option.map_eq_some_iff] at hj
    obtain ⟨source, _, rfl⟩ := hj
    rw [List.length_nil, Nat.zero_add]
    exact ordered_indexOutcomes j source
  have hrun : (resolved.flatMap (·.indexOutcomes loader platform)).foldlM recordOutcome
      (resolved.map SourceAccumulator.fromResolved) =
      some (resolved.map (·.accumulator loader platform)) :=
    foldlM_recordOutcome_sources hordered
  have houtcomes : resolved.map (fun r => (r.accumulator loader platform).finish) =
      sourceOutcomes loader channel platform sources := by
    rw [sourceOutcomes, List.map_map]
    exact List.map_congr_left fun input _ => finish_accumulator input
  rw [assembleLoad, List.map_flatMap]
  show (resolved.flatMap (·.indexOutcomes loader platform)).foldlM recordOutcome
    (resolved.map SourceAccumulator.fromResolved) >>= _ = _
  rw [hrun, Option.bind_eq_bind, Option.bind_some, List.map_map]
  exact congrArg assemble houtcomes

/-- **Whatever finishes first, a load ends as the sequential one.** -/
theorem load_iff {sources : List RegistrySource}
    {result : Option (Except NoHealthySources CatalogLoad)} :
    Load loader channel platform sources result ↔
      result = assemble (sourceOutcomes loader channel platform sources) := by
  have hlimit : 0 < maxConcurrentSourceLoads := by decide
  constructor
  · rintro ⟨resolved, validatedIndexes, hresolved, hvalidated, rfl⟩
    rw [collectBoundedOrdered_iff hlimit] at hresolved hvalidated
    rw [hvalidated, hresolved]
    exact assembleLoad_sequential sources
  · rintro rfl
    exact ⟨_, _, (collectBoundedOrdered_iff hlimit).mpr rfl,
      (collectBoundedOrdered_iff hlimit).mpr rfl, (assembleLoad_sequential sources).symm⟩

/-! ## The laws of a load -/

variable (loader channel platform)

/-- What one configured source owes to its own fetches. -/
structure SourceAtomic (input : Nat × RegistrySource) (outcome : ConfiguredSourceOutcome) :
    Prop where
  /-- A manifest that fails is the failure of the source. -/
  manifest_failed : ∀ source failure,
    (resolveConfiguredSource loader channel platform input = .unavailable source failure →
      outcome = .unavailable source failure) ∧
    (resolveConfiguredSource loader channel platform input = .rejected source failure →
      outcome = .rejected source failure)
  /-- The first index that fails, in manifest order, is. -/
  index_failed : ∀ source before index after failure,
    resolveConfiguredSource loader channel platform input =
      .ready source (before ++ index :: after) →
    (∀ index' ∈ before, (loadAndValidateIndex loader platform index').failure = none) →
    (loadAndValidateIndex loader platform index).failure = some failure →
    outcome = failure.outcome source
  /-- Otherwise every package of every selected index is contributed. -/
  healthy : ∀ source indexes,
    resolveConfiguredSource loader channel platform input = .ready source indexes →
    (∀ index ∈ indexes, (loadAndValidateIndex loader platform index).failure = none) →
    outcome = .healthy source indexes.length
      (indexes.flatMap fun index => (loadAndValidateIndex loader platform index).records)

/-- What a load owes to its sources, given in configured order. -/
structure SourcesAtomic (sources : List RegistrySource)
    (result : Option (Except NoHealthySources CatalogLoad)) : Prop where
  source : ∀ input ∈ enumerate sources,
    SourceAtomic loader channel platform input (sourceOutcome loader channel platform input)
  /-- Some source is healthy, and only the healthy ones contribute. -/
  loaded : (∃ outcome ∈ sourceOutcomes loader channel platform sources, outcome.isHealthy) →
    ∃ load, result = some (.ok load) ∧
      load.sourceReports = (sourceOutcomes loader channel platform sources).map (·.report) ∧
      ConflictSafe (healthyRecords (sourceOutcomes loader channel platform sources)) load
  /-- No source is healthy. -/
  failed : (∀ outcome ∈ sourceOutcomes loader channel platform sources, ¬ outcome.isHealthy) →
    ∃ error, result = some (.error error) ∧
      error.reports = (sourceOutcomes loader channel platform sources).map (·.report)

variable {loader channel platform}

theorem sourceOutcome_atomic (input : Nat × RegistrySource) :
    SourceAtomic loader channel platform input (sourceOutcome loader channel platform input) where
  manifest_failed := by
    intro source failure
    constructor
    · intro h
      rw [sourceOutcome, h]
    · intro h
      rw [sourceOutcome, h]
  index_failed := by
    intro source before index after failure h hbefore hindex
    have hfirst : (((before ++ index :: after).map (loadAndValidateIndex loader platform)).findSome?
        ValidatedIndexOutcome.failure) = some failure := by
      rw [List.map_append, List.findSome?_append, List.findSome?_eq_none_iff.mpr, List.map_cons,
        List.findSome?_cons, hindex]
      · rfl
      · intro outcome houtcome
        obtain ⟨index', hmem, rfl⟩ := List.mem_map.mp houtcome
        exact hbefore index' hmem
    simp only [sourceOutcome, h, ResolvedSourceOutcome.indexOutcomes,
      ResolvedSourceOutcome.indexInputs, hfirst]
  healthy := by
    intro source indexes h hnone
    have hfirst : ((indexes.map (loadAndValidateIndex loader platform)).findSome?
        ValidatedIndexOutcome.failure) = none := by
      rw [List.findSome?_eq_none_iff]
      intro outcome houtcome
      obtain ⟨index, hmem, rfl⟩ := List.mem_map.mp houtcome
      exact hnone index hmem
    simp only [sourceOutcome, h, ResolvedSourceOutcome.indexOutcomes,
      ResolvedSourceOutcome.indexInputs, hfirst, List.flatMap_map]

/-- **Sources are atomic and independent**, in every order of completion. -/
theorem load_sourcesAtomic {sources : List RegistrySource}
    {result : Option (Except NoHealthySources CatalogLoad)}
    (h : Load loader channel platform sources result) :
    SourcesAtomic loader channel platform sources result := by
  rw [load_iff] at h
  subst h
  exact ⟨fun input _ => sourceOutcome_atomic input, assemble_healthy,
    fun hnone => ⟨_, assemble_unhealthy hnone, rfl⟩⟩

end Loading

/-- A loader whose second index of the first source is missing. -/
def missingIndex : Loader where
  crates :=
    { parseUrl := fun _ => none
      joinUrl := fun base value => .ok (base ++ value)
      urlToFilePath := some
      urlFromFilePath := some
      joinParent := fun _ value => value
      isAbsolute := fun _ => false
      matchesBuild := fun _ => true
      parseSemver := .ok
      decodeHex := fun _ => .ok [] }
  quote := id
  loadManifest := fun _ _ => .ok []
  deserializeManifest := fun _ =>
    .ok ⟨1, [⟨.stable, "linux", "good.json"⟩, ⟨.stable, "linux", "missing.json"⟩]⟩
  loadIndex := fun source index _ =>
    if source = 0 ∧ index = 1 then .error "not found" else .ok []
  deserializeIndex := fun _ => .ok ⟨[]⟩

theorem load_sourcesAtomic_missing :
    let sources := [.manifest (.file "first.json"), .manifest (.file "second.json")]
    let result := assemble (sourceOutcomes missingIndex .stable "linux" sources)
    Load missingIndex .stable "linux" sources result ∧
      SourcesAtomic missingIndex .stable "linux" sources result :=
  ⟨load_iff.mpr rfl, load_sourcesAtomic (load_iff.mpr rfl)⟩

end GelCli.Registry
