import GelCli.Foundation.BoundedBuffer
import GelCli.Registry.Index

/-!
# Loading the catalogue

`Catalog::load` in `src/portable/registry/catalog.rs`: the configured sources are
resolved to index inputs, the indexes are loaded and validated, both with at most
four fetches in flight, and the results are recorded source by source.
-/

namespace GelCli.Registry

open GelCli.Foundation

def maxConcurrentSourceLoads : Nat := 4

/-- One load of the catalogue: what each fetch answers, and the parsers. A fetch
is named by its place, so that two fetches of one url may end differently. -/
structure Loader where
  crates : Crates
  quote : String → String
  loadManifest : (sourceOrdinal : Nat) → Source → Except String (List UInt8)
  deserializeManifest : List UInt8 → Except String Manifest
  loadIndex : (sourceOrdinal indexOrdinal : Nat) → Source → Except String (List UInt8)
  deserializeIndex : List UInt8 → Except String IndexDocument

def Manifest.fromSlice (loader : Loader) (bytes : List UInt8) : Except String Manifest :=
  loader.deserializeManifest bytes >>= Manifest.checked

structure SelectedIndexInput where
  sourceOrdinal : Nat
  indexOrdinal : Nat
  indexSource : Source
  artifactBase : Source

inductive ResolvedSourceOutcome where
  | ready (source : RegistrySource) (indexes : List SelectedIndexInput)
  | unavailable (source : RegistrySource) (error : String)
  | rejected (source : RegistrySource) (error : String)

inductive ValidatedIndexOutcome where
  | healthy (sourceOrdinal indexOrdinal : Nat) (indexSource : Source)
      (artifacts : List ValidatedArtifact)
  | unavailable (sourceOrdinal indexOrdinal : Nat) (error : String)
  | rejected (sourceOrdinal indexOrdinal : Nat) (error : String)

namespace ValidatedIndexOutcome

def sourceOrdinal : ValidatedIndexOutcome → Nat
  | healthy sourceOrdinal _ _ _ | unavailable sourceOrdinal _ _ | rejected sourceOrdinal _ _ =>
      sourceOrdinal

def indexOrdinal : ValidatedIndexOutcome → Nat
  | healthy _ indexOrdinal _ _ | unavailable _ indexOrdinal _ | rejected _ indexOrdinal _ =>
      indexOrdinal

end ValidatedIndexOutcome

variable (loader : Loader) (channel : Channel) (platform : String)

/-! ## The two operations -/

def selectedIndexInputs (sourceOrdinal : Nat) (sources : List Source) : List SelectedIndexInput :=
  sources.mapIdx fun indexOrdinal indexSource =>
    { sourceOrdinal := sourceOrdinal
      indexOrdinal := indexOrdinal
      artifactBase := indexSource
      indexSource := indexSource }

def resolveManifest (sourceOrdinal : Nat) (registrySource : RegistrySource)
    (manifestSource : Source) : ResolvedSourceOutcome :=
  match loader.loadManifest sourceOrdinal manifestSource with
  | .error error =>
      .unavailable registrySource
        (context ("failed to load registry manifest " ++ manifestSource.display) error)
  | .ok manifestBytes =>
      match Manifest.fromSlice loader manifestBytes with
      | .error error =>
          .rejected registrySource
            (context ("failed to parse registry manifest " ++ manifestSource.display) error)
      | .ok manifest =>
          match manifest.selectIndexes loader.crates manifestSource channel platform with
          | .error error =>
              .rejected registrySource
                (context ("failed to select registry indexes from " ++ manifestSource.display)
                  error)
          | .ok sources => .ready registrySource (selectedIndexInputs sourceOrdinal sources)

def resolveConfiguredSource (input : Nat × RegistrySource) : ResolvedSourceOutcome :=
  let (sourceOrdinal, registrySource) := input
  match registrySource with
  | .manifest manifestSource =>
      resolveManifest loader channel platform sourceOrdinal registrySource manifestSource
  | .legacyPackageRoot root =>
      match legacyIndexUrl loader.crates root platform channel with
      | .error error =>
          .rejected registrySource
            (context ("failed to construct legacy registry index for " ++ root) error)
      | .ok url =>
          .ready registrySource
            [{ sourceOrdinal := sourceOrdinal
               indexOrdinal := 0
               indexSource := .http url
               artifactBase := .http root }]

def loadAndValidateIndex (input : SelectedIndexInput) : ValidatedIndexOutcome :=
  match loader.loadIndex input.sourceOrdinal input.indexOrdinal input.indexSource with
  | .error error =>
      .unavailable input.sourceOrdinal input.indexOrdinal
        (context ("failed to load registry index " ++ input.indexSource.display) error)
  | .ok indexBytes =>
      match loader.deserializeIndex indexBytes with
      | .error error =>
          .rejected input.sourceOrdinal input.indexOrdinal
            (context ("failed to parse registry index " ++ input.indexSource.display) error)
      | .ok index =>
          match index.validate loader.crates input.indexSource input.artifactBase platform with
          | .error error =>
              .rejected input.sourceOrdinal input.indexOrdinal
                (context ("failed to validate registry index " ++ input.indexSource.display)
                  (error.display loader.quote))
          | .ok validated =>
              .healthy input.sourceOrdinal input.indexOrdinal input.indexSource validated

/-! ## Accumulators -/

inductive IndexFailure where
  | unavailable (error : String)
  | rejected (error : String)
deriving DecidableEq

structure SourceAccumulator where
  source : RegistrySource
  selectedIndexes : Nat
  nextIndexOrdinal : Nat
  artifacts : List (Source × ValidatedArtifact)
  failure : Option IndexFailure

namespace SourceAccumulator

def fromResolved : ResolvedSourceOutcome → SourceAccumulator
  | .ready source indexes => ⟨source, indexes.length, 0, [], none⟩
  | .unavailable source error => ⟨source, 0, 0, [], some (.unavailable error)⟩
  | .rejected source error => ⟨source, 0, 0, [], some (.rejected error)⟩

/-- The first failure wins, and it takes the artifacts recorded before it along. -/
def fail (a : SourceAccumulator) (failure : IndexFailure) : SourceAccumulator :=
  match a.failure with
  | none => { a with artifacts := [], failure := some failure }
  | some _ => a

/-- `none` is the failing `debug_assert_eq!`. -/
def recordIndex (a : SourceAccumulator) (outcome : ValidatedIndexOutcome) :
    Option SourceAccumulator :=
  if a.nextIndexOrdinal ≠ outcome.indexOrdinal then none
  else
    let a := { a with nextIndexOrdinal := a.nextIndexOrdinal + 1 }
    match outcome with
    | .healthy _ _ indexSource artifacts =>
        match a.failure with
        | none =>
            some { a with
              artifacts := a.artifacts ++ artifacts.map fun artifact => (indexSource, artifact) }
        | some _ => some a
    | .unavailable _ _ error => some (a.fail (.unavailable error))
    | .rejected _ _ error => some (a.fail (.rejected error))

def finish (a : SourceAccumulator) : ConfiguredSourceOutcome :=
  match a.failure with
  | none => .healthy a.source a.selectedIndexes a.artifacts
  | some (.unavailable error) => .unavailable a.source error
  | some (.rejected error) => .rejected a.source error

end SourceAccumulator

/-- `accumulators[source_ordinal].record_index(outcome)`. -/
def recordOutcome (accumulators : List SourceAccumulator) (outcome : ValidatedIndexOutcome) :
    Option (List SourceAccumulator) := do
  let accumulator ← accumulators[outcome.sourceOrdinal]?
  let recorded ← accumulator.recordIndex outcome
  return accumulators.set outcome.sourceOrdinal recorded

/-! ## `Catalog::load` -/

def ResolvedSourceOutcome.indexInputs : ResolvedSourceOutcome → List SelectedIndexInput
  | .ready _ indexes => indexes
  | .unavailable _ _ | .rejected _ _ => []

/-- What follows the two collections. `none` is a panic. -/
def assembleLoad (resolved : List ResolvedSourceOutcome)
    (validatedIndexes : List ValidatedIndexOutcome) :
    Option (Except NoHealthySources CatalogLoad) := do
  let accumulators ←
    validatedIndexes.foldlM recordOutcome (resolved.map SourceAccumulator.fromResolved)
  assemble (accumulators.map SourceAccumulator.finish)

/-- The load ends with `result` under some order of completion of the fetches. -/
def Load (sources : List RegistrySource)
    (result : Option (Except NoHealthySources CatalogLoad)) : Prop :=
  ∃ resolved validatedIndexes,
    CollectBoundedOrdered maxConcurrentSourceLoads
      (resolveConfiguredSource loader channel platform) (enumerate sources) resolved ∧
    CollectBoundedOrdered maxConcurrentSourceLoads
      (loadAndValidateIndex loader platform)
      (resolved.flatMap ResolvedSourceOutcome.indexInputs) validatedIndexes ∧
    result = assembleLoad resolved validatedIndexes

end GelCli.Registry
