import Mathlib.Data.Finmap
import Mathlib.Data.Finset.Insert
import GelCli.Foundation.HashMap

/-!
# The composed package catalogue

The fold at the end of `Catalog::load` in `src/portable/registry/catalog.rs`: the
records of all healthy sources are composed one by one into one list of
artifacts. A record for an identity that is taken is dropped when it is an
equivalent mirror; when it disagrees, the identity is contested, one conflict is
reported and every later record for it is ignored.
-/

namespace GelCli.Registry

open GelCli.Foundation

/-! ## Artifacts -/

inductive Source where
  | http (url : String)
  | file (path : String)
deriving DecidableEq, Repr

def Source.display : Source → String
  | .http url => url
  | .file path => path

inductive ArtifactIdentity where
  | server (name version slot : String)
  | cli (name version : String)
  | extension (name version serverSlot : String)
deriving DecidableEq, Repr

abbrev Tags := Finmap fun _ : String => String

inductive Compression where
  | zstd
deriving DecidableEq, Repr

inductive PackageType where
  | tarZst
  | zip
deriving DecidableEq, Repr

/-- The common shape of `ServerPackage` and `ExtensionPackage`. -/
structure TaggedPackage where
  name : String
  version : String
  url : String
  size : Nat
  hash : List UInt8
  kind : PackageType
  slot : String
  tags : Tags
deriving DecidableEq

abbrev ServerPackage := TaggedPackage

abbrev ExtensionPackage := TaggedPackage

structure CliPackage where
  version : String
  url : String
  size : Nat
  hash : List UInt8
  compression : Option Compression
deriving DecidableEq

def CliPackage.compressionVariant (package : CliPackage) : Option String :=
  package.compression.map fun _ => "zstd"

inductive ValidatedArtifact where
  | server (identity : ArtifactIdentity) (package : ServerPackage)
  | cli (identity : ArtifactIdentity) (package : CliPackage)
  | extension (identity : ArtifactIdentity) (package : ExtensionPackage)
deriving DecidableEq

namespace ValidatedArtifact

def identity : ValidatedArtifact → ArtifactIdentity
  | server identity _ => identity
  | cli identity _ => identity
  | extension identity _ => identity

def url : ValidatedArtifact → String
  | server _ package => package.url
  | cli _ package => package.url
  | extension _ package => package.url

end ValidatedArtifact

/-! ## Duplicates -/

inductive DuplicateRelation where
  | equivalentMirror
  | conflict (fields : List String)
deriving DecidableEq, Repr

/-- The field, if the two records differ in it. -/
def differing (field : String) {α : Type} [DecidableEq α] (first later : α) : List String :=
  if first ≠ later then [field] else []

def taggedFields (first later : TaggedPackage) : List String :=
  differing "size" first.size later.size ++ differing "hash" first.hash later.hash ++
    differing "tags" first.tags later.tags

def cliFields (first later : CliPackage) : List String :=
  differing "size" first.size later.size ++ differing "hash" first.hash later.hash ++
    differing "compression" first.compressionVariant later.compressionVariant

def duplicateFields : ValidatedArtifact → ValidatedArtifact → List String
  | .server _ first, .server _ later => taggedFields first later
  | .cli _ first, .cli _ later => cliFields first later
  | .extension _ first, .extension _ later => taggedFields first later
  | _, _ => ["kind"]

def duplicateRelation (first later : ValidatedArtifact) : DuplicateRelation :=
  let fields := duplicateFields first later
  if fields.isEmpty then .equivalentMirror else .conflict fields

/-! ## Composition -/

structure CatalogEntry where
  artifactIndex : Nat
  indexSource : Source

structure CatalogConflict where
  identity : ArtifactIdentity
  firstSource : Source
  firstUrl : String
  secondSource : Source
  secondUrl : String
  fields : List String
deriving DecidableEq

/-- The four collections `compose_source_artifacts` works on. -/
structure Composition where
  artifacts : List ValidatedArtifact
  seen : HashMap ArtifactIdentity CatalogEntry
  contested : Finset ArtifactIdentity
  conflicts : List CatalogConflict

def Composition.empty : Composition := ⟨[], .empty, ∅, []⟩

/-- One record. `none` is the panic of `artifacts[index]`. -/
def composeArtifact (c : Composition) (indexSource : Source) (artifact : ValidatedArtifact) :
    Option Composition :=
  let identity := artifact.identity
  if identity ∈ c.contested then some c
  else
    match c.seen.get identity with
    | some firstEntry =>
        match c.artifacts[firstEntry.artifactIndex]? with
        | none => none
        | some firstArtifact =>
            match duplicateRelation firstArtifact artifact with
            | .equivalentMirror => some c
            | .conflict fields =>
                some { c with
                  conflicts := c.conflicts ++ [{
                    identity := identity
                    firstSource := firstEntry.indexSource
                    firstUrl := firstArtifact.url
                    secondSource := indexSource
                    secondUrl := artifact.url
                    fields := fields }]
                  contested := insert identity c.contested }
    | none =>
        some { c with
          seen := c.seen.insert identity ⟨c.artifacts.length, indexSource⟩
          artifacts := c.artifacts ++ [artifact] }

def composeSourceArtifacts (c : Composition) (sourceArtifacts : List (Source × ValidatedArtifact)) :
    Option Composition :=
  sourceArtifacts.foldlM (fun c entry => composeArtifact c entry.1 entry.2) c

/-! ## The end of `Catalog::load` -/

inductive RegistrySource where
  | manifest (source : Source)
  | legacyPackageRoot (root : String)
deriving DecidableEq, Repr

def RegistrySource.display : RegistrySource → String
  | .manifest source => source.display
  | .legacyPackageRoot root => root

inductive ConfiguredSourceOutcome where
  | healthy (source : RegistrySource) (selectedIndexes : Nat)
      (artifacts : List (Source × ValidatedArtifact))
  | unavailable (source : RegistrySource) (error : String)
  | rejected (source : RegistrySource) (error : String)

inductive SourceReport where
  | healthy (source : RegistrySource) (selectedIndexes artifactCount : Nat)
  | unavailable (source : RegistrySource) (error : String)
  | rejected (source : RegistrySource) (error : String)
deriving DecidableEq, Repr

def SourceReport.warning : SourceReport → Option String
  | .healthy _ _ _ => none
  | .unavailable source error =>
      some ("registry source " ++ source.display ++ " is unavailable: " ++ error)
  | .rejected source error =>
      some ("registry source " ++ source.display ++ " was rejected: " ++ error)

structure NoHealthySources where
  reports : List SourceReport
  summary : String
deriving DecidableEq

def NoHealthySources.new (reports : List SourceReport) : NoHealthySources :=
  ⟨reports, "; ".intercalate (reports.filterMap SourceReport.warning)⟩

structure CatalogLoad where
  artifacts : List ValidatedArtifact
  sourceReports : List SourceReport
  conflicts : List CatalogConflict

structure Assembly where
  composition : Composition
  healthySources : Nat
  sourceReports : List SourceReport

def Assembly.empty : Assembly := ⟨.empty, 0, []⟩

/-- One turn of `for outcome in accumulators`. -/
def Assembly.add (a : Assembly) : ConfiguredSourceOutcome → Option Assembly
  | .healthy source selectedIndexes artifacts =>
      (composeSourceArtifacts a.composition artifacts).map fun composition =>
        { composition := composition
          healthySources := a.healthySources + 1
          sourceReports := a.sourceReports ++
            [.healthy source selectedIndexes artifacts.length] }
  | .unavailable source error =>
      some { a with sourceReports := a.sourceReports ++ [.unavailable source error] }
  | .rejected source error =>
      some { a with sourceReports := a.sourceReports ++ [.rejected source error] }

def Assembly.finish (a : Assembly) : Except NoHealthySources CatalogLoad :=
  if a.healthySources = 0 then .error (.new a.sourceReports)
  else
    .ok { artifacts := a.composition.artifacts.filter fun artifact =>
            decide (artifact.identity ∉ a.composition.contested)
          sourceReports := a.sourceReports
          conflicts := a.composition.conflicts }

/-- `none` is a panic. -/
def assemble (outcomes : List ConfiguredSourceOutcome) :
    Option (Except NoHealthySources CatalogLoad) :=
  (outcomes.foldlM Assembly.add Assembly.empty).map Assembly.finish

end GelCli.Registry
