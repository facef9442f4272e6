import GelCli.Release.RecordFile
import GelCli.Release.VerifyDraft

/-!
# Distributions

The files of a release, from the directory that they are assembled in to the directory that they
are downloaded to: the registry manifest and the digest lists that `registry_manifest.py` adds,
the record that `candidate.py` writes of them, and the checks that `verify_draft.py` makes of
them once they have been read back.
-/

namespace GelCli.Release

open GelCli.Foundation
open GelCli.Foundation.JsonText (Layout)

/-! ## Directories -/

/-- The entry of a directory that a path in it leads to. -/
def entryOf (path : Text) : Option Text :=
  match components path with
  | [.normal name] | [.curDir, .normal name] => some name
  | _ => none

/-- A directory of regular files. A longer path leads elsewhere. -/
structure DistDir where
  files : Dict Text (List UInt8)
  elsewhere : Text → Option (List UInt8)
  plain : ∀ name ∈ files.keys, Foundation.Plain name

theorem plain_of_entryOf {path name : Text} (h : entryOf path = some name) :
    Foundation.Plain name := by
  unfold entryOf at h
  split at h
  · next hcomponents =>
    cases h
    exact plain_of_mem_components (by rw [hcomponents]; simp)
  · next hcomponents =>
    cases h
    exact plain_of_mem_components (by rw [hcomponents]; simp)
  · cases h

theorem entryOf_of_plain {name : Text} (h : Foundation.Plain name) : entryOf name = some name := by
  have hslash : name.head? ≠ some '/' := fun hhead => h.noSlash (List.mem_of_head? hhead)
  have hpart : Component.ofPart name = some (.normal name) := by
    rw [Component.ofPart, if_neg h.notDot, if_neg h.notParent]
  have hcomponents : components name = [.normal name] := by
    rw [components, Component.start, if_neg hslash, splitOn_of_noSlash h.noSlash]
    simp [h.nonempty, h.notDot, hpart]
  rw [entryOf, hcomponents]

namespace DistDir

def empty (elsewhere : Text → Option (List UInt8)) : DistDir :=
  ⟨Dict.empty, elsewhere, fun _ h => absurd h List.not_mem_nil⟩

def file (dir : DistDir) (path : Text) : Option (List UInt8) :=
  match entryOf path with
  | some name => dir.files.get name
  | none => dir.elsewhere path

/-- `write_bytes`, to an entry of the directory. -/
def write (dir : DistDir) (path : Text) (bytes : List UInt8) : DistDir :=
  match h : entryOf path with
  | none => dir
  | some name =>
      { dir with
        files := dir.files.set name bytes
        plain := fun other hother => by
          obtain ⟨found, hfound⟩ := Dict.mem_keys_iff.mp hother
          rw [Dict.get_set] at hfound
          split at hfound
          · next heq => exact heq ▸ plain_of_entryOf h
          · exact dir.plain other (Dict.mem_keys_iff.mpr ⟨found, hfound⟩) }

variable {dir : DistDir}

@[simp] theorem file_of_plain {name : Text} (h : Foundation.Plain name) :
    dir.file name = dir.files.get name := by
  rw [file, entryOf_of_plain h]

theorem files_write {name : Text} (h : Foundation.Plain name) (bytes : List UInt8) :
    (dir.write name bytes).files = dir.files.set name bytes := by
  unfold write
  split
  · next hnone =>
    rw [entryOf_of_plain h] at hnone
    cases hnone
  · next found hfound =>
    rw [entryOf_of_plain h] at hfound
    cases hfound
    rfl

def toAssetDir (dir : DistDir) : AssetDir where
  iterdir := dir.files.keys
  file := dir.file
  nodup := dir.files.nodup
  plain := dir.plain
  complete name hplain hsome := by
    rw [file_of_plain hplain] at hsome
    obtain ⟨bytes, hbytes⟩ := Option.isSome_iff_exists.mp hsome
    exact Dict.mem_keys_iff.mpr ⟨bytes, hbytes⟩

end DistDir

/-! ## The registry manifest -/

def registryTargets : List Target := targets.filter Target.registry

/-- The files that a manifest may refer to. -/
def registryNames : List Text :=
  registryTargets.flatMap fun target => [registryIdentityName target, registryZstdName target]

def registryManifestName : Text := "gel-registry.json".toList

/-- `VERSION_PATTERN`, and its groups. -/
def versionMatch (version : Text) : Option (Plain × Option (Phase × ℕ)) :=
  match plainMatch version with
  | some v => some (v, none)
  | none => (previewMatch version).bind fun m =>
      (plainMatch m.base).map fun v => (v, some (m.phase, m.number))

def prereleaseDetail (detail : Phase × ℕ) : Json :=
  .obj [("phase", .str detail.1.name), ("number", .num detail.2)]

/-- `_version_details`, and the `release_channel`. -/
def versionDetails (version : Text) : Except String (Json × Text) := do
  let (v, pre) ← expect (versionMatch version)
    s!"unsupported release version: {String.ofList version}"
  let details := Json.obj [("major", .num (ofLex v).1), ("minor", .num (ofLex (ofLex v).2).1),
    ("patch", .num (ofLex (ofLex v).2).2),
    ("prerelease", .arr (pre.toList.map prereleaseDetail)), ("metadata", .obj [])]
  return (details, if pre.isSome then testingChannel else stableChannel)

/-- Up to the name of a file. -/
def releaseDownloadPrefix (repository version : Text) : Text :=
  "https://github.com/".toList ++ repository ++ "/releases/download/v".toList ++ version ++ ['/']

def releaseDownloadUrl (repository version name : Text) : Text :=
  releaseDownloadPrefix repository version ++ name

/-- `_install_ref`. -/
def installRef (url mediaType encoding : Text) (digest : FileDigest) : Json :=
  .obj [("ref", .str url), ("type", .str mediaType), ("encoding", .str encoding),
    ("verification", .obj [("size", .num digest.size), ("blake2b", .str digest.blake2b512),
      ("sha256", .str digest.sha256)])]

section Manifest

variable (repository version buildDate : Text) (entries : Dict Text FileDigest)

def packageJson (details : Json) (target : Target) (identity zstd : FileDigest) : Json :=
  let identityUrl := releaseDownloadUrl repository version (registryIdentityName target)
  let zstdUrl := releaseDownloadUrl repository version (registryZstdName target)
  .obj [("basename", .str "gel-cli".toList), ("name", .str "gel-cli".toList),
    ("version", .str version), ("version_details", details), ("version_key", .str version),
    ("revision", .str "1".toList), ("build_date", .str buildDate),
    ("architecture", .str target.arch), ("slot", .str []), ("installref", .str zstdUrl),
    ("installrefs", .arr [installRef identityUrl target.mediaType "identity".toList identity,
      installRef zstdUrl target.mediaType "zstd".toList zstd]),
    ("tags", .obj [])]

def manifestPackage (details : Json) (target : Target) : Except String Json := do
  let identityName := registryIdentityName target
  let zstdName := registryZstdName target
  let identity ← expect (entries.get identityName) s!"KeyError: {String.ofList identityName}"
  let zstd ← expect (entries.get zstdName) s!"KeyError: {String.ofList zstdName}"
  return packageJson repository version buildDate details target identity zstd

def indexJson (channel : Text) (target : Target) (package : Json) : Json :=
  .obj [("channel", .str channel), ("platform", .str target.triple), ("packages", .arr [package])]

def manifestIndex (details : Json) (channel : Text) (target : Target) : Except String Json := do
  let package ← manifestPackage repository version buildDate entries details target
  return indexJson channel target package

def buildManifest : Except String Json := do
  let (details, channel) ← versionDetails version
  let unexpected := Text.sorted (entries.keys.filter fun name => name ∉ registryNames)
  let refused := ", ".intercalate (unexpected.map String.ofList)
  require (unexpected = [])
    s!"gel-registry.json may only reference registry executables; refused: {refused}"
  let indexes ← registryTargets.mapM
    (manifestIndex repository version buildDate entries details channel)
  return .obj [("schema_version", .num 1), ("indexes", .arr indexes)]

end Manifest

/-- `dump` of `registry_manifest.py`. -/
@[irreducible] def dumpManifest (manifest : Json) : List UInt8 :=
  Text.utf8 (manifest.dumps (.indented 2) ++ ['\n'])

/-! ## Assembling -/

/-- What the checks of a distribution are given: the libraries and programs that they call, and
what is elsewhere in the file system. `loads` is `json.loads` of bytes, whose encoding it guesses,
`validate` is `validate_manifest` with pydantic and jsonschema, and `attestations` is
`gh attestation verify` of the files. -/
structure DistTooling where
  hashlib : Hashlib
  repository : Text
  loads : List UInt8 → Except String Json
  validate : Json → Except String Unit
  attestations : List Downloaded → Text → Except String Unit
  elsewhere : Text → Option (List UInt8)
  loads_dump : ∀ manifest : Json, manifest.Apart → loads (dumpManifest manifest) = .ok manifest

/-- What is written is UTF-8, and a reader of UTF-8 reads it. -/
theorem loads_dumpManifest {manifest : Json} (h : manifest.Apart) :
    (Text.ofUtf8 (dumpManifest manifest)).bind Json.loads = some manifest := by
  unfold dumpManifest
  rw [Text.ofUtf8_utf8, Option.bind_some]
  refine Json.loads_dumps _ h fun c hc => ?_
  rw [List.mem_singleton.mp hc]
  rfl

/-- The tooling with a `json.loads` that decodes UTF-8 only. -/
example (hashlib : Hashlib) (repository : Text) (validate : Json → Except String Unit)
    (attestations : List Downloaded → Text → Except String Unit)
    (elsewhere : Text → Option (List UInt8)) : DistTooling where
  hashlib := hashlib
  repository := repository
  loads bytes := expect ((Text.ofUtf8 bytes).bind Json.loads) "Expecting value"
  validate := validate
  attestations := attestations
  elsewhere := elsewhere
  loads_dump _ h := expect_eq_ok.mpr (loads_dumpManifest h)

section Assemble

variable (tooling : DistTooling)

def addDigest (dist : DistDir) (entries : Dict Text FileDigest) (name : Text) :
    Except String (Dict Text FileDigest) := do
  let bytes ← expect (dist.file name) s!"missing registry asset {String.ofList name}"
  return entries.set name (digestFile tooling.hashlib bytes)

def digestRegistry (dist : DistDir) : Except String (Dict Text FileDigest) :=
  registryNames.foldlM (addDigest tooling dist) Dict.empty

def DistDir.writeSums (dist : DistDir) (hashlib : Hashlib) (name : Text) : DistDir :=
  dist.write name
    (Release.writeSums hashlib dist.toAssetDir (sumsAlgorithm name) digestManifestNames)

def assembleStage (version buildDate : Text) (dist : DistDir) : Except String DistDir := do
  let entries ← digestRegistry tooling dist
  let manifest ← buildManifest tooling.repository version buildDate entries
  tooling.validate manifest
  let dist := dist.write registryManifestName (dumpManifest manifest)
  let dist := dist.writeSums tooling.hashlib sha256SumsName
  let dist := dist.writeSums tooling.hashlib blake2bSumsName
  let found := Text.sorted dist.files.keys
  let expected := expectedAssets version
  let missing := reprTexts (Text.sorted (expected.filter fun name => name ∉ found).dedup)
  let extra := reprTexts (Text.sorted (found.filter fun name => name ∉ expected).dedup)
  require (found = expected) s!"inventory mismatch; missing={missing} extra={extra}"
  return dist

end Assemble

/-! ## Writing the record -/

/-- The arguments of `write_record` that go into the record as they are. -/
structure RecordArgs where
  line : Text
  prNumber : ℤ
  phase : Option Text
  version : Text
  draftReleaseId : ℤ
  sourceSha : Text
  buildSha : Text
  sourceSnapshot : Text
  baseSha : Text
  buildDate : Text
  runId : ℤ
  runAttempt : ℤ

/-- The ids of the assets, from the list that the API gave. -/
def readAssetIds : ℕ → Dict Text ℤ → List Json → Except String (Dict Text ℤ)
  | _, ids, [] => .ok ids
  | index, ids, item :: rest => do
      require item.isObj s!"asset-ids.json asset ID entry {index} must be an object with name and id"
      let name ← expect ((item.get "name").str?.filter (· ≠ []))
        s!"asset-ids.json asset ID entry {index} has an invalid name"
      let id ← expect (positive? (item.get "id"))
        s!"asset-ids.json asset ID entry {index} has an invalid id"
      require (ids.get name = none) s!"asset-ids.json contains duplicate asset name {Json.reprText name}"
      readAssetIds (index + 1) (ids.set name id) rest

section Record

variable (hashlib : Hashlib) (args : RecordArgs) (dist : DistDir)

def assetJson (id : ℤ) (name : Text) (digest : FileDigest) : Json :=
  .obj [("id", .num id), ("name", .str name), ("size", .num digest.size),
    ("sha256", .str digest.sha256), ("blake2b512", .str digest.blake2b512)]

def recordEntry (ids : Dict Text ℤ) (name : Text) : Except String Json := do
  let bytes ← expect (dist.file name) s!"missing staged asset {String.ofList name}"
  let id ← expect (ids.get name) s!"KeyError: {String.ofList name}"
  return assetJson id name (digestFile hashlib bytes)

/-- The object that `build_record` validates. -/
def recordJson (entries : List Json) : Json :=
  .obj [("schema_version", .num schemaVersion), ("line", .str args.line),
    ("pr_number", .num args.prNumber), ("phase", (args.phase.map Json.str).getD .null),
    ("version", .str args.version), ("tag", .str ('v' :: args.version)),
    ("draft_release_id", .num args.draftReleaseId), ("source_sha", .str args.sourceSha),
    ("source_snapshot", .str args.sourceSnapshot), ("build_sha", .str args.buildSha),
    ("base_sha", .str args.baseSha), ("build_date", .str args.buildDate),
    ("workflow_runs", .arr [.obj [("workflow", .str "release-candidate.yml".toList),
      ("run_id", .num args.runId), ("run_attempt", .num args.runAttempt)]]),
    ("attestation", .obj [("predicate_type", .str "https://slsa.dev/provenance/v1".toList),
      ("subject_count", .num (expectedAssets args.version).length)]),
    ("assets", .arr entries)]

def buildRecord (ids : Dict Text ℤ) : Except String CandidateRecord := do
  let expected := expectedAssets args.version
  let missing := reprTexts (Text.sorted (expected.filter fun name => name ∉ ids.keys).dedup)
  let extra := reprTexts (Text.sorted (ids.keys.filter fun name => name ∉ expected).dedup)
  require ((∀ name ∈ ids.keys, name ∈ expected) ∧ ∀ name ∈ expected, name ∈ ids.keys)
    s!"asset id inventory mismatch; missing={missing} extra={extra}"
  let entries ← expected.mapM (recordEntry hashlib dist ids)
  (CandidateRecord.read (recordJson args entries)).mapError fun error =>
    s!"candidate record validation failed: {error}"

def writeRecord (assetIds : Json) : Except String CandidateRecord := do
  let items ← expect assetIds.arr? "asset-ids.json must contain a JSON list of asset objects"
  let ids ← readAssetIds 0 Dict.empty items
  buildRecord hashlib args dist ids

end Record

/-! ## Reading the files back -/

section Check

variable (tooling : DistTooling)

/-- `manifest["indexes"]` and the like, in a manifest that was validated. -/
def itemsOf (value : Json) (key : String) : Except String (List Json) :=
  expect (value.get key).arr? s!"KeyError: {key}"

def textOf (value : Json) (key : String) : Except String Text :=
  expect (value.get key).str? s!"KeyError: {key}"

/-- The packages of a manifest. -/
def packagesOf (manifest : Json) : Except String (List Json) := do
  let fragments ← itemsOf manifest "indexes"
  let packages ← fragments.mapM fun fragment => itemsOf fragment "packages"
  return packages.flatten

/-- The `ref` of each of the install refs. -/
def refsOf (package : Json) : Except String (List Text) := do
  let first ← textOf package "installref"
  let installRefs ← itemsOf package "installrefs"
  let rest ← installRefs.mapM fun ref => textOf ref "ref"
  return first :: rest

/-- `DISTRIBUTION_SUFFIXES`. -/
def distributionSuffixes : List Text :=
  [".tar.gz".toList, ".zip".toList, ".deb".toList, ".rpm".toList]

def checkRef (version ref : Text) : Except String Unit := do
  let start := releaseDownloadPrefix tooling.repository version
  let name ← expect (start.isPrefixOf? ref)
    s!"gel-registry.json must use public release URLs under {String.ofList start}; got {String.ofList ref}"
  require (¬ (∃ suffix ∈ distributionSuffixes, suffix <:+ name) ∧ name ∉ digestManifestNames)
    s!"isolation invariant violated: gel-registry.json references {String.ofList name}"
  require (name ∈ registryNames) s!"gel-registry.json references unknown asset {String.ofList name}"

def checkManifestUrls (manifest : Json) (version : Text) : Except String Unit := do
  let packages ← packagesOf manifest
  let refs ← packages.mapM refsOf
  refs.flatten.forM (checkRef tooling version)

def checkRefDigests (dir : DistDir) (ref : Json) : Except String Unit := do
  let url ← textOf ref "ref"
  let name := namePart url
  let bytes ← expect (dir.file name) s!"FileNotFoundError: {String.ofList name}"
  let actual := digestFile tooling.hashlib bytes
  let expected := ref.get "verification"
  require ((expected.get "blake2b").str? = some actual.blake2b512)
    s!"{String.ofList name}: gel-registry.json BLAKE2b does not match the staged bytes"
  require ((expected.get "sha256").str? = some actual.sha256)
    s!"{String.ofList name}: gel-registry.json SHA-256 does not match the staged bytes"
  require ((expected.get "size").int? = some (actual.size : ℤ))
    s!"{String.ofList name}: gel-registry.json size does not match the staged bytes"

def checkManifestDigests (manifest : Json) (dir : DistDir) : Except String Unit := do
  let packages ← packagesOf manifest
  let refs ← packages.mapM fun package => itemsOf package "installrefs"
  refs.flatten.forM (checkRefDigests tooling dir)

def SumsError.text : SumsError → String
  | .unicodeDecode => "UnicodeDecodeError"
  | .unpack => "not enough values to unpack"
  | .digestMismatch message => message

def checkSums (dir : DistDir) (name : Text) : Except String Unit := do
  let failed := s!"{String.ofList name}: digest manifest verification failed: "
  let sums ← expect (dir.file name) (failed ++ "FileNotFoundError")
  (verifySums tooling.hashlib dir.toAssetDir name sums).mapError fun error => failed ++ error.text

/-- The directory that files were downloaded to, empty before. -/
def downloadDir (files : List Downloaded) : DistDir :=
  files.foldl (fun dir file => dir.write file.1.name file.2) (.empty tooling.elsewhere)

/-- The checks that `verify` makes over all of the downloaded files. -/
def distribution (record : CandidateRecord) (files : List Downloaded) : Except String Unit := do
  let dir := downloadDir tooling files
  digestManifestNames.forM (checkSums tooling dir)
  let bytes ← expect (dir.file registryManifestName) "FileNotFoundError"
  let manifest ← tooling.loads bytes
  tooling.validate manifest
  checkManifestUrls tooling manifest record.version
  checkManifestDigests tooling manifest dir
  tooling.attestations files record.buildSha

end Check

end GelCli.Release
