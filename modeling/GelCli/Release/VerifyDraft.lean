import GelCli.Release.Digests
import GelCli.Release.DraftShape
import GelCli.Release.Hub

/-!
# Reading a draft back

`verify` of `verify_draft.py` and the checks of `github_release.py` on the bytes of a
release: what is published is what the record says, read back through the API. The digest
lists, the registry manifest and the attestations are one check of the downloaded files,
`distribution`.
-/

namespace GelCli.Release

open GelCli.Foundation

/-- The file that a recorded asset was downloaded to. -/
abbrev Downloaded := CandidateAsset × List UInt8

/-- What the tooling is given: the libraries it calls, and the checks of the downloaded
files that are made over all of them. -/
structure Tooling where
  codec : JsonCodec
  format : RecordFormat
  hashlib : Hashlib
  distribution : CandidateRecord → List Downloaded → Except String Unit

/-! ## `check_candidate_identity` -/

/-- A field that is compared: its name, whether the two values are the same, and how they print. -/
structure FieldCheck where
  field : String
  same : Bool
  actual : String
  expected : String

def FieldCheck.text (field : String) (actual expected : Text) : FieldCheck :=
  ⟨field, actual = expected, Json.reprText actual, Json.reprText expected⟩

def FieldCheck.phase (field : String) (actual expected : Option Phase) : FieldCheck :=
  ⟨field, actual = expected, (phaseJson actual).repr, (phaseJson expected).repr⟩

def FieldCheck.number (field : String) (actual expected : ℤ) : FieldCheck :=
  ⟨field, actual = expected, toString actual, toString expected⟩

/-- The first field that differs is reported. -/
def checkFields (owner wanted : String) (checks : List FieldCheck) : Except String Unit :=
  checks.forM fun c =>
    require (c.same = true) s!"{owner} {c.field} {c.actual} does not match {wanted} {c.expected}"

theorem checkFields_eq_ok {owner wanted : String} {checks : List FieldCheck} :
    checkFields owner wanted checks = .ok ⟨⟩ ↔ ∀ c ∈ checks, c.same = true := by
  rw [checkFields, forM_eq_ok]
  exact forall₂_congr fun c _ => require_eq_ok

def identityFieldChecks (actual expected : IdentityFields) : List FieldCheck :=
  [.text "line" actual.line expected.line, .number "pr_number" actual.prNumber expected.prNumber,
    .text "base_sha" actual.baseSha expected.baseSha,
    .text "source_sha" actual.sourceSha expected.sourceSha,
    .text "build_sha" actual.buildSha expected.buildSha,
    .text "source_snapshot" actual.sourceSnapshot expected.sourceSnapshot,
    .phase "phase" actual.phase expected.phase, .text "version" actual.version expected.version]

/-- `check_candidate_identity`. -/
def checkCandidateIdentity (record : CandidateRecord) (expected : CandidateIdentity) :
    Except String Unit := do
  let actual := record.identityFields
  checkFields "candidate" "expected" (identityFieldChecks actual expected.toIdentityFields)
  let channel := Json.reprText expected.channel
  let phase := (phaseJson actual.phase).repr
  require (expected.channel = actual.channel)
    s!"candidate channel {channel} does not match phase {phase}"

/-! ## `check_release_identity` -/

/-- The part of `check_release_identity` before the tag is looked up. -/
def checkDraftRelease (release : Json) (record : CandidateRecord) : Except String Unit := do
  let id ← expect (release.get "id").int? "draft release response has no valid release id"
  require (id = record.draftReleaseId)
    s!"draft release id {id} does not match candidate release id {record.draftReleaseId}"
  let tag := Json.reprText record.tag
  let shownTag := (release.get "tag_name").repr
  require ((release.get "tag_name").str? = some record.tag)
    s!"draft release tag {shownTag} does not match candidate tag {tag}"
  let shownName := (release.get "name").repr
  require ((release.get "name").str? = some record.tag)
    s!"draft release name {shownName} does not match candidate tag {tag}"
  require ((release.get "draft").bool? = some true) "candidate release must still be a draft"
  let shownPrerelease := (release.get "prerelease").repr
  let shownPhase := (phaseJson record.phase).repr
  require ((release.get "prerelease").bool? = some record.phase.isSome)
    s!"draft release prerelease flag {shownPrerelease} does not match candidate phase {shownPhase}"

theorem checkDraftRelease_eq_ok {release : Json} {record : CandidateRecord} :
    checkDraftRelease release record = .ok ⟨⟩ ↔
      release.get "id" = .num record.draftReleaseId ∧ release.get "tag_name" = .str record.tag ∧
        release.get "name" = .str record.tag ∧ release.get "draft" = .bool true ∧
        release.get "prerelease" = .bool record.phase.isSome := by
  constructor
  · intro h
    obtain ⟨id, hid, h⟩ := expect_bind_eq_ok.mp h
    obtain ⟨hrecord, h⟩ := require_bind_eq_ok.mp h
    obtain ⟨htag, h⟩ := require_bind_eq_ok.mp h
    obtain ⟨hname, h⟩ := require_bind_eq_ok.mp h
    obtain ⟨hdraft, h⟩ := require_bind_eq_ok.mp h
    have hprerelease := require_eq_ok.mp h
    rw [Json.int?_eq_some] at hid
    rw [Json.str?_eq_some] at htag hname
    rw [Json.bool?_eq_some] at hdraft hprerelease
    exact ⟨hid.trans (by rw [hrecord]), htag, hname, hdraft, hprerelease⟩
  · rintro ⟨hid, htag, hname, hdraft, hprerelease⟩
    refine expect_bind_eq_ok.mpr ⟨_, Json.int?_eq_some.mpr hid, ?_⟩
    refine require_bind_eq_ok.mpr ⟨rfl, require_bind_eq_ok.mpr ⟨Json.str?_eq_some.mpr htag, ?_⟩⟩
    refine require_bind_eq_ok.mpr ⟨Json.str?_eq_some.mpr hname, ?_⟩
    refine require_bind_eq_ok.mpr ⟨Json.bool?_eq_some.mpr hdraft, ?_⟩
    exact require_pos (Json.bool?_eq_some.mpr hprerelease)

/-- `check_release_identity`: a tag that exists has to be at its target already. -/
def checkReleaseIdentity (release : Json) (record : CandidateRecord) (expectedBuildSha : Text) :
    Publishing (Option Text) := do
  MonadExcept.ofExcept (checkDraftRelease release record)
  let resolved ← resolveTagCommit record.tag
  MonadExcept.ofExcept (require (∀ sha ∈ resolved, lower sha = lower expectedBuildSha)
    s!"tag {String.ofList record.tag} resolves to {optionRepr resolved}, expected candidate build/source SHA {String.ofList expectedBuildSha}")
  return resolved

/-! ## `verify` -/

/-- The model that an asset of GitHub is read with. -/
def githubAsset (asset : HubAsset) : Except String Unit :=
  require (0 < asset.id ∧ asset.name ≠ [] ∧ asset.bytes ≠ []) "invalid GitHub asset"

/-- The ids and the sizes of the recorded assets are those that are listed. -/
def checkRemote (listed : List HubAsset) (entry : CandidateAsset) : Except String Unit := do
  let name := String.ofList entry.name
  let remote ← expect (listed.reverse.find? fun asset => asset.name = entry.name) s!"KeyError: {name}"
  require (remote.id = entry.id) s!"{name}: asset id {remote.id} replaced recorded {entry.id}"
  require ((remote.bytes.length : ℤ) = entry.size)
    s!"{name}: size {remote.bytes.length} replaced recorded {entry.size}"

/-- The bytes of an asset have the recorded digests. -/
def checkDigests (hashlib : Hashlib) (file : Downloaded) : Except String Unit := do
  let digest := digestFile hashlib file.2
  let name := String.ofList file.1.name
  require ((digest.size : ℤ) = file.1.size)
    s!"{name}: size {digest.size} does not match recorded {file.1.size}"
  require (digest.sha256 = file.1.sha256) s!"{name}: SHA-256 does not match recorded digest"
  require (digest.blake2b512 = file.1.blake2b512) s!"{name}: BLAKE2b does not match recorded digest"

/-- `candidate.verify_record`, of the files that were downloaded. -/
def verifyRecord (hashlib : Hashlib) (record : CandidateRecord) (files : List Downloaded) :
    Except String Unit := do
  let names := record.assets.map CandidateAsset.name
  let expected := expectedAssets record.version
  let missing := reprTexts (Text.sorted (expected.filter fun name => name ∉ names))
  let extra := reprTexts (Text.sorted (names.filter fun name => name ∉ expected))
  require (Text.sorted names = expected) s!"inventory mismatch; missing={missing} extra={extra}"
  files.forM (checkDigests hashlib)

section Verify

variable (tooling : Tooling)

/-- The record that a preview carries among its assets is the record, byte for byte. -/
def verifyRecordAsset (record : CandidateRecord) (listed : List HubAsset) : Publishing Unit := do
  let asset ← MonadExcept.ofExcept
    (expect (listed.reverse.find? fun asset => asset.name = previewRecordName) "KeyError")
  let expected := tooling.format.dump record
  MonadExcept.ofExcept (require (asset.bytes.length = expected.length)
    s!"gel-candidate.json: size {asset.bytes.length} does not match expected candidate record bytes")
  let actual ← downloadAsset asset.id
  MonadExcept.ofExcept (require (actual = expected)
    "uploaded candidate record bytes differ from expected record")
  let _ ← MonadExcept.ofExcept (tooling.format.loadBytes actual)
  return ⟨⟩

def downloadRecorded (entry : CandidateAsset) : Publishing Downloaded := do
  let bytes ← downloadAsset entry.id
  return (entry, bytes)

/-- `verify`, with the attestations. -/
def verify (record : CandidateRecord) (expected : CandidateIdentity)
    (expectedTagTarget : Option Text) : Publishing Unit := do
  MonadExcept.ofExcept (checkCandidateIdentity record expected)
  let release ← getRelease record.draftReleaseId
  let _ ← checkReleaseIdentity release record (expectedTagTarget.getD record.buildSha)
  let listed ← listReleaseAssets record.draftReleaseId
  MonadExcept.ofExcept (listed.forM githubAsset)
  MonadExcept.ofExcept (checkInventory (listed.map HubAsset.name) record.version record.phase)
  MonadExcept.ofExcept (record.assets.forM (checkRemote listed))
  let files ← record.assets.mapM downloadRecorded
  MonadExcept.ofExcept (verifyRecord tooling.hashlib record files)
  Remote.read "gh attestation verify failed" fun _ => tooling.distribution record files
  if record.phase.isSome then verifyRecordAsset tooling record listed else return ⟨⟩

/-- `_verify_draft_before_publication`. -/
def verifyDraftBeforePublication (record : CandidateRecord) (expected : CandidateIdentity)
    (expectedTagTarget : Option Text) : Publishing Unit :=
  tryCatch (verify tooling record expected expectedTagTarget) fun error =>
    throw s!"draft verification failed: {error}"

/-! ## `_verify_published_asset_bytes` -/

/-- The entries of a listing that are found by their names, the last one of a name. -/
def listedId (listed : List Json) (name : Text) : Option ℤ :=
  (listed.reverse.find? fun item => item.isObj && (item.get "name").str? = some name).bind
    fun item => positive? (item.get "id")

/-- The id that is listed for a name. -/
def publishedId (listed : List Json) (name : Text) : Publishing ℤ :=
  MonadExcept.ofExcept (expect (listedId listed name)
    s!"published release is missing asset id for {String.ofList name}")

def verifyPublishedAsset (listed : List Json) (entry : CandidateAsset) : Publishing Unit := do
  let id ← publishedId listed entry.name
  let actual ← downloadAsset id
  let name := String.ofList entry.name
  MonadExcept.ofExcept (do
    require ((actual.length : ℤ) = entry.size) s!"published asset {name} size changed"
    require (tooling.hashlib.sha256 actual = entry.sha256)
      s!"published asset {name} SHA-256 changed"
    require (tooling.hashlib.blake2b actual = entry.blake2b512)
      s!"published asset {name} BLAKE2b changed")

def verifyPublishedRecord (listed : List Json) (record : CandidateRecord) : Publishing Unit := do
  let id ← publishedId listed previewRecordName
  let actual ← downloadAsset id
  MonadExcept.ofExcept (require (actual = tooling.format.dump record)
    "published candidate bytes changed: uploaded candidate record bytes differ from expected record")
  let _ ← MonadExcept.ofExcept (tooling.format.loadBytes actual)
  return ⟨⟩

/-- `_verify_published_asset_bytes`: a payload that lists no assets has nothing to read back. -/
def verifyPublishedAssetBytes (record : CandidateRecord) (release : Json) : Publishing Unit :=
  match (release.get "assets").arr? with
  | none | some [] => return ⟨⟩
  | some listed => do
      record.assets.forM (verifyPublishedAsset tooling listed)
      if record.phase.isSome then verifyPublishedRecord tooling listed record else return ⟨⟩

end Verify

/-! ## None of it changes anything -/

section Reads

variable {tooling : Tooling}

theorem reads_checkReleaseIdentity (release : Json) (record : CandidateRecord) (sha : Text) :
    Remote.Reads (checkReleaseIdentity release record sha) := by
  apply Remote.Reads.bind (Remote.Reads.ofExcept _)
  intro _
  apply Remote.Reads.bind (reads_resolveTagCommit _)
  intro resolved
  exact Remote.Reads.bind (Remote.Reads.ofExcept _) fun _ => Remote.Reads.pure _

theorem reads_downloadRecorded (entry : CandidateAsset) :
    Remote.Reads (downloadRecorded entry) :=
  Remote.Reads.bind (reads_downloadAsset _) fun _ => Remote.Reads.pure _

theorem reads_verifyRecordAsset (record : CandidateRecord) (listed : List HubAsset) :
    Remote.Reads (verifyRecordAsset tooling record listed) := by
  apply Remote.Reads.bind (Remote.Reads.ofExcept _)
  intro asset
  apply Remote.Reads.bind (Remote.Reads.ofExcept _)
  intro _
  apply Remote.Reads.bind (reads_downloadAsset _)
  intro actual
  apply Remote.Reads.bind (Remote.Reads.ofExcept _)
  intro _
  exact Remote.Reads.bind (Remote.Reads.ofExcept _) fun _ => Remote.Reads.pure _

theorem reads_verify (record : CandidateRecord) (expected : CandidateIdentity)
    (target : Option Text) : Remote.Reads (verify tooling record expected target) := by
  apply Remote.Reads.bind (Remote.Reads.ofExcept _)
  intro _
  apply Remote.Reads.bind (reads_getRelease _)
  intro release
  apply Remote.Reads.bind (reads_checkReleaseIdentity _ _ _)
  intro _
  apply Remote.Reads.bind (reads_listReleaseAssets _)
  intro listed
  apply Remote.Reads.bind (Remote.Reads.ofExcept _)
  intro _
  apply Remote.Reads.bind (Remote.Reads.ofExcept _)
  intro _
  apply Remote.Reads.bind (Remote.Reads.ofExcept _)
  intro _
  apply Remote.Reads.bind (Remote.Reads.mapM fun entry _ => reads_downloadRecorded entry)
  intro files
  apply Remote.Reads.bind (Remote.Reads.ofExcept _)
  intro _
  apply Remote.Reads.bind (Remote.Reads.read _ _)
  intro _
  exact Remote.Reads.ite (reads_verifyRecordAsset record listed) (Remote.Reads.pure _)

theorem reads_verifyDraft (record : CandidateRecord) (expected : CandidateIdentity)
    (target : Option Text) :
    Remote.Reads (verifyDraftBeforePublication tooling record expected target) :=
  Remote.Reads.tryThrow (reads_verify record expected target)

theorem reads_verifyPublishedAsset (listed : List Json) (entry : CandidateAsset) :
    Remote.Reads (verifyPublishedAsset tooling listed entry) := by
  apply Remote.Reads.bind (Remote.Reads.ofExcept _)
  intro id
  exact Remote.Reads.bind (reads_downloadAsset _) fun _ => Remote.Reads.ofExcept _

theorem reads_verifyPublishedAssetBytes (record : CandidateRecord) (release : Json) :
    Remote.Reads (verifyPublishedAssetBytes tooling record release) := by
  have hrecord : ∀ listed, Remote.Reads (verifyPublishedRecord tooling listed record) := by
    intro listed
    apply Remote.Reads.bind (Remote.Reads.ofExcept _)
    intro id
    apply Remote.Reads.bind (reads_downloadAsset _)
    intro actual
    apply Remote.Reads.bind (Remote.Reads.ofExcept _)
    intro _
    exact Remote.Reads.bind (Remote.Reads.ofExcept _) fun _ => Remote.Reads.pure _
  unfold verifyPublishedAssetBytes
  split
  · exact Remote.Reads.pure _
  · exact Remote.Reads.pure _
  · apply Remote.Reads.bind (Remote.Reads.forM fun entry _ => reads_verifyPublishedAsset _ entry)
    intro _
    exact Remote.Reads.ite (hrecord _) (Remote.Reads.pure _)

end Reads

end GelCli.Release
