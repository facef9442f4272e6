import GelCli.Foundation.Whitespace
import GelCli.Release.Record

/-!
# Drafts

What a draft release has to look like: the names of its assets (`assets.py` and
`check_inventory` of `verify_draft.py`), the identity in its body, and the shape that
`github_release.py` asks of it before it is staged to or published.
-/

namespace GelCli.Release

open GelCli.Foundation

/-! ## The names of the assets -/

structure Target where
  triple : Text
  exeSuffix : Text
  archiveExt : Text
  registry : Bool
  mediaType : Text
  arch : Text
  debArch : Option Text
  rpmArch : Option Text
deriving DecidableEq, Repr

/-- `TARGETS`. -/
def targets : List Target := [
  ⟨"x86_64-unknown-linux-musl".toList, [], "tar.gz".toList, true,
    "application/x-pie-executable".toList, "x86_64".toList, some "amd64".toList,
    some "x86_64".toList⟩,
  ⟨"aarch64-unknown-linux-musl".toList, [], "tar.gz".toList, true,
    "application/x-pie-executable".toList, "aarch64".toList, some "arm64".toList,
    some "aarch64".toList⟩,
  ⟨"aarch64-apple-darwin".toList, [], "tar.gz".toList, true,
    "application/x-mach-binary".toList, "aarch64".toList, none, none⟩,
  ⟨"x86_64-apple-darwin".toList, [], "tar.gz".toList, false,
    "application/x-mach-binary".toList, "x86_64".toList, none, none⟩,
  ⟨"x86_64-pc-windows-msvc".toList, ".exe".toList, "zip".toList, true,
    "application/x-dosexec".toList, "x86_64".toList, none, none⟩,
  ⟨"aarch64-pc-windows-msvc".toList, ".exe".toList, "zip".toList, true,
    "application/x-dosexec".toList, "aarch64".toList, none, none⟩]

def registryIdentityName (target : Target) : Text :=
  "gel-cli-".toList ++ target.triple ++ target.exeSuffix

def registryZstdName (target : Target) : Text := registryIdentityName target ++ ".zst".toList

def archiveName (version : Text) (target : Target) : Text :=
  "gel-v".toList ++ version ++ '-' :: target.triple ++ '.' :: target.archiveExt

/-- `deb_name`, for a target that has one. -/
def debName? (version : Text) (target : Target) : Option Text :=
  target.debArch.map fun arch => "gel_".toList ++ version ++ '_' :: arch ++ ".deb".toList

/-- `rpm_name`, for a target that has one. -/
def rpmName? (version : Text) (target : Target) : Option Text :=
  target.rpmArch.map fun arch => "gel-".toList ++ version ++ "-1.".toList ++ arch ++ ".rpm".toList

def manifestNames : List Text :=
  ["gel-registry.json".toList, "SHA256SUMS".toList, "BLAKE2B512SUMS".toList]

def expectedAssets (version : Text) : List Text :=
  Text.sorted
    (((targets.filter Target.registry).flatMap fun target =>
        [registryIdentityName target, registryZstdName target]) ++
      (targets.flatMap fun target =>
        archiveName version target ::
          ((debName? version target).toList ++ (rpmName? version target).toList)) ++
      manifestNames)

/-- `^[0-9]+\.[0-9]+\.[0-9]+-(?:alpha|beta|rc)\.[1-9][0-9]*$`: the base may begin with a zero. -/
def previewLike (version : Text) : Bool :=
  match Text.cut '-' version with
  | none => false
  | some (base, rest) =>
      match base.splitOn '.', Text.cut '.' rest with
      | [major, minor, patch], some (name, number) =>
          ([major, minor, patch].all fun part => part ≠ [] && part.all Char.isDigit) &&
            (Phase.ofName? name).isSome && Decimal.positive number
      | _, _ => false

def reprTexts (ts : List Text) : String := (Json.arr (ts.map Json.str)).repr

/-- `check_inventory`: a preview carries its record among its assets. -/
def checkInventory (names : List Text) (version : Text) (phase : Option Phase) :
    Except String Unit :=
  let expected :=
    if phase.isSome || previewLike version then
      Text.sorted (expectedAssets version ++ [previewRecordName])
    else expectedAssets version
  let missing := reprTexts (Text.sorted (expected.filter fun name => name ∉ names).dedup)
  let unexpected := reprTexts (Text.sorted (names.filter fun name => name ∉ expected).dedup)
  require (Text.sorted names = expected)
    s!"draft inventory mismatch; missing={missing} unexpected={unexpected}"

/-! ## The identity in the body -/

/-- The object that the body of a candidate release holds, its keys sorted. -/
def bodyJson (i : CandidateIdentity) : Json :=
  .obj [("candidate_identity", .obj [("base_sha", .str i.baseSha), ("build_sha", .str i.buildSha),
    ("channel", .str i.channel), ("line", .str i.line), ("phase", phaseJson i.phase),
    ("pr_number", .num i.prNumber), ("source_sha", .str i.sourceSha),
    ("source_snapshot", .str i.sourceSnapshot), ("version", .str i.version)])]

/-- `json.loads` and `json.dumps`. -/
structure JsonCodec where
  loads : Text → Except String Json
  dumps : Json → Text
  loads_dumps : ∀ i, loads (dumps (bodyJson i)) = .ok (bodyJson i)
  head_dumps : ∀ i, (dumps (bodyJson i)).head? = some '\x7b'

/-- `str.isspace` of one character. -/
def isSpace (c : Char) : Bool := isWhitespace c || ('\x1c' ≤ c && c ≤ '\x1f')

section Bodies

variable (codec : JsonCodec)

def candidateIdentityBody (i : CandidateIdentity) : Text := codec.dumps (bodyJson i)

/-- `_body_identity`. -/
def bodyIdentity (release : Json) : Except String Json := do
  let tag := (release.get "tag_name").repr
  let body ← expect ((release.get "body").str?.filter fun body => !body.all isSpace)
    s!"release {tag} has no candidate identity body"
  let parsed ← (codec.loads body).mapError fun error =>
    s!"release {tag} body is not candidate identity JSON: {error}"
  require parsed.isObj s!"release {tag} body is not a JSON object"
  require (parsed.get "candidate_identity").isObj
    s!"release {tag} body has no 'candidate_identity' object"
  return parsed.get "candidate_identity"

/-- The identity that a release was staged for. -/
def releaseIdentity (release : Json) : Except String CandidateIdentity := do
  let value ← bodyIdentity codec release
  CandidateIdentity.fromDict value

variable {codec}

theorem fromDict_bodyJson (i : CandidateIdentity) :
    CandidateIdentity.fromDict ((bodyJson i).get "candidate_identity") = .ok i := by
  refine require_bind_eq_ok.mpr ⟨rfl, require_bind_eq_ok.mpr ⟨by rfl, ?_⟩⟩
  exact CandidateIdentity.make_eq_ok.mpr (readIdentity_args i.valid (Or.inl rfl))

/-- **The identity that a body was written for is read back.** -/
theorem releaseIdentity_of_body {release : Json} {i : CandidateIdentity}
    (h : release.get "body" = .str (candidateIdentityBody codec i)) :
    releaseIdentity codec release = .ok i := by
  have hspace : (candidateIdentityBody codec i).all isSpace = false := by
    obtain ⟨rest, hrest⟩ := List.head?_eq_some_iff.mp (codec.head_dumps i)
    have hbrace : isSpace '\x7b' = false := by decide
    rw [candidateIdentityBody, hrest, List.all_cons, hbrace, Bool.false_and]
  refine bind_eq_ok.mpr ⟨_, ?_, fromDict_bodyJson i⟩
  refine expect_bind_eq_ok.mpr ⟨candidateIdentityBody codec i, ?_, ?_⟩
  · rw [h, Option.filter_eq_some_iff, hspace]
    exact ⟨rfl, rfl⟩
  · refine bind_eq_ok.mpr ⟨bodyJson i, mapError_eq_ok.mpr (codec.loads_dumps i), ?_⟩
    exact require_bind_eq_ok.mpr ⟨rfl, require_bind_eq_ok.mpr ⟨rfl, rfl⟩⟩

/-- The identity of a release is in its body, and its tag in the errors. -/
theorem releaseIdentity_congr {release release' : Json}
    (htag : release'.get "tag_name" = release.get "tag_name")
    (hbody : release'.get "body" = release.get "body") :
    releaseIdentity codec release' = releaseIdentity codec release := by
  unfold releaseIdentity bodyIdentity
  rw [htag, hbody]

end Bodies

/-! ## The shape of a release -/

/-- An asset as a release lists it. -/
structure ListedAsset where
  id : ℤ
  name : Text
  size : ℤ
deriving DecidableEq, Repr

/-- `if isinstance(value, bool) or not isinstance(value, int) or value <= 0`. -/
def positive? (value : Json) : Option ℤ := value.int?.filter (0 < ·)

def readListed (tag : Text) : ℕ → List Text → List ℤ → List Json → Except String (List ListedAsset)
  | _, _, _, [] => .ok []
  | index, seenNames, seenIds, item :: rest => do
      let shownTag := String.ofList tag
      require item.isObj s!"release {shownTag} asset {index} is not an object"
      let name ← expect ((item.get "name").str?.filter (· ≠ []))
        s!"release {shownTag} asset {index} has an invalid name"
      let shownName := String.ofList name
      let id ← expect (positive? (item.get "id"))
        s!"release {shownTag} asset {shownName} has an invalid id"
      let size ← expect (positive? (item.get "size"))
        s!"release {shownTag} asset {shownName} has an invalid size"
      require (name ∉ seenNames ∧ id ∉ seenIds)
        s!"release {shownTag} has duplicate asset metadata"
      let listed ← readListed tag (index + 1) (name :: seenNames) (id :: seenIds) rest
      return ⟨id, name, size⟩ :: listed

def checkRecorded (tag : Text) (listed : List ListedAsset) (entry : CandidateAsset) :
    Except String Unit := do
  let shownTag := String.ofList tag
  let shownName := String.ofList entry.name
  let remote ← expect (listed.find? fun item => item.name = entry.name)
    s!"release {shownTag} is missing recorded asset {shownName}"
  require (remote.id = entry.id ∧ remote.size = entry.size)
    s!"release {shownTag} asset {shownName} metadata changed"

/-- The part of `_assert_release_shape` on the assets that are listed. -/
def checkListed (items : Json) (expected : CandidateIdentity) (record : CandidateRecord) :
    Except String Unit := do
  let shownTag := String.ofList expected.tag
  let items ← expect items.arr? s!"release {shownTag} assets are not a list"
  let listed ← readListed expected.tag 0 [] [] items
  (checkInventory (listed.map ListedAsset.name) expected.version expected.phase).mapError
    fun error => s!"release {shownTag} inventory mismatch: {error}"
  record.assets.forM (checkRecorded expected.tag listed)

/-- `_assert_release_shape`: whether the release is a draft. -/
def assertReleaseShape (codec : JsonCodec) (release : Json) (expected : CandidateIdentity)
    (record : CandidateRecord) (allowPublished : Bool) : Except String Bool := do
  let shownTag := String.ofList expected.tag
  require release.isObj "GitHub release is not an object"
  let id ← expect (release.get "id").int? "GitHub release has no valid release id"
  require (id = record.draftReleaseId)
    s!"release id {id} does not match candidate draft {record.draftReleaseId}"
  require ((release.get "tag_name").str? = some expected.tag ∧
      (release.get "name").str? = some expected.tag)
    s!"release tag/name does not match candidate {shownTag}"
  let draft ← expect (release.get "draft").bool? s!"release {shownTag} has no valid draft state"
  require (draft ∨ allowPublished) s!"release {shownTag} is already published"
  let shownPrerelease := (release.get "prerelease").repr
  let shownPhase := (phaseJson expected.phase).repr
  require ((release.get "prerelease").bool? = some expected.phase.isSome)
    s!"release {shownTag} prerelease state {shownPrerelease} does not match candidate phase {shownPhase}"
  let identity ← (releaseIdentity codec release).mapError fun _ =>
    s!"release {shownTag} has an invalid candidate identity"
  require (identity = expected)
    s!"release {shownTag} candidate identity does not match selected identity"
  match release.get "assets" with
  | .null => return draft
  | items => do
      checkListed items expected record
      return draft

/-- **What a release with the right shape says of itself.** -/
theorem assertReleaseShape_eq_ok {codec : JsonCodec} {release : Json}
    {expected : CandidateIdentity} {record : CandidateRecord} {allowPublished draft : Bool}
    (h : assertReleaseShape codec release expected record allowPublished = .ok draft) :
    release.get "id" = .num record.draftReleaseId ∧ release.get "tag_name" = .str expected.tag ∧
      release.get "name" = .str expected.tag ∧ release.get "draft" = .bool draft ∧
      release.get "prerelease" = .bool expected.phase.isSome ∧
      releaseIdentity codec release = .ok expected ∧
      (release.get "assets" = .null ∨ checkListed (release.get "assets") expected record = .ok ⟨⟩) := by
  obtain ⟨-, h⟩ := require_bind_eq_ok.mp h
  obtain ⟨id, hid, h⟩ := expect_bind_eq_ok.mp h
  obtain ⟨hrecord, h⟩ := require_bind_eq_ok.mp h
  obtain ⟨⟨htag, hname⟩, h⟩ := require_bind_eq_ok.mp h
  obtain ⟨found, hdraft, h⟩ := expect_bind_eq_ok.mp h
  obtain ⟨-, h⟩ := require_bind_eq_ok.mp h
  obtain ⟨hprerelease, h⟩ := require_bind_eq_ok.mp h
  obtain ⟨identity, hidentity, h⟩ := bind_eq_ok.mp h
  obtain ⟨hsame, h⟩ := require_bind_eq_ok.mp h
  rw [Json.int?_eq_some] at hid
  rw [Json.str?_eq_some] at htag hname
  rw [Json.bool?_eq_some] at hdraft hprerelease
  have hassets : draft = found ∧
      (release.get "assets" = .null ∨ checkListed (release.get "assets") expected record = .ok ⟨⟩) := by
    split at h
    · next hnull =>
      cases h
      exact ⟨rfl, Or.inl hnull⟩
    · obtain ⟨u, hlisted, h⟩ := bind_eq_ok.mp h
      cases h
      exact ⟨rfl, Or.inr hlisted⟩
  rw [hassets.1]
  exact ⟨hid.trans (by rw [hrecord]), htag, hname, hdraft, hprerelease,
    hsame ▸ mapError_eq_ok.mp hidentity, hassets.2⟩

end GelCli.Release
