import GelCli.Release.Preview
import GelCli.Release.RecordCommit

/-!
# Resolving a candidate

`resolve_candidate` of `github_release.py`: which candidate the live pull request
asks for, given the tags and releases that exist. It is `none` when the preview of
this snapshot is published, or when the head of the pull request already carries
its stable record.
-/

namespace GelCli.Release

open GelCli.Foundation

/-! ## Published previews -/

/-- `_published_candidate_record`: `None` where no record is attached. -/
def publishedCandidateRecord (release : Json) : Except String (Option Json) := do
  let tag := (release.get "tag_name").repr
  match release.get "candidate" with
  | .null => return none
  | record =>
      require record.isObj s!"release {tag} candidate record is not a JSON object"
      return some record

/-- One step of the loop in `published_snapshots`. -/
def publishedSnapshot (entry : Json × ℕ) : Except String (Option (Phase × Text)) := do
  let (release, index) := entry
  require release.isObj s!"release entry {index} is not an object"
  if (release.get "draft").bool? = some true ∨ (release.get "prerelease").bool? ≠ some true then
    return none
  let tag := (release.get "tag_name").repr
  match ← publishedCandidateRecord release with
  | none => return none
  | some record =>
      let shownPhase := (record.get "phase").repr
      let phase ← expect ((record.get "phase").str?.bind Phase.ofName?)
        s!"published prerelease {tag} candidate record has phase {shownPhase}; expected one of ['alpha', 'beta', 'rc']"
      let shownSnapshot := (record.get "source_snapshot").repr
      let digest ← expect ((record.get "source_snapshot").str?.filter snapshot)
        s!"published prerelease {tag} candidate record has 'source_snapshot' {shownSnapshot}; expected a 64 hex-character meaningful-tree digest"
      return some (phase, digest)

/-- `published_snapshots`. -/
def publishedSnapshots (releases : List Json) : Except String (List (Phase × Text)) :=
  (releases.zipIdx.mapM publishedSnapshot).map List.reduceOption

/-- The tags of the releases for which `draft is True` is `draft`. -/
def releaseTags (draft : Bool) (releases : List Json) : List Text :=
  releases.filterMap fun release =>
    if release.isObj ∧ decide ((release.get "draft").bool? = some true) = draft then
      (release.get "tag_name").str?
    else none

/-- `_published_tag_inventory`: without the tags of drafts that are not published. -/
def publishedTagInventory (tags : List Text) (releases : List Json) : List Text :=
  tags.filter fun tag => tag ∉ releaseTags true releases ∨ tag ∈ releaseTags false releases

/-! ## The staged stable record -/

section Staged

variable (repo : Repository) (format : RecordFormat)

/-- The record at the head, if the head is the one commit on top of its source. -/
def stagedRecord (headSha : Text) : Except String CandidateRecord := do
  let bytes ← gitBlob repo headSha candidatePath
  let record ← format.loadBytes bytes
  require (record.phase = none ∧ record.buildSha = record.sourceSha) "not a stable record"
  assertRecordSuccessor repo record.sourceSha headSha bytes
  return record

/-- `_stable_record_staged`. Whatever cannot be read is not staged. -/
def stableRecordStaged (identity : CandidateIdentity) (livePr : Json) : Bool :=
  match ((livePr.get "head").get "sha").str?.filter gitSha with
  | none => false
  | some headSha =>
      match stagedRecord repo format headSha with
      | .error _ => false
      | .ok record =>
          record.line = identity.line ∧ record.prNumber = identity.prNumber ∧
            record.baseSha = identity.baseSha ∧
            record.sourceSnapshot = identity.sourceSnapshot ∧ record.version = identity.version

/-! ## `resolve_candidate` -/

def stableFields (live : ReleasePr) (digest stable : Text) : IdentityFields where
  line := live.baseRef
  prNumber := live.number
  baseSha := live.baseSha
  sourceSha := live.headSha
  sourceSnapshot := digest
  phase := none
  version := stable
  channel := stableChannel
  buildSha := live.headSha

def previewFields (live : ReleasePr) (digest selected : Text) (phase : Phase) : IdentityFields where
  line := live.baseRef
  prNumber := live.number
  baseSha := live.baseSha
  sourceSha := live.headSha
  sourceSnapshot := digest
  phase := some phase
  version := selected
  channel := testingChannel
  buildSha := live.headSha

def resolveStable (live : ReleasePr) (digest stable : Text) (livePr : Json)
    (releases : List Json) : Except String (Option CandidateIdentity) := do
  let identity ← CandidateIdentity.make (stableFields live digest stable).args
  if stableRecordStaged repo format identity livePr then
    return none
  let version := String.ofList identity.version
  let tag := String.ofList identity.tag
  require (identity.tag ∉ releaseTags false releases)
    s!"prepared version {version} is already published as {tag}; a release line must prepare an untagged version"
  return some identity

def resolvePreview (live : ReleasePr) (digest stable : Text) (phase : Phase) (tags : List Text)
    (releases : List Json) (published : List (Phase × Text)) :
    Except String (Option CandidateIdentity) := do
  match ← nextPreviewVersion stable phase (publishedTagInventory tags releases) published digest with
  | none => return none
  | some selected =>
      let identity ← CandidateIdentity.make (previewFields live digest selected phase).args
      return some identity

def checkField (field shown : String) (same : Bool) : Except String PUnit :=
  require (same = true) s!"live PR {field} {shown} does not match requested identity"

/-- The live pull request, which has to be the requested one. -/
def liveRequested (pr : ReleasePr) (livePr : Json) : Except String ReleasePr := do
  let live ← validatePr livePr pr.repository
  require (live.number = pr.number)
    s!"live PR #{live.number} does not match requested PR #{pr.number}"
  checkField "base_ref" (Json.reprText live.baseRef) (live.baseRef = pr.baseRef)
  checkField "head_ref" (Json.reprText live.headRef) (live.headRef = pr.headRef)
  checkField "repository" (Json.reprText live.repository) (live.repository = pr.repository)
  checkField "major" (toString live.major) (live.major = pr.major)
  let requested := String.ofList pr.baseSha
  let found := String.ofList live.baseSha
  require (live.baseSha = pr.baseSha)
    s!"release line base moved from {requested} to {found}; refresh the PR"
  return live

def resolveCandidate (pr : ReleasePr) (livePr : Json) (tags : List Text) (releases : List Json) :
    Except String (Option CandidateIdentity) := do
  let live ← liveRequested pr livePr
  let version ← preparedVersion livePr
  let digest ← sourceSnapshot livePr
  let names ← labels livePr
  let phase ← phaseFromLabels names
  let stable ← stableVersion version live.major
  let published ← publishedSnapshots releases
  match phase with
  | none => resolveStable repo format live digest stable livePr releases
  | some phase => resolvePreview live digest stable phase tags releases published

end Staged

/-! ## What a resolution means -/

section Inversion

variable {repo : Repository} {format : RecordFormat} {pr : ReleasePr} {livePr : Json}
  {tags : List Text} {releases : List Json} {r : Option CandidateIdentity}

/-- **The steps of a resolution.** -/
theorem resolveCandidate_eq_ok :
    resolveCandidate repo format pr livePr tags releases = .ok r ↔
      ∃ live version digest names phase stable published,
        liveRequested pr livePr = .ok live ∧ preparedVersion livePr = .ok version ∧
        sourceSnapshot livePr = .ok digest ∧ labels livePr = .ok names ∧
        phaseFromLabels names = .ok phase ∧ stableVersion version live.major = .ok stable ∧
        publishedSnapshots releases = .ok published ∧
        (match phase with
          | none => resolveStable repo format live digest stable livePr releases
          | some phase => resolvePreview live digest stable phase tags releases published) = .ok r := by
  simp only [resolveCandidate, bind_eq_ok]
  constructor
  · rintro ⟨live, hlive, version, hversion, digest, hdigest, names, hnames, phase, hphase, stable,
      hstable, published, hpublished, h⟩
    exact ⟨live, version, digest, names, phase, stable, published, hlive, hversion, hdigest, hnames,
      hphase, hstable, hpublished, h⟩
  · rintro ⟨live, version, digest, names, phase, stable, published, hlive, hversion, hdigest, hnames,
      hphase, hstable, hpublished, h⟩
    exact ⟨live, hlive, version, hversion, digest, hdigest, names, hnames, phase, hphase, stable,
      hstable, published, hpublished, h⟩

/-- A pull request that was asked for is valid. -/
theorem liveRequested_eq_ok {live : ReleasePr} (h : liveRequested pr livePr = .ok live) :
    validatePr livePr pr.repository = .ok live ∧ live.number = pr.number ∧
      live.baseRef = pr.baseRef ∧ live.baseSha = pr.baseSha := by
  obtain ⟨live', hvalid, h⟩ := bind_eq_ok.mp h
  obtain ⟨hnumber, h⟩ := require_bind_eq_ok.mp h
  obtain ⟨hbaseRef, h⟩ := require_bind_eq_ok.mp h
  obtain ⟨-, h⟩ := require_bind_eq_ok.mp h
  obtain ⟨-, h⟩ := require_bind_eq_ok.mp h
  obtain ⟨-, h⟩ := require_bind_eq_ok.mp h
  obtain ⟨hbaseSha, h⟩ := require_bind_eq_ok.mp h
  cases h
  exact ⟨hvalid, hnumber, of_decide_eq_true hbaseRef, hbaseSha⟩

theorem resolveStable_eq_ok {live : ReleasePr} {digest stable : Text} :
    resolveStable repo format live digest stable livePr releases = .ok r ↔
      ∃ identity : CandidateIdentity, identity.toIdentityFields = stableFields live digest stable ∧
        (if stableRecordStaged repo format identity livePr then r = none
          else identity.tag ∉ releaseTags false releases ∧ r = some identity) := by
  rw [resolveStable, bind_eq_ok]
  constructor
  · rintro ⟨identity, hmake, h⟩
    refine ⟨identity, (CandidateIdentity.make_args_eq_ok.mp hmake).1, ?_⟩
    split at h
    · next hstaged =>
      cases h
      rw [if_pos hstaged]
    · next hstaged =>
      obtain ⟨htag, h⟩ := require_bind_eq_ok.mp h
      cases h
      rw [if_neg hstaged]
      exact ⟨htag, rfl⟩
  · rintro ⟨identity, hfields, h⟩
    refine ⟨identity, CandidateIdentity.make_args_eq_ok.mpr ⟨hfields, hfields ▸ identity.valid⟩, ?_⟩
    split at h
    · next hstaged =>
      subst h
      rw [if_pos hstaged]
      rfl
    · next hstaged =>
      obtain ⟨htag, rfl⟩ := h
      rw [if_neg hstaged]
      exact require_bind_eq_ok.mpr ⟨htag, rfl⟩

end Inversion

end GelCli.Release
