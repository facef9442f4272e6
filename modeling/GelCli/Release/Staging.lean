import GelCli.Release.Publish
import GelCli.Release.Resolve

/-!
# Staging

The way from a pull request to a draft: `resolve_candidate` is asked with the tags and the
releases as they were read, and the draft that `select_draft` permits is made, or taken over
from an earlier candidate, and filled (the `stage` job of `release-candidate.yml`). Staging
runs under the lock of the repository; resolving does not.
-/

namespace GelCli.Release

open GelCli.Foundation

/-! ## `select_draft` -/

structure DraftSelection where
  release : Json
  reusable : Bool
  staleBuildSha : Option Text

namespace DraftSelection

/-- `id` and `stale_build_sha` of `as_dict`, as the workflow reads them. -/
def id? (selection : DraftSelection) : Option ℤ := (selection.release.get "id").int?

def stale? (selection : DraftSelection) : Option Text :=
  if selection.reusable then none else selection.staleBuildSha.filter (· ≠ [])

end DraftSelection

section Select

variable (codec : JsonCodec) (expected : CandidateIdentity)

/-- A draft that the source has moved on from may be taken over by its own pull request. -/
def checkSuperseded (actual : CandidateIdentity) : Except String Unit := do
  let tag := String.ofList expected.tag
  let base := String.ofList actual.baseSha
  require (actual.line = expected.line ∧ actual.prNumber = expected.prNumber)
    s!"draft {tag} candidate identity does not match authorized line/PR"
  require (actual.baseSha = expected.baseSha)
    s!"draft {tag} candidate base {base} does not match current line"

/-- The body of the loop, for a release that carries the candidate's tag. -/
def selectRelease (release : Json) : Except String DraftSelection := do
  let tag := String.ofList expected.tag
  require ((release.get "name").str? = some expected.tag)
    s!"release for candidate tag {tag} has a tag/name mismatch"
  require ((release.get "draft").bool? = some true)
    s!"release {tag} is published; refusing to replace it"
  let actual ← (releaseIdentity codec release).mapError fun _ =>
    s!"draft {tag} has an invalid candidate identity"
  let reusable := decide (actual = expected)
  (if reusable then .ok ⟨⟩ else checkSuperseded expected actual : Except String Unit)
  require ((release.get "prerelease").bool? = some expected.phase.isSome)
    s!"draft {tag} prerelease flag does not match candidate phase"
  return ⟨release, reusable, if reusable then none else some actual.buildSha⟩

def selectDraftFrom : ℕ → Option DraftSelection → List Json → Except String (Option DraftSelection)
  | _, selected, [] => .ok selected
  | index, selected, release :: rest => do
      require release.isObj s!"release entry {index} is not an object"
      if (release.get "tag_name").str? ≠ some expected.tag then
        selectDraftFrom (index + 1) selected rest
      else do
        let found ← selectRelease codec expected release
        require (selected.isSome = false)
          s!"more than one draft exists for {String.ofList expected.tag}"
        selectDraftFrom (index + 1) (some found) rest

def selectDraft (releases : List Json) : Except String (Option DraftSelection) :=
  selectDraftFrom codec expected 0 none releases

end Select

/-- The tag is the candidate's. -/
def CandidateIdentity.Owns (expected : CandidateIdentity) (release : Json) : Prop :=
  (release.get "tag_name").str? = some expected.tag

instance (expected : CandidateIdentity) : DecidablePred expected.Owns := fun release =>
  inferInstanceAs (Decidable ((release.get "tag_name").str? = some expected.tag))

/-- **The one draft, or none**: of the releases with the candidate's tag there is at most one,
and it may be written to. -/
theorem selectDraft_eq_ok {codec : JsonCodec} {expected : CandidateIdentity} {releases : List Json}
    {selected : Option DraftSelection} :
    selectDraft codec expected releases = .ok selected ↔
      (∀ release ∈ releases, release.isObj) ∧
        match selected with
        | none => releases.filter expected.Owns = []
        | some selection => ∃ release, releases.filter expected.Owns = [release] ∧
            selectRelease codec expected release = .ok selection := by
  have hfrom : ∀ (index : ℕ) (first : Option DraftSelection) (releases : List Json),
      selectDraftFrom codec expected index first releases = .ok selected ↔
        (∀ release ∈ releases, release.isObj) ∧
          (releases.filter expected.Owns = [] ∧ first = selected ∨
            ∃ release selection, releases.filter expected.Owns = [release] ∧ first = none ∧
              selectRelease codec expected release = .ok selection ∧
                selected = some selection) := by
    intro index first releases
    induction releases generalizing index first with
    | nil => simp [selectDraftFrom]
    | cons release rest ih =>
        rw [selectDraftFrom, require_bind_eq_ok, List.forall_mem_cons, and_assoc]
        refine and_congr_right fun _ => ?_
        by_cases howns : expected.Owns release
        · have htag : (release.get "tag_name").str? = some expected.tag := howns
          rw [if_neg (not_not.mpr htag), bind_eq_ok]
          simp only [List.filter_cons, howns, decide_true, if_true]
          constructor
          · rintro ⟨selection, hselect, hrest⟩
            obtain ⟨hnone, hrest⟩ := require_bind_eq_ok.mp hrest
            obtain ⟨hall, hrest⟩ := (ih _ _).mp hrest
            refine ⟨hall, Or.inr ?_⟩
            rcases hrest with ⟨hnil, rfl⟩ | ⟨_, _, _, hfalse, _⟩
            · exact ⟨release, selection, by rw [hnil], by simpa using hnone, hselect, rfl⟩
            · cases hfalse
          · rintro ⟨hall, ⟨hrest, -⟩ | ⟨only, selection, honly, rfl, hselect, rfl⟩⟩
            · cases hrest
            · obtain ⟨rfl, hrest⟩ := List.cons.inj honly
              refine ⟨selection, hselect, require_bind_eq_ok.mpr ⟨rfl, ?_⟩⟩
              exact (ih _ _).mpr ⟨hall, Or.inl ⟨hrest, rfl⟩⟩
        · have htag : (release.get "tag_name").str? ≠ some expected.tag := howns
          rw [if_pos htag, ih]
          simp only [List.filter_cons, howns, decide_false, Bool.false_eq_true, if_false]
  rw [selectDraft, hfrom]
  refine and_congr_right fun _ => ?_
  cases selected with
  | none => simp
  | some selection =>
      simp only [reduceCtorEq, and_false, false_or, true_and, Option.some.injEq]
      constructor
      · rintro ⟨release, _, hfilter, hselect, rfl⟩
        exact ⟨release, hfilter, hselect⟩
      · rintro ⟨release, hfilter, hselect⟩
        exact ⟨release, selection, hfilter, hselect, rfl⟩

theorem selectRelease_eq_ok {codec : JsonCodec} {expected : CandidateIdentity} {release : Json}
    {selection : DraftSelection} :
    selectRelease codec expected release = .ok selection ↔
      release.get "name" = .str expected.tag ∧ release.get "draft" = .bool true ∧
        release.get "prerelease" = .bool expected.phase.isSome ∧
        ∃ actual, releaseIdentity codec release = .ok actual ∧
          actual.line = expected.line ∧ actual.prNumber = expected.prNumber ∧
          actual.baseSha = expected.baseSha ∧ selection = ⟨release, decide (actual = expected),
            if decide (actual = expected) then none else some actual.buildSha⟩ := by
  unfold selectRelease
  rw [require_bind_eq_ok, require_bind_eq_ok, bind_eq_ok, Json.str?_eq_some, Json.bool?_eq_some]
  refine and_congr_right fun _ => and_congr_right fun _ => ?_
  constructor
  · rintro ⟨actual, hactual, hok⟩
    obtain ⟨⟨⟩, hsuperseded, hok⟩ := bind_eq_ok.mp hok
    obtain ⟨hprerelease, hok⟩ := require_bind_eq_ok.mp hok
    cases hok
    refine ⟨Json.bool?_eq_some.mp hprerelease, actual, mapError_eq_ok.mp hactual, ?_⟩
    by_cases hsame : actual = expected
    · exact ⟨by rw [hsame], by rw [hsame], by rw [hsame], rfl⟩
    · rw [if_neg (by simpa using hsame)] at hsuperseded
      obtain ⟨⟨hline, hnumber⟩, hok⟩ := require_bind_eq_ok.mp hsuperseded
      exact ⟨hline, hnumber, require_eq_ok.mp hok, rfl⟩
  · rintro ⟨hprerelease, actual, hactual, hline, hnumber, hbase, rfl⟩
    refine ⟨actual, mapError_eq_ok.mpr hactual, bind_eq_ok.mpr ⟨⟨⟩, ?_, ?_⟩⟩
    · split
      · rfl
      · exact require_bind_eq_ok.mpr ⟨⟨hline, hnumber⟩, require_pos hbase⟩
    · exact require_bind_eq_ok.mpr ⟨Json.bool?_eq_some.mpr hprerelease, rfl⟩

/-- **What `select_draft` permits**: no release has the candidate's tag, or exactly one has, and
that is a draft of its name and its prerelease flag whose body tells of a candidate of the same
line, pull request and base. It is reusable if the candidate is the same to the last field;
otherwise the build that it is a draft of is handed on. -/
theorem selectDraft_iff (codec : JsonCodec) (expected : CandidateIdentity) (releases : List Json)
    (selected : Option DraftSelection) :
    selectDraft codec expected releases = .ok selected ↔
      (∀ release ∈ releases, release.isObj) ∧
        match releases.filter expected.Owns, selected with
        | [], none => True
        | [release], some selection =>
            release.get "name" = .str expected.tag ∧ release.get "draft" = .bool true ∧
              release.get "prerelease" = .bool expected.phase.isSome ∧
              ∃ actual, releaseIdentity codec release = .ok actual ∧
                actual.line = expected.line ∧ actual.prNumber = expected.prNumber ∧
                actual.baseSha = expected.baseSha ∧ selection =
                  if actual = expected then ⟨release, true, none⟩
                  else ⟨release, false, some actual.buildSha⟩
        | _, _ => False := by
  have hselection : ∀ (release : Json) (actual : CandidateIdentity),
      (⟨release, decide (actual = expected),
          if decide (actual = expected) then none else some actual.buildSha⟩ : DraftSelection) =
        if actual = expected then ⟨release, true, none⟩
        else ⟨release, false, some actual.buildSha⟩ := by
    intro release actual
    by_cases hsame : actual = expected <;> simp [hsame]
  rw [selectDraft_eq_ok]
  refine and_congr_right fun _ => ?_
  generalize releases.filter expected.Owns = owned
  rcases owned with _ | ⟨release, rest⟩
  · cases selected <;> simp
  · rcases rest with _ | ⟨other, rest⟩
    · cases selected with
      | none => simp
      | some selection =>
          simp only [List.cons.injEq, and_true, exists_eq_left', selectRelease_eq_ok, hselection]
    · cases selected <;> simp

/-! ## What staging changes -/

namespace Hub

/-- An id that no release has. -/
def freshRelease (h : Hub) : ℤ := h.releases.keys.foldl max 0 + 1

/-- An id that no asset has. -/
def freshAsset (h : Hub) : ℤ := (h.assets.map HubAsset.id).foldl max 0 + 1

/-- `POST releases`, with `draft=true`. -/
def createDraft (tag : Text) (prerelease : Bool) (body : Text) (h : Hub) :
    Except String (ℤ × Hub) :=
  .ok (h.freshRelease, { h with
    releases := h.releases.set h.freshRelease ⟨tag, tag, true, prerelease, body, []⟩ })

/-- `PATCH releases/id`, with `draft=true`. -/
def replaceDraft (id : ℤ) (tag : Text) (prerelease : Bool) (body : Text) (h : Hub) :
    Except String Hub :=
  match h.releases.get id with
  | none => .error "Not Found"
  | some release => .ok { h with
      releases := h.releases.set id ⟨tag, tag, true, prerelease, body, release.assets⟩ }

/-- `DELETE git/refs/tags/tag`. -/
def deleteRef (tag : Text) (h : Hub) : Except String Hub :=
  if (h.refs.get tag).isSome then .ok { h with refs := h.refs.erase tag }
  else .error "Reference does not exist"

/-- `DELETE releases/assets/asset`, for an asset that is listed with a release. -/
def deleteAsset (id asset : ℤ) (h : Hub) : Except String Hub :=
  match h.releases.get id with
  | none => .error "Not Found"
  | some release => .ok { h with
      releases := h.releases.set id
        { release with assets := release.assets.filter fun item => item.id ≠ asset } }

/-- `gh release upload`, which finds the release by its tag. -/
def upload (tag name : Text) (bytes : List UInt8) (h : Hub) : Except String Hub :=
  match h.releases.items.find? fun item => item.2.tagName = tag with
  | none => .error "release not found"
  | some (id, release) =>
      if name ∈ release.assets.map HubAsset.name then .error "asset under the same name already exists"
      else .ok { h with
        releases := h.releases.set id
          { release with assets := release.assets ++ [⟨h.freshAsset, name, bytes⟩] } }

end Hub

/-! ## The `stage` job -/

def listReleases : Publishing (List Json) :=
  Remote.read "gh api releases failed" fun h =>
    .ok (h.releases.items.map fun item => item.2.json item.1)

/-- At most eight annotated tags are followed. -/
def staleTarget (tag : Text) : ℕ → GitObject → Publishing Text
  | 0, object =>
      if object.type = commitType then return object.sha
      else throw s!"unpublished tag {String.ofList tag} still resolves to a {String.ofList object.type} object after 8 hops, expected a commit"
  | n + 1, object =>
      if object.type = commitType then return object.sha
      else if object.type ≠ tagType then
        throw s!"unpublished tag {String.ofList tag} has unsupported object type {String.ofList object.type}"
      else do
        let next ← Remote.read "gh api git/tags failed" fun h =>
          expect (h.tagObjects.get object.sha) "gh api git/tags failed: HTTP 404"
        staleTarget tag n next

/-- The tag of a draft that is taken over goes, if it is at the build of that draft. -/
def dropStaleTag (tag stale : Text) : Publishing Unit := do
  let object ← Remote.read "gh api git/ref failed" fun h => .ok (h.refs.get tag)
  match object with
  | none => return ⟨⟩
  | some object => do
      let target ← staleTarget tag 8 object
      MonadExcept.ofExcept (require (target = stale)
        s!"unpublished tag {String.ofList tag} points at {String.ofList target}, expected the stale candidate {String.ofList stale}")
      Remote.mutate "gh api -X DELETE git/refs failed" (Hub.deleteRef tag)

def uploadAsset (tag : Text) (file : Text × List UInt8) : Publishing Unit :=
  Remote.mutate s!"gh release upload {String.ofList file.1} failed" (Hub.upload tag file.1 file.2)

section Stage

variable (codec : JsonCodec) (expected : CandidateIdentity)

/-- A draft that is not the candidate's own loses its tag before it is taken over. -/
def takeOver (id : ℤ) : Option Text → Publishing Unit
  | none => return ⟨⟩
  | some stale => do
      dropStaleTag expected.tag stale
      Remote.mutate "gh api -X PATCH releases failed" (Hub.replaceDraft id expected.tag
        expected.phase.isSome (candidateIdentityBody codec expected))

/-- A draft that is there is looked at again, taken over if need be, and emptied. -/
def reuseDraft (selection : DraftSelection) (id : ℤ) : Publishing Unit := do
  let release ← getRelease id
  let reselected ← MonadExcept.ofExcept (selectDraft codec expected [release])
  MonadExcept.ofExcept (require (reselected.bind DraftSelection.id? = some id)
    s!"the selected draft changed before asset replacement: expected draft {id}")
  takeOver codec expected id selection.stale?
  let assets ← listReleaseAssets id
  assets.forM fun asset =>
    Remote.mutate "gh api -X DELETE releases/assets failed" (Hub.deleteAsset id asset.id)

/-- The draft that the candidate is staged to. -/
def stageDraft : Publishing ℤ := do
  let releases ← listReleases
  let selected ← MonadExcept.ofExcept (selectDraft codec expected releases)
  match selected.bind fun selection => selection.id?.map (selection, ·) with
  | none => Remote.exchange "gh api -X POST releases failed" (Hub.createDraft expected.tag
      expected.phase.isSome (candidateIdentityBody codec expected))
  | some (selection, id) => do
      reuseDraft codec expected selection id
      return id

/-- The `stage` job, from the selection of the draft on. `writeRecord` is `candidate write`;
a preview carries its record. -/
def stage (files : List (Text × List UInt8))
    (writeRecord : ℤ → List HubAsset → Except String (List UInt8)) : Publishing Unit := do
  let id ← stageDraft codec expected
  files.forM (uploadAsset expected.tag)
  let assets ← listReleaseAssets id
  MonadExcept.ofExcept (require (assets ≠ []) "no assets were uploaded")
  let record ← MonadExcept.ofExcept (writeRecord id assets)
  if expected.phase.isSome then uploadAsset expected.tag (previewRecordName, record) else return ⟨⟩

end Stage

/-! ## The `resolve` job -/

/-- The checkout of the controller, and how a record is read back as JSON. The Cargo version of
a source is that of every source with the same digest. -/
structure Controller extends Checkout where
  readRecord : List UInt8 → Except String Json
  readRecord_dump : ∀ record : CandidateRecord, ∃ value, readRecord (format.dump record) = .ok value ∧
    value.isObj ∧ value.get "phase" = phaseJson record.phase ∧
      value.get "source_snapshot" = .str record.sourceSnapshot
  version_of_digest : ∀ sha sha' digest, meaningfulTree repo sha256 sha = .ok digest →
    meaningfulTree repo sha256 sha' = .ok digest → cargoVersion sha = cargoVersion sha'

section Resolve

variable (controller : Controller)

/-- `git/matching-refs/tags/v`. -/
def readTags : Publishing (List Text) :=
  Remote.read "gh api git/matching-refs failed" fun h =>
    .ok (h.refs.keys.filter fun tag => tag.head? = some 'v')

/-- An asset of the name of a record is downloaded, and set as the `candidate` of its release. -/
def attachAsset (release item : Json) : Publishing Json :=
  if (item.get "name").str? = some previewRecordName then do
    let id ← MonadExcept.ofExcept (expect (item.get "id").int? "asset without an id")
    let bytes ← downloadAsset id
    let record ← MonadExcept.ofExcept (controller.readRecord bytes)
    return setField "candidate" record release
  else return release

/-- The records of the releases that are no drafts. -/
def attachRecords (release : Json) : Publishing Json :=
  if (release.get "draft").bool? = some true then return release
  else ((release.get "assets").arr?.getD []).foldlM (attachAsset controller) release

/-- The `resolve` job: the live pull request, its version and digest, and the releases, with
the tags that were read before them. -/
def resolveRun (number : ℤ) (tags : List Text) : Publishing (Option CandidateIdentity) := do
  let raw ← Remote.read "gh api pulls failed" fun h =>
    expect (h.pull number) "gh api pulls failed: HTTP 404"
  let sourceSha ← MonadExcept.ofExcept
    (expect ((raw.get "head").get "sha").str? "live pull request has no head SHA")
  let version ← MonadExcept.ofExcept (controller.cargoVersion sourceSha)
  let digest ← MonadExcept.ofExcept
    (meaningfulTree controller.repo controller.sha256 sourceSha)
  let releases ← listReleases
  let releases ← releases.mapM (attachRecords controller)
  let pr ← MonadExcept.ofExcept (validatePr raw controller.repository)
  let livePr := setField "source_snapshot" (.str digest)
    (setField "prepared_version" (.str version) raw)
  MonadExcept.ofExcept (require livePr.isObj "live PR JSON must be an object")
  MonadExcept.ofExcept
    (resolveCandidate controller.repo controller.format pr livePr tags releases)

end Resolve

end GelCli.Release
