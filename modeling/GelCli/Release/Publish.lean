import GelCli.Release.RecordCommit
import GelCli.Release.VerifyDraft

/-!
# Publishing

`publish_preview` and `publish_stable` of `github_release.py`. Both check the record, the
pull request and the draft, read the draft back, make the tag of the version unless it is
there, and publish the draft. What the two check before is their own; what they then change
is `finishPublication`.
-/

namespace GelCli.Release

open GelCli.Foundation

/-- The checkout that the tooling runs in: `depth` bounds the history of a commit, and
`cargoVersion` reads `Cargo.toml` at a revision. -/
structure Checkout extends Tooling where
  repository : Text
  repo : Repository
  sha256 : List UInt8 → Text
  cargoVersion : Text → Except String Text
  fromisoformat : Text → Option Datetime
  depth : ℕ

/-! ## The live pull request -/

/-- The field checks of `assert_live_identity`. -/
def liveChecks (live : ReleasePr) (livePr : Json) (version digest : Text) (phase : Option Phase)
    (expected : IdentityFields) : List FieldCheck :=
  let prepared :=
    if expected.phase.isSome then expected.version.takeWhile (· ≠ '-') else expected.version
  let optional := fun (name key : String) (wanted : Text) =>
    match livePr.get key with
    | .null => []
    | value => [⟨name, value.str? = some wanted, value.repr, Json.reprText wanted⟩]
  [.number "PR number" live.number expected.prNumber,
    .text "release line" live.baseRef expected.line, .text "base SHA" live.baseSha expected.baseSha,
    .text "source SHA" live.headSha expected.sourceSha, .text "prepared version" version prepared,
    .text "source snapshot" digest expected.sourceSnapshot, .phase "phase" phase expected.phase] ++
    optional "build SHA" "build_sha" expected.buildSha ++
    optional "channel" "channel" expected.channel

/-- `assert_live_identity`: the pull request is still the one that the candidate is of. -/
def assertLiveIdentity (expected : CandidateIdentity) (livePr : Json) : Except String Unit := do
  require livePr.isObj "live release PR must be a JSON object"
  require (livePr.get "base").isObj "live release PR has no base identity"
  let repository ← expect ((nestedRepo ((livePr.get "base").get "repo")).filter (· ≠ []))
    "live release PR has no base repository"
  let live ← validatePr livePr repository
  let version ← preparedVersion livePr
  let digest ← sourceSnapshot livePr
  let names ← labels livePr
  let phase ← phaseFromLabels names
  checkFields "live PR" "candidate"
    (liveChecks live livePr version digest phase expected.toIdentityFields)
  let channel := Json.reprText expected.channel
  let shownPhase := (phaseJson expected.phase).repr
  require (expected.channel = if expected.phase.isSome then testingChannel else stableChannel)
    s!"candidate channel {channel} does not match its phase {shownPhase}"

def fields? : Json → Option (List (String × Json))
  | .obj fields => some fields
  | _ => none

/-- `dict[key] = value`. -/
def setField (key : String) (value : Json) : Json → Json
  | .obj fields => .obj ((key, value) :: fields.filter fun field => field.1 ≠ key)
  | other => other

/-- `_preview_authorized`. -/
def previewAuthorized (fromisoformat : Text → Option Datetime) (livePr : Json) (phase : Phase) :
    Except String Unit := do
  let shown := String.ofList phase.name
  let missing := s!"preview phase {shown} has no fresh authorization proof"
  let timeline ← expect (livePr.get "timeline").arr? missing
  let permissions ← expect (fields? (livePr.get "permissions")) missing
  let entries ← timeline.mapM fun entry => expect (fields? entry) "PR timeline entries must be objects"
  let authorized ← phaseAuthorized fromisoformat entries phase
    (permissions.map fun field => (field.1.toList, field.2))
  require (authorized = true) s!"preview phase {shown} is not authorized by a maintainer"

/-- `timeline_actors`, of entries that are objects. -/
def timelineActors (entries : List Entry) : List Text :=
  let logins := entries.filterMap fun entry =>
    match timelineActor entry with
    | (some login, type) =>
        if login = [] ∨ type.map lower = some "bot".toList ∨ "[bot]".toList <:+ login then none
        else some login
    | (none, _) => none
  Text.sorted logins.dedup

section Fetch

variable (checkout : Checkout)

def permissionOfLogin (login : Text) : Publishing (Option (String × Json)) := do
  let payload ← Remote.read "gh api collaborators failed" fun h =>
    expect (h.permission login) "gh api collaborators failed: HTTP 404"
  return (payload.get "permission").str?.map fun value => (String.ofList login, Json.str value)

/-- `fetch_live_preview_pr`. -/
def fetchLivePreviewPr (number : ℤ) : Publishing Json := do
  let raw ← Remote.read "gh api pulls failed" fun h =>
    expect (h.pull number) "gh api pulls failed: HTTP 404"
  MonadExcept.ofExcept (require raw.isObj "fresh preview PR response is not an object")
  let sourceSha ← MonadExcept.ofExcept
    (expect ((raw.get "head").get "sha").str? "fresh preview PR has no head SHA")
  MonadExcept.ofExcept (require (gitSha sourceSha)
    s!"fresh preview PR has invalid head SHA {Json.reprText sourceSha}")
  let version ← MonadExcept.ofExcept (checkout.cargoVersion sourceSha)
  let digest ← MonadExcept.ofExcept
    ((meaningfulTree checkout.repo checkout.sha256 sourceSha).mapError fun error =>
      s!"could not compute fresh preview source snapshot: {error}")
  let timeline ← Remote.read "gh api timeline failed" fun h => .ok (h.timeline number)
  let entries := timeline.filterMap fields?
  let permissions ← (timelineActors entries).mapM permissionOfLogin
  return setField "permissions" (.obj permissions.reduceOption)
    (setField "timeline" (.arr (entries.map Json.obj))
      (setField "source_snapshot" (.str digest)
        (setField "prepared_version" (.str version) raw)))

/-! ## The merge of a stable release -/

/-- `rev-list --first-parent`. -/
def firstParents (repo : Repository) : ℕ → Text → List Text
  | 0, _ => []
  | n + 1, rev =>
      rev :: match (repo.commit rev).bind fun commit => commit.parents.head? with
        | none => []
        | some parent => firstParents repo n parent

/-- `_assert_line_push_base`. -/
def assertLinePushBase (record : CandidateRecord) (linePushSha : Text) : Except String Unit := do
  let push := String.ofList linePushSha
  let base := String.ofList record.baseSha
  let detail := checkout.repo.stderr linePushSha
  require (checkout.repo.commit linePushSha).isSome
    s!"line push {push} has no inspectable history: {detail}"
  let chain := firstParents checkout.repo checkout.depth linePushSha
  let steps := chain.idxOf record.baseSha
  require (record.baseSha ∈ chain) s!"line push {push} does not sit on the recorded base {base}"
  require (steps ≠ 0) s!"line push {push} is the recorded base, not a candidate merge"
  require (steps ≤ 2)
    s!"line push {push} is {steps} commits above the recorded base {base}; refresh the release pull request"

/-- `_assert_record_introduced`. -/
def assertRecordIntroduced (record : CandidateRecord) (linePushSha : Text) :
    Except String Unit := do
  let push := String.ofList linePushSha
  let changed ← (do
    assertRecordPresent checkout.repo linePushSha (checkout.format.dump record)
    let parents ← revListParents checkout.repo linePushSha
    let parent ← expect parents[1]? s!"line push {push} has no parent"
    let base ← treeEntries checkout.repo linePushSha
    let head ← treeEntries checkout.repo parent
    return changedPaths base head : Except String (List Text)).mapError fun error =>
      s!"candidate record was not newly introduced by push {push}: {error}"
  let shown := reprTexts changed
  require (recordPath ∈ changed)
    s!"candidate record was not introduced by push {push}; changed={shown}"

/-- `_assert_merge_source`. -/
def assertMergeSource (record : CandidateRecord) (linePushSha : Text) : Except String Unit := do
  let push := String.ofList linePushSha
  let source := String.ofList record.sourceSha
  let differences ← compare checkout.repo record.sourceSha linePushSha
  let shown := "\n".intercalate (differences.map fun line => "  " ++ String.ofList line)
  require (differences = [])
    s!"line push {push} changed source bytes: {push} is not source-equivalent to {source}:\n{shown}"

/-- `not value`. -/
def falsy : Json → Bool
  | .null => true
  | .bool b => !b
  | .num n => n == 0
  | .str s => s.isEmpty
  | .arr items => items.isEmpty
  | .obj fields => fields.isEmpty

/-- `state in (None, "closed", "merged")`. -/
def stateOver : Json → Bool
  | .null => true
  | .str s => s = "closed".toList ∨ s = "merged".toList
  | _ => false

/-- `_matching_merge_pr`: whether the push is the merge of the candidate's pull request. -/
def matchingMergePr (record : CandidateRecord) (linePushSha : Text) (mergedPr : Json) :
    Except String Bool := do
  let mergeCommit := (mergedPr.find? "merge_commit_sha").getD (mergedPr.get "merge_sha")
  if (mergedPr.get "number").int? ≠ some record.prNumber ∨ mergeCommit.str? ≠ some linePushSha then
    return false
  let named := s!"merged PR #{record.prNumber}"
  let base := mergedPr.get "base"
  let head := mergedPr.get "head"
  require (base.isObj ∧ head.isObj) s!"{named} has incomplete branch identity"
  let line := String.ofList record.line
  require ((base.get "ref").str? = some record.line) s!"{named} base does not match {line}"
  let major ← parseLine (.str record.line)
  let expected := String.ofList (expectedHead major)
  require ((head.get "ref").str? = some (expectedHead major)) s!"{named} head does not match {expected}"
  require (nestedRepo (base.get "repo") = some checkout.repository)
    s!"{named} has a forked base repository"
  require (nestedRepo (head.get "repo") = some checkout.repository)
    s!"{named} has a forked head repository"
  let headSha ← expect ((head.get "sha").str?.filter gitSha) s!"{named} has an invalid head SHA"
  if headSha ≠ record.sourceSha then
    let shownHead := String.ofList headSha
    let source := String.ofList record.sourceSha
    (assertRecordSuccessor checkout.repo record.sourceSha headSha
      (checkout.format.dump record)).mapError fun error =>
        s!"{named} head {shownHead} does not match candidate source {source}: {error}"
  let merged := (mergedPr.get "merged").bool?
  if merged = some false ∨ ¬ stateOver (mergedPr.get "state") then return false
  if merged ≠ some true ∧ falsy (mergedPr.get "merge_commit_sha") then return false
  return true

/-- `_merged_pr_from_release`, of a payload that a workflow may have added it to. -/
def mergedPrFromRelease (record : CandidateRecord) (release : Json) : Publishing (Option Json) :=
  match ["merged_pr", "pull_request", "merge_pr", "pr"].findSome? release.find? with
  | some .null => return none
  | some value => do
      MonadExcept.ofExcept (require value.isObj
        s!"release {String.ofList record.tag} has an invalid merged PR payload")
      return some value
  | none => do
      let payload ← Remote.read s!"could not fetch merged PR #{record.prNumber}" fun h =>
        expect (h.pull record.prNumber) s!"could not fetch merged PR #{record.prNumber}: HTTP 404"
      match payload with
      | .null => return none
      | payload => do
          MonadExcept.ofExcept (require payload.isObj
            s!"merged PR #{record.prNumber} response is not an object")
          return some payload

end Fetch

/-! ## The latest release -/

/-- `tag[1:] if tag.startswith("v") else tag`. -/
def stripV : Text → Text
  | 'v' :: rest => rest
  | t => t

/-- `_semver_tuple`. -/
def semverTuple (value : Text) : Option Plain := plainMatch (stripV value)

/-- What `_stable_versions_from_payload` keeps of an entry. -/
def stableVersion? (item : Json) : Option Text :=
  if item.isObj ∧ (item.get "draft").bool? ≠ some true ∧ (item.get "prerelease").bool? ≠ some true then
    ((item.find? "tag_name").getD (item.get "version")).str?.map stripV
  else none

/-- The entries of a listing, the pages of which may be lists. -/
def flattenPages (value : List Json) : List Json :=
  value.flatMap fun page => page.arr?.getD [page]

/-- `_stable_versions_from_payload`. -/
def stableVersionsFromPayload (value : Json) : Except String (List Text) := do
  let value := if value.isObj then (value.find? "releases").getD (value.get "items") else value
  let pages ← expect value.arr? "published release inventory must be a list"
  return (flattenPages pages).filterMap stableVersion?

/-- `_published_stable_versions`, of a payload that may carry an inventory. -/
def publishedStableVersions (release : Json) : Publishing (List Text) :=
  match ["published_stable_versions", "stable_versions"].findSome? release.find? with
  | some value =>
      let shown := (release.get "tag_name").repr
      MonadExcept.ofExcept
        (expect (value.arr?.bind fun items => items.mapM Json.str?)
          s!"release {shown} stable version inventory is invalid")
  | none =>
      match ["all_releases", "releases"].find? fun key => ! (release.get key matches .null) with
      | some key => MonadExcept.ofExcept (stableVersionsFromPayload (release.get key))
      | none => do
          let value ← Remote.read "could not list published releases for latest selection"
            fun h => .ok h.listing
          MonadExcept.ofExcept (stableVersionsFromPayload value)

/-- `should_make_latest`. -/
def shouldMakeLatest (version : Text) (publishedStableVersions : List Text) : Except String Bool := do
  let shown := Json.reprText version
  let selected ← expect (semverTuple version)
    s!"latest selection requires a plain stable SemVer, got {shown}"
  let maximum := (publishedStableVersions.filterMap semverTuple).foldl
    (fun maximum parsed => if maximum < parsed then parsed else maximum) selected
  return selected = maximum

/-! ## `publish_preview` and `publish_stable` -/

/-- What both publications change: the tag of the record, then the release. -/
def finishPublication (record : CandidateRecord) (target : Text) (prerelease : Bool)
    (makeLatest : Publishing Bool) : Publishing Unit := do
  ensureTag record.tag target
  let latest ← makeLatest
  publishRelease record.draftReleaseId record.tag prerelease latest

section Publish

variable (checkout : Checkout)

/-- `_record_identity` and `_assert_record_identity`. -/
def assertRecordIdentity (record : CandidateRecord) (expected : CandidateIdentity) :
    Except String Unit :=
  require (record.identity = expected) "candidate record identity does not match selected identity"

/-- `publish_preview` up to its first change: whether there is a draft to publish. -/
def preparePreview (expected : CandidateIdentity) (record : CandidateRecord) (livePr release : Json)
    (refreshLivePr : Option (Publishing Json)) : Publishing Bool := do
  let phase ← MonadExcept.ofExcept
    (expect expected.phase "preview publication requires an active phase")
  MonadExcept.ofExcept (require (expected.buildSha ≠ expected.sourceSha)
    "preview publication requires a derived build SHA")
  MonadExcept.ofExcept (assertRecordIdentity record expected)
  MonadExcept.ofExcept ((assertLiveIdentity expected livePr).mapError fun error =>
    s!"preview live identity rejected: {error}")
  MonadExcept.ofExcept (previewAuthorized checkout.fromisoformat livePr phase)
  let draft ← MonadExcept.ofExcept
    (assertReleaseShape checkout.codec release expected record true)
  let target ← tagTarget expected.tag
  MonadExcept.ofExcept (require (∀ sha ∈ target, lower sha = lower expected.buildSha)
    s!"preview tag {String.ofList expected.tag} points at {optionRepr target}, expected build SHA {String.ofList expected.buildSha}")
  if draft then do
    verifyDraftBeforePublication checkout.toTooling record expected none
    match refreshLivePr with
    | none => return true
    | some refresh => do
        tryCatch
          (do
            let fresh ← refresh
            MonadExcept.ofExcept (assertLiveIdentity expected fresh)
            MonadExcept.ofExcept (previewAuthorized checkout.fromisoformat fresh phase))
          fun error => throw s!"preview live state changed before mutation: {error}"
        return true
  else do
    verifyPublishedAssetBytes checkout.toTooling record release
    return false

def publishPreview (expected : CandidateIdentity) (record : CandidateRecord) (livePr release : Json)
    (refreshLivePr : Option (Publishing Json)) : Publishing Unit := do
  let publish ← preparePreview checkout expected record livePr release refreshLivePr
  if publish then finishPublication record expected.buildSha true (return false) else return ⟨⟩

/-- `publish_stable` up to its first change. A push that is not the merge of the candidate
has nothing to publish. -/
def prepareStable (record : CandidateRecord) (linePushSha : Text) (release : Json) :
    Publishing Bool := do
  let shownPhase := (phaseJson record.phase).repr
  MonadExcept.ofExcept (require (record.phase = none)
    s!"stable publication cannot use preview phase {shownPhase}")
  MonadExcept.ofExcept (require (gitSha linePushSha)
    s!"invalid release-line push SHA {Json.reprText linePushSha}")
  MonadExcept.ofExcept (require release.isObj "GitHub release is not an object")
  let mergedPr ← mergedPrFromRelease record release
  let merged ← MonadExcept.ofExcept (match mergedPr with
    | none => .ok false
    | some mergedPr => matchingMergePr checkout record linePushSha mergedPr)
  if merged then do
    MonadExcept.ofExcept (assertLinePushBase checkout record linePushSha)
    MonadExcept.ofExcept (assertRecordIntroduced checkout record linePushSha)
    MonadExcept.ofExcept (assertMergeSource checkout record linePushSha)
    let draft ← MonadExcept.ofExcept
      (assertReleaseShape checkout.codec release record.identity record true)
    let target ← tagTarget record.tag
    MonadExcept.ofExcept (require (∀ sha ∈ target, lower sha = lower linePushSha)
      s!"stable tag {String.ofList record.tag} points at {optionRepr target}, expected merge {String.ofList linePushSha}")
    if draft then do
      verifyDraftBeforePublication checkout.toTooling record record.identity (some linePushSha)
      return true
    else do
      verifyPublishedAssetBytes checkout.toTooling record release
      return false
  else return false

def publishStable (record : CandidateRecord) (linePushSha : Text) (release : Json) :
    Publishing Unit := do
  let publish ← prepareStable checkout record linePushSha release
  if publish then
    finishPublication record linePushSha false (do
      let versions ← publishedStableVersions release
      MonadExcept.ofExcept (shouldMakeLatest record.version versions))
  else return ⟨⟩

/-! ## The publication workflow -/

/-- A preview run: everything it looks at is read anew. -/
def previewRun (record : CandidateRecord) : Publishing Unit := do
  let livePr ← fetchLivePreviewPr checkout record.prNumber
  let release ← getRelease record.draftReleaseId
  publishPreview checkout record.identity record livePr release
    (some (fetchLivePreviewPr checkout record.prNumber))

/-- A stable run, for a push to a release line. -/
def stableRun (record : CandidateRecord) (linePushSha : Text) : Publishing Unit := do
  let release ← getRelease record.draftReleaseId
  let mergedPr ← Remote.read "gh api pulls failed" fun h =>
    expect (h.pull record.prNumber) "gh api pulls failed: HTTP 404"
  publishStable checkout record linePushSha (setField "merged_pr" mergedPr release)

end Publish

end GelCli.Release
