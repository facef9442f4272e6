import GelCli.Foundation.Dict
import GelCli.Foundation.Remote
import GelCli.Release.Timeline

/-!
# The release repository

What the release tooling sees of GitHub: the tags and the releases, which release is the
latest one, and the pull requests. The tooling asks for one thing at a time, and any call
may fail (`Remote`). Tags are made and a draft is published; nothing else is changed here.
-/

namespace GelCli.Release

open GelCli.Foundation

/-! ## Git objects -/

/-- `^[0-9a-fA-F]{40}$`. -/
def sha1 (t : Text) : Bool := t.length == 40 && t.all fun c => lowerHex c || ('A' ≤ c && c ≤ 'F')

def commitType : Text := "commit".toList

def tagType : Text := "tag".toList

/-- What a tag, or a tag object, points at. -/
structure GitObject where
  type : Text
  sha : Text
  sha_hex : sha1 sha

/-! ## Releases -/

structure HubAsset where
  id : ℤ
  name : Text
  bytes : List UInt8
deriving DecidableEq, Repr

structure HubRelease where
  tagName : Text
  name : Text
  draft : Bool
  prerelease : Bool
  body : Text
  assets : List HubAsset
deriving DecidableEq, Repr

/-- The service: `head` is what a tag is made at that nobody has made before its release is
published, and `perPage` releases are listed at a time. -/
structure Hub where
  releases : Dict ℤ HubRelease
  refs : Dict Text GitObject
  tagObjects : Dict Text GitObject
  commit : Text → Bool
  head : GitObject
  latest : Option ℤ
  perPage : ℕ
  pull : ℤ → Option Json
  timeline : ℤ → List Json
  permission : Text → Option Json

/-! ## Answers -/

def HubAsset.json (asset : HubAsset) : Json :=
  .obj [("id", .num asset.id), ("name", .str asset.name), ("size", .num asset.bytes.length)]

def HubRelease.json (id : ℤ) (release : HubRelease) : Json :=
  .obj [("id", .num id), ("tag_name", .str release.tagName), ("name", .str release.name),
    ("draft", .bool release.draft), ("prerelease", .bool release.prerelease),
    ("body", .str release.body), ("assets", .arr (release.assets.map HubAsset.json))]

section Pages

variable {α : Type*}

/-- The pages of a listing, the first one begun. -/
def pagesFrom (perPage : ℕ) (page : List α) : List α → List (List α)
  | [] => [page]
  | a :: rest =>
      if page.length < perPage then pagesFrom perPage (page ++ [a]) rest
      else page :: pagesFrom perPage [a] rest

/-- A listing has a page also if there is nothing on it. -/
def pages (perPage : ℕ) (items : List α) : List (List α) := pagesFrom perPage [] items

theorem flatten_pagesFrom (perPage : ℕ) (items : List α) (page : List α) :
    (pagesFrom perPage page items).flatten = page ++ items := by
  induction items generalizing page with
  | nil => simp [pagesFrom]
  | cons a rest ih =>
      rw [pagesFrom]
      split
      · rw [ih, List.append_assoc]
        rfl
      · rw [List.flatten_cons, ih]
        rfl

@[simp] theorem flatten_pages (perPage : ℕ) (items : List α) :
    (pages perPage items).flatten = items :=
  flatten_pagesFrom perPage items []

theorem pages_ne_nil (perPage : ℕ) (items : List α) : pages perPage items ≠ [] := by
  have hfrom : ∀ page : List α, pagesFrom perPage page items ≠ [] := by
    intro page
    induction items generalizing page with
    | nil => simp [pagesFrom]
    | cons a rest ih =>
        rw [pagesFrom]
        split
        · exact ih _
        · simp
  exact hfrom []

end Pages

/-- What `_gh_json` returns for the values that `gh` prints one after another. -/
def ghJson : List Json → Json
  | [] => .null
  | [value] => value
  | values => .arr values

namespace Hub

/-- `gh api --paginate /repos/…/releases`. -/
def listing (h : Hub) : Json :=
  ghJson ((pages h.perPage (h.releases.items.map fun item => item.2.json item.1)).map Json.arr)

def assets (h : Hub) : List HubAsset := h.releases.items.flatMap fun item => item.2.assets

def asset? (h : Hub) (id : ℤ) : Option HubAsset := h.assets.find? fun asset => asset.id = id

/-! ## Changes -/

/-- `POST git/refs`. -/
def createRef (tag target : Text) (h : Hub) : Except String Hub :=
  if (h.refs.get tag).isSome then .error "Reference already exists"
  else if hsha : sha1 target ∧ h.commit target then
    .ok { h with refs := h.refs.set tag ⟨commitType, target, hsha.1⟩ }
  else .error "Object does not exist"

/-- `PATCH releases/id` with `draft=false`. A tag that is missing is made. -/
def publish (id : ℤ) (tag : Text) (prerelease makeLatest : Bool) (h : Hub) : Except String Hub :=
  match h.releases.get id with
  | none => .error "Not Found"
  | some release =>
      .ok { h with
        releases := h.releases.set id
          { release with tagName := tag, draft := false, prerelease := prerelease }
        refs := if (h.refs.get tag).isSome then h.refs else h.refs.set tag h.head
        latest := if makeLatest then some id else h.latest }

end Hub

/-! ## Commands -/

/-- A command of the release tooling. -/
abbrev Publishing (α : Type) := EStateM String (Remote Hub) α

section Asking

def getRelease (id : ℤ) : Publishing Json :=
  Remote.read s!"gh api releases/{id} failed" fun h =>
    expect ((h.releases.get id).map (HubRelease.json id)) s!"gh api releases/{id} failed: HTTP 404"

def listReleaseAssets (id : ℤ) : Publishing (List HubAsset) :=
  Remote.read s!"gh api releases/{id}/assets failed" fun h =>
    expect ((h.releases.get id).map HubRelease.assets)
      s!"gh api releases/{id}/assets failed: HTTP 404"

def downloadAsset (id : ℤ) : Publishing (List UInt8) :=
  Remote.read s!"gh api releases/assets/{id} failed" fun h =>
    expect ((h.asset? id).map HubAsset.bytes) s!"gh api releases/assets/{id} failed: HTTP 404"

/-! ## Tags -/

/-- The loop of `resolve_tag_commit`: a tag may point at a tag object, and that at another. -/
def dereference (tag : Text) : ℕ → List Text → GitObject → Publishing Text
  | 0, _, _ => throw s!"tag {String.ofList tag} has too many annotated tag layers"
  | n + 1, seen, object =>
      if object.sha ∈ seen then
        throw s!"tag {String.ofList tag} contains a dereference cycle"
      else if object.type = commitType then return object.sha
      else if object.type ≠ tagType then
        throw s!"tag {String.ofList tag} resolves to unsupported Git object type {Json.reprText object.type}"
      else do
        let message :=
          s!"annotated tag object {String.ofList object.sha} for {String.ofList tag} could not be resolved"
        let next ← Remote.read message fun h => expect (h.tagObjects.get object.sha) message
        dereference tag n (object.sha :: seen) next

/-- `resolve_tag_commit`: a tag that does not exist is no error. -/
def resolveTagCommit (tag : Text) : Publishing (Option Text) := do
  let object ← Remote.read
    s!"tag lookup failed for {String.ofList tag}; refusing to treat the API error as a missing tag"
    fun h => .ok (h.refs.get tag)
  match object with
  | none => return none
  | some object => do
      let sha ← dereference tag 8 [] object
      return some sha

/-- `_tag_target`. -/
def tagTarget (tag : Text) : Publishing (Option Text) :=
  tryCatch (resolveTagCommit tag) fun error =>
    throw s!"could not verify tag {String.ofList tag}: {error}"

/-! ## Publishing -/

/-- `_ensure_tag`: a tag that exists is never moved. -/
def ensureTag (tag target : Text) : Publishing Unit := do
  match ← tagTarget tag with
  | some existing =>
      MonadExcept.ofExcept (require (lower existing = lower target)
        s!"tag {String.ofList tag} points at {String.ofList existing}, expected immutable target {String.ofList target}")
  | none => Remote.mutate "gh api -X POST git/refs failed" (Hub.createRef tag target)

/-- `_publish_release`. -/
def publishRelease (id : ℤ) (tag : Text) (prerelease makeLatest : Bool) : Publishing Unit :=
  Remote.mutate "gh api -X PATCH releases failed" (Hub.publish id tag prerelease makeLatest)

end Asking

/-! ## What is asked leaves the repository as it is -/

theorem reads_getRelease (id : ℤ) : Remote.Reads (getRelease id) := Remote.Reads.read _ _

theorem reads_listReleaseAssets (id : ℤ) : Remote.Reads (listReleaseAssets id) :=
  Remote.Reads.read _ _

theorem reads_downloadAsset (id : ℤ) : Remote.Reads (downloadAsset id) := Remote.Reads.read _ _

theorem reads_dereference (tag : Text) (n : ℕ) (seen : List Text) (object : GitObject) :
    Remote.Reads (dereference tag n seen object) := by
  induction n generalizing seen object with
  | zero => exact Remote.Reads.throw _
  | succ n ih =>
      unfold dereference
      apply Remote.Reads.ite (Remote.Reads.throw _)
      apply Remote.Reads.ite (Remote.Reads.pure _)
      apply Remote.Reads.ite (Remote.Reads.throw _)
      exact Remote.Reads.bind (Remote.Reads.read _ _) fun next => ih _ next

theorem reads_resolveTagCommit (tag : Text) : Remote.Reads (resolveTagCommit tag) := by
  apply Remote.Reads.bind (Remote.Reads.read _ _)
  intro object
  cases object with
  | none => exact Remote.Reads.pure _
  | some object =>
      exact Remote.Reads.bind (reads_dereference tag 8 [] object) fun sha => Remote.Reads.pure _

theorem reads_tagTarget (tag : Text) : Remote.Reads (tagTarget tag) :=
  Remote.Reads.tryThrow (reads_resolveTagCommit tag)

/-! ## Tags and their targets -/

section Targets

variable {h : Hub} {tag target : Text}

theorem view_resolveTagCommit_of_none (htag : h.refs.get tag = none) :
    Remote.view (resolveTagCommit tag) h = .ok none := by
  rw [resolveTagCommit, Remote.view_bind (Remote.Reads.read _ _), Remote.view_read, htag]
  rfl

/-- A tag that was made at a commit is resolved to it. -/
theorem view_resolveTagCommit_of_commit {object : GitObject} (htag : h.refs.get tag = some object)
    (htype : object.type = commitType) :
    Remote.view (resolveTagCommit tag) h = .ok (some object.sha) := by
  rw [resolveTagCommit, Remote.view_bind (Remote.Reads.read _ _), Remote.view_read, htag]
  show Remote.view (dereference tag 8 [] object >>= fun sha => pure (some sha)) h = _
  rw [Remote.view_bind (reads_dereference tag 8 [] object), dereference, if_neg List.not_mem_nil,
    if_pos htype]
  rfl

/-- Where a tag leads depends on the tag and the tag objects. -/
theorem view_resolveTagCommit_congr {h' : Hub} (href : h'.refs.get tag = h.refs.get tag)
    (hobjects : h'.tagObjects = h.tagObjects) :
    Remote.view (resolveTagCommit tag) h' = Remote.view (resolveTagCommit tag) h := by
  have hdereference : ∀ n seen object,
      Remote.view (dereference tag n seen object) h' =
        Remote.view (dereference tag n seen object) h := by
    intro n
    induction n with
    | zero => exact fun _ _ => rfl
    | succ n ih =>
        intro seen object
        unfold dereference
        split
        · rfl
        · split
          · rfl
          · split
            · rfl
            · refine Remote.view_bind_congr (Remote.Reads.read _ _) ?_ fun next => ih _ next
              simp only [Remote.view_read, hobjects]
  refine Remote.view_bind_congr (Remote.Reads.read _ _) ?_ fun object => ?_
  · simp only [Remote.view_read, href]
  · cases object with
    | none => rfl
    | some object =>
        exact Remote.view_bind_congr (reads_dereference tag 8 [] object)
          (hdereference 8 [] object) fun sha => rfl

theorem view_tagTarget : Remote.view (tagTarget tag) h =
    (Remote.view (resolveTagCommit tag) h).mapError
      fun error => s!"could not verify tag {String.ofList tag}: {error}" :=
  Remote.view_tryThrow

theorem view_tagTarget_of_none (htag : h.refs.get tag = none) :
    Remote.view (tagTarget tag) h = .ok none := by
  rw [view_tagTarget, view_resolveTagCommit_of_none htag]
  rfl

theorem view_tagTarget_eq_ok {found : Option Text} :
    Remote.view (tagTarget tag) h = .ok found ↔
      Remote.view (resolveTagCommit tag) h = .ok found := by
  rw [view_tagTarget, mapError_eq_ok]

end Targets

end GelCli.Release
