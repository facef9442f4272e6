import Mathlib.Algebra.Order.BigOperators.Group.List
import Mathlib.Algebra.Order.Group.Nat
import GelCli.Foundation.Transition
import GelCli.Release.FixedPoint
import GelCli.Release.PublishRetry
import GelCli.Release.RecordFile
import GelCli.Release.ResolveLive

/-!
# The numbers of previews

The release tooling at work on one repository: candidates are resolved from tags and releases
that may be old by the time they are staged, staging and publishing take turns, every run may
fail at any call and is made again or not, and the pull requests move all the while. For each
base version and phase the published previews are numbered `1, 2, …` without a gap, and no
source is published twice in a phase.
-/

namespace GelCli.Release

open GelCli.Foundation

/-! ## The pipeline -/

/-- The repository, the tags that have been read, and the candidates that were resolved. -/
structure Pipeline where
  hub : Hub
  seen : List (List Text)
  resolved : List CandidateIdentity

inductive PipelineEvent where
  | readTags
  /-- A pull request is resolved, with tags that were read before. -/
  | resolve (number : ℤ) (tags : List Text)
  | stage (expected : CandidateIdentity) (files : List (Text × List UInt8))
      (writeRecord : ℤ → List HubAsset → Except String (List UInt8)) (deliveries : List Delivery)
  | publishPreview (record : CandidateRecord) (deliveries : List Delivery)
  | publishStable (record : CandidateRecord) (push : Text) (deliveries : List Delivery)
  /-- Branches, pull requests and permissions change. -/
  | elsewhere (commit : Text → Bool) (head : GitObject) (pull : ℤ → Option Json)
      (timeline : ℤ → List Json) (permission : Text → Option Json)

def IdentityFields.withBuild (f : IdentityFields) (buildSha : Text) : IdentityFields :=
  { f with buildSha := buildSha }

namespace Pipeline

/-- A candidate is staged with the commit that was built for it. -/
def Derived (s : Pipeline) (expected : CandidateIdentity) : Prop :=
  ∃ i ∈ s.resolved, i.withBuild expected.buildSha = expected.toIdentityFields

instance (s : Pipeline) (expected : CandidateIdentity) : Decidable (s.Derived expected) :=
  inferInstanceAs (Decidable (∃ i ∈ s.resolved, _ = _))

def after (s : Pipeline) {α : Type} (run : Publishing α) (deliveries : List Delivery) : Pipeline :=
  { s with hub := Remote.leaves run ⟨s.hub, deliveries⟩ }

end Pipeline

/-- No previews, neither as releases nor as tags, and nothing under way. -/
structure Fresh (s : Pipeline) : Prop where
  assets : s.hub.AssetsApart
  releases : ∀ id release, s.hub.releases.get id = some release → tagMatch release.tagName = none
  refs : ∀ tag, (s.hub.refs.get tag).isSome → tagMatch tag = none
  seen : s.seen = []
  resolved : s.resolved = []

def pipeline (controller : Controller) : System Pipeline PipelineEvent where
  Initial := Fresh
  next s
    | .readTags =>
        match Remote.view readTags s.hub with
        | .ok tags => some { s with seen := tags :: s.seen }
        | .error _ => none
    | .resolve number tags =>
        if tags ∈ s.seen then
          match Remote.view (resolveRun controller number tags) s.hub with
          | .ok (some i) => some { s with resolved := i :: s.resolved }
          | _ => some s
        else none
    | .stage expected files writeRecord deliveries =>
        if s.Derived expected then
          some (s.after (stage controller.codec expected files writeRecord) deliveries)
        else none
    | .publishPreview record deliveries =>
        some (s.after (previewRun controller.toCheckout record) deliveries)
    | .publishStable record push deliveries =>
        some (s.after (stableRun controller.toCheckout record push) deliveries)
    | .elsewhere commit head pull timeline permission =>
        some { s with hub := { s.hub with
          commit := commit, head := head, pull := pull, timeline := timeline,
          permission := permission } }

/-! ## The invariant -/

section Invariant

variable {controller : Controller} {h h' : Hub}

/-- A version that is prepared in a source with the digest. -/
def FromSource (controller : Controller) (digest base : Text) : Prop :=
  ∃ sha version major, meaningfulTree controller.repo controller.sha256 sha = .ok digest ∧
    controller.cargoVersion sha = .ok version ∧ stableVersion version major = .ok base

theorem FromSource.unique {digest base base' : Text} (h : FromSource controller digest base)
    (h' : FromSource controller digest base') : base = base' := by
  obtain ⟨sha, version, major, hdigest, hversion, hbase⟩ := h
  obtain ⟨sha', version', major', hdigest', hversion', hbase'⟩ := h'
  rw [controller.version_of_digest sha sha' digest hdigest hdigest', hversion'] at hversion
  cases hversion
  rw [(stableVersion_eq_ok.mp hbase).1, (stableVersion_eq_ok.mp hbase').1]

/-- What holds of the releases of a repository, apart from the numbers. -/
structure Tidy (controller : Controller) (h : Hub) : Prop where
  apart : h.AssetsApart
  unique : ∀ id id' release release', h.releases.get id = some release →
    h.releases.get id' = some release' → (tagMatch release.tagName).isSome →
      release'.tagName = release.tagName → id = id'
  tagged : ∀ tag, (h.refs.get tag).isSome → (tagMatch tag).isSome →
    ∃ id release, h.releases.get id = some release ∧ release.tagName = tag
  identified : ∀ id release m, h.releases.get id = some release →
    tagMatch release.tagName = some m → ∃ i, releaseIdentity controller.codec (release.json id) =
      .ok i ∧ i.tag = release.tagName ∧
        (release.draft = false → CarriesRecord controller release m.phase i.sourceSnapshot)

/-- A candidate may be published under its number as long as the number is free. -/
structure Chosen (controller : Controller) (h : Hub) (i : CandidateIdentity) : Prop where
  ready : ∀ m, previewMatch i.version = some m →
    Series.Ready (h.previews controller.codec m.base m.phase) m.number i.sourceSnapshot
  source : ∀ m, previewMatch i.version = some m → FromSource controller i.sourceSnapshot m.base

structure PipelineInv (controller : Controller) (s : Pipeline) : Prop where
  tidy : Tidy controller s.hub
  seen : ∀ tags ∈ s.seen, ∀ tag ∈ tags, (tagMatch tag).isSome →
    ∃ id release, s.hub.releases.get id = some release ∧ release.tagName = tag
  sound : ∀ base phase, Series.Sound (s.hub.previews controller.codec base phase)
  resolved : ∀ i ∈ s.resolved, Chosen controller s.hub i
  released : ∀ id release i, s.hub.releases.get id = some release →
    (tagMatch release.tagName).isSome →
      releaseIdentity controller.codec (release.json id) = .ok i → Chosen controller s.hub i

/-- Previews may have been published, and no tag of a release has changed. -/
structure Grows (controller : Controller) (h h' : Hub) : Prop where
  tags : ∀ id release, h.releases.get id = some release →
    ∃ release', h'.releases.get id = some release' ∧ release'.tagName = release.tagName
  previews : ∀ base phase,
    h.previews controller.codec base phase ⊆ h'.previews controller.codec base phase
  sound : ∀ base phase, Series.Sound (h'.previews controller.codec base phase)

theorem Chosen.mono {i : CandidateIdentity} (hi : Chosen controller h i)
    (hgrows : Grows controller h h') : Chosen controller h' i :=
  ⟨fun m hm => (hi.ready m hm).mono (hgrows.sound _ _) (hgrows.previews _ _), hi.source⟩

theorem Chosen.derived {i expected : CandidateIdentity} (hi : Chosen controller h i)
    (hsame : i.withBuild expected.buildSha = expected.toIdentityFields) :
    Chosen controller h expected := by
  have hversion : (i.withBuild expected.buildSha).version = expected.version := by rw [hsame]
  have hsnapshot : (i.withBuild expected.buildSha).sourceSnapshot = expected.sourceSnapshot := by
    rw [hsame]
  refine ⟨fun m hm => ?_, fun m hm => ?_⟩
  · rw [← hsnapshot]
    exact hi.ready m (hversion ▸ hm)
  · rw [← hsnapshot]
    exact hi.source m (hversion ▸ hm)

/-- A step of the repository, once it is known what becomes of the releases. -/
theorem PipelineInv.grow {s : Pipeline} (hs : PipelineInv controller s)
    (hgrows : Grows controller s.hub h') (htidy : Tidy controller h')
    (hreleased : ∀ id release i, h'.releases.get id = some release →
      (tagMatch release.tagName).isSome →
        releaseIdentity controller.codec (release.json id) = .ok i →
          Chosen controller s.hub i) : PipelineInv controller { s with hub := h' } := by
  refine ⟨htidy, fun tags htags tag htag hpreview => ?_, hgrows.sound, fun i hi => ?_,
    fun id release i hget hpreview hi => ?_⟩
  · obtain ⟨id, release, hget, hname⟩ := hs.seen tags htags tag htag hpreview
    obtain ⟨release', hget', hname'⟩ := hgrows.tags id release hget
    exact ⟨id, release', hget', hname'.trans hname⟩
  · exact (hs.resolved i hi).mono hgrows
  · exact (hreleased id release i hget hpreview hi).mono hgrows

/-- Nothing that counts has changed. -/
theorem Grows.of_previews (hs : ∀ base phase, Series.Sound (h.previews controller.codec base phase))
    (htags : ∀ id release, h.releases.get id = some release →
      ∃ release', h'.releases.get id = some release' ∧ release'.tagName = release.tagName)
    (hsame : ∀ base phase,
      h'.previews controller.codec base phase = h.previews controller.codec base phase) :
    Grows controller h h' :=
  ⟨htags, fun base phase => (hsame base phase).ge, fun base phase => by
    rw [hsame]
    exact hs base phase⟩

theorem Grows.of_releases (hs : ∀ base phase, Series.Sound (h.previews controller.codec base phase))
    (hreleases : h'.releases = h.releases) : Grows controller h h' := by
  refine Grows.of_previews hs (fun id release hget => ⟨release, hreleases ▸ hget, rfl⟩) ?_
  intro base phase
  unfold Hub.previews
  rw [hreleases]

/-- The same releases, and no tag without a release. -/
theorem Tidy.of_releases (hh : Tidy controller h) (hreleases : h'.releases = h.releases)
    (hrefs : ∀ tag, (h'.refs.get tag).isSome → (tagMatch tag).isSome → (h.refs.get tag).isSome ∨
      ∃ id release, h.releases.get id = some release ∧ release.tagName = tag) :
    Tidy controller h' := by
  refine ⟨?_, ?_, fun tag htag hpreview => ?_, ?_⟩
  · have hassets : h'.assets = h.assets := by
      unfold Hub.assets
      rw [hreleases]
    unfold Hub.AssetsApart
    rw [hassets]
    exact hh.apart
  · rw [hreleases]
    exact hh.unique
  · rw [hreleases]
    rcases hrefs tag htag hpreview with hold | hnew
    · exact hh.tagged tag hold hpreview
    · exact hnew
  · rw [hreleases]
    exact hh.identified

end Invariant

/-! ## Resolving -/

section Steps

variable {controller : Controller} {s : Pipeline} {h t : Hub}

/-- **What is resolved may be published under its number.** -/
theorem chosen_of_resolveRun (hs : PipelineInv controller s) {number : ℤ} {tags : List Text}
    {i : CandidateIdentity} (htags : tags ∈ s.seen)
    (hview : Remote.view (resolveRun controller number tags) s.hub = .ok (some i)) :
    Chosen controller s.hub i := by
  have hlisting : Remote.Reads listReleases := Remote.Reads.read _ _
  obtain ⟨raw, -, hview⟩ := Remote.view_read_bind_eq_ok.mp hview
  obtain ⟨sourceSha, -, hview⟩ := Remote.view_ofExcept_bind_eq_ok.mp hview
  obtain ⟨version, hversion, hview⟩ := Remote.view_ofExcept_bind_eq_ok.mp hview
  obtain ⟨digest, hdigest, hview⟩ := Remote.view_ofExcept_bind_eq_ok.mp hview
  obtain ⟨listed, hlisted, hview⟩ := (Remote.view_bind_eq_ok hlisting).mp hview
  rw [listReleases, Remote.view_read] at hlisted
  cases hlisted
  obtain ⟨releases, hreleases, hview⟩ := (Remote.view_bind_eq_ok
    (Remote.Reads.mapM fun release _ => reads_attachRecords release)).mp hview
  obtain ⟨pr, -, hview⟩ := Remote.view_ofExcept_bind_eq_ok.mp hview
  obtain ⟨⟨⟩, hobj, hview⟩ := Remote.view_ofExcept_bind_eq_ok.mp hview
  rw [Remote.view_ofExcept] at hview
  have hobj := require_eq_ok.mp hobj
  rw [isObj_setField, isObj_setField] at hobj
  obtain ⟨live, prepared, snapshot, names, phase, stable, published, -, hprepared, hsnapshot, -, -,
    hstable, hpublished, hok⟩ := resolveCandidate_eq_ok.mp hview
  -- the payload carries what was computed from the head
  have hfields : prepared = version ∧ snapshot = digest := by
    have hprepared' := (Option.filter_eq_some_iff.mp (expect_eq_ok.mp hprepared)).1
    have hsnapshot' := (Option.filter_eq_some_iff.mp (expect_eq_ok.mp hsnapshot)).1
    rw [get_setField_of_ne (by decide), get_setField_self hobj] at hprepared'
    rw [get_setField_self (isObj_setField.trans hobj)] at hsnapshot'
    exact ⟨(Option.some.inj hprepared').symm, (Option.some.inj hsnapshot').symm⟩
  obtain ⟨rfl, rfl⟩ := hfields
  cases phase with
  | none =>
      -- a stable version is no preview version
      obtain ⟨identity, hidentity, hresult⟩ := resolveStable_eq_ok.mp hok
      have hphase : i.phase = none := by
        split at hresult
        · cases hresult
        · cases hresult.2
          exact congrArg IdentityFields.phase hidentity
      have hnone : ∀ m, previewMatch i.version ≠ some m := by
        intro m hm
        rw [CandidateIdentity.phase_of_match hm] at hphase
        cases hphase
      exact ⟨fun m hm => absurd hm (hnone m), fun m hm => absurd hm (hnone m)⟩
  | some phase =>
      obtain ⟨rfl, -, v, hv, -⟩ := stableVersion_eq_ok.mp hstable
      obtain ⟨hsame, n, hn, hready⟩ := ready_of_resolvePreview (attached_of_view hreleases)
        hs.tidy.apart (hs.sound _ _) hs.tidy.unique
        (fun id release m hget hm => by
          obtain ⟨found, hfound, -, hrecorded⟩ := hs.tidy.identified id release m hget hm
          exact ⟨found, hfound, hrecorded⟩)
        (hs.seen tags htags) (plainMatch_eq_some.mp hv) hpublished hok
      refine ⟨fun m hm => ?_, fun m hm => ?_⟩
      · cases hn.symm.trans hm
        rw [hsame]
        exact hready
      · cases hn.symm.trans hm
        rw [hsame]
        exact ⟨sourceSha, _, live.major, hdigest, hversion, hstable⟩

/-! ## Staging -/

/-- Work on a draft is not seen among the published previews. -/
theorem Worked.previews_eq {expected : CandidateIdentity} {id : ℤ} {codec : JsonCodec}
    (hwork : Worked codec expected h id t) (base : Text) (phase : Phase) :
    t.previews codec base phase = h.previews codec base phase := by
  obtain ⟨draft, hdraft, htrue, -⟩ := hwork.draft
  ext entry
  constructor
  · rintro ⟨other, release, i, hget, hfalse, hrest⟩
    have hne : other ≠ id := by
      rintro rfl
      cases hdraft.symm.trans hget
      rw [htrue] at hfalse
      cases hfalse
    exact ⟨other, release, i, (hwork.others other hne) ▸ hget, hfalse, hrest⟩
  · rintro ⟨other, release, i, hget, hfalse, hrest⟩
    have hne : other ≠ id := by
      rintro rfl
      rw [(hwork.before release hget).1] at hfalse
      cases hfalse
    exact ⟨other, release, i, (hwork.others other hne).trans hget, hfalse, hrest⟩

theorem Worked.tags {expected : CandidateIdentity} {id : ℤ} {codec : JsonCodec}
    (hwork : Worked codec expected h id t) (other : ℤ) (release : HubRelease)
    (hget : h.releases.get other = some release) :
    ∃ release', t.releases.get other = some release' ∧ release'.tagName = release.tagName := by
  by_cases hne : other = id
  · subst hne
    obtain ⟨draft, hdraft, -, htag, -⟩ := hwork.draft
    exact ⟨draft, hdraft, htag.trans (hwork.before release hget).2.symm⟩
  · exact ⟨release, (hwork.others other hne).trans hget, rfl⟩

/-- The identity of the draft is the candidate's, or that of the draft that was there. -/
theorem Worked.identity {expected : CandidateIdentity} {id : ℤ} {codec : JsonCodec}
    (hwork : Worked codec expected h id t) {release : HubRelease}
    (hget : t.releases.get id = some release) :
    release.draft = true ∧ release.tagName = expected.tag ∧
      (releaseIdentity codec (release.json id) = .ok expected ∨
        ∃ first, h.releases.get id = some first ∧ first.tagName = release.tagName ∧
          releaseIdentity codec (release.json id) = releaseIdentity codec (first.json id)) := by
  obtain ⟨draft, hdraft, htrue, htag, hbody⟩ := hwork.draft
  cases hget.symm.trans hdraft
  refine ⟨htrue, htag, ?_⟩
  rcases hbody with hbody | ⟨first, hfirst, hbody⟩
  · exact Or.inl (releaseIdentity_of_body (congrArg Json.str hbody))
  · have hfirstTag : first.tagName = release.tagName :=
      (hwork.before first hfirst).2.trans htag.symm
    exact Or.inr ⟨first, hfirst, hfirstTag, releaseIdentity_congr
      (congrArg Json.str hfirstTag.symm) (congrArg Json.str hbody)⟩

theorem Tidy.worked (hh : Tidy controller h) {expected : CandidateIdentity} {id : ℤ}
    (hwork : Worked controller.codec expected h id t) : Tidy controller t := by
  refine ⟨hwork.assets hh.apart, fun other other' release release' hget hget' hpreview hsame => ?_,
    fun tag htag hpreview => ?_, fun other release m hget hm => ?_⟩
  · by_cases hother : other = id
    · subst hother
      exact (hwork.only other' release' hget' (hsame.trans (hwork.identity hget).2.1)).symm
    · by_cases hother' : other' = id
      · subst hother'
        exact hwork.only other release hget (hsame.symm.trans (hwork.identity hget').2.1)
      · rw [hwork.others other hother] at hget
        rw [hwork.others other' hother'] at hget'
        exact hh.unique other other' release release' hget hget' hpreview hsame
  · rcases hwork.refs tag with hsame | ⟨-, hnone⟩
    · obtain ⟨other, release, hget, rfl⟩ := hh.tagged tag (hsame ▸ htag) hpreview
      obtain ⟨release', hget', hname⟩ := hwork.tags other release hget
      exact ⟨other, release', hget', hname⟩
    · rw [hnone] at htag
      cases htag
  · by_cases hother : other = id
    · subst hother
      obtain ⟨hdraft, htag, hidentity⟩ := hwork.identity hget
      have hno : release.draft ≠ false := by simp [hdraft]
      rcases hidentity with hidentity | ⟨first, hfirst, hname, hidentity⟩
      · exact ⟨expected, hidentity, htag.symm, fun hfalse => absurd hfalse hno⟩
      · obtain ⟨i, hi, htagi, -⟩ := hh.identified other first m hfirst (hname ▸ hm)
        exact ⟨i, hidentity.trans hi, htagi.trans hname, fun hfalse => absurd hfalse hno⟩
    · rw [hwork.others other hother] at hget
      exact hh.identified other release m hget hm

theorem PipelineInv.stage (hs : PipelineInv controller s) {expected : CandidateIdentity}
    (hderived : s.Derived expected) (files : List (Text × List UInt8))
    (writeRecord : ℤ → List HubAsset → Except String (List UInt8)) (deliveries : List Delivery) :
    PipelineInv controller
      (s.after (Release.stage controller.codec expected files writeRecord) deliveries) := by
  rcases @stage_leaves controller.codec expected files writeRecord
    ⟨s.hub, deliveries⟩ with hsame | ⟨id, hwork⟩
  · unfold Pipeline.after
    rw [hsame]
    exact hs
  · refine hs.grow (Grows.of_previews hs.sound hwork.tags hwork.previews_eq)
      (hs.tidy.worked hwork) fun other release i hget hpreview hi => ?_
    by_cases hother : other = id
    · subst hother
      obtain ⟨-, -, hidentity | ⟨first, hfirst, hname, hidentity⟩⟩ := hwork.identity hget
      · cases hidentity.symm.trans hi
        obtain ⟨j, hj, hsame⟩ := hderived
        exact (hs.resolved j hj).derived hsame
      · exact hs.released other first i hfirst (hname ▸ hpreview) (hidentity.symm.trans hi)
    · rw [hwork.others other hother] at hget
      exact hs.released other release i hget hpreview hi

/-! ## Publishing -/

theorem PipelineInv.tagged (hs : PipelineInv controller s) {tag target : Text}
    (ht : Tagged tag target s.hub t) (hrelease : (tagMatch tag).isSome → ∃ id release,
      s.hub.releases.get id = some release ∧ release.tagName = tag) :
    PipelineInv controller { s with hub := t } := by
  have hreleases : t.releases = s.hub.releases := ht.frame.1
  have hother := ht.frame.2.2.2.2.2.2.2.2.2
  refine hs.grow (Grows.of_releases hs.sound hreleases) (hs.tidy.of_releases hreleases ?_) ?_
  · intro other hsome hpreview
    by_cases heq : other = tag
    · subst heq
      exact Or.inr (hrelease hpreview)
    · exact Or.inl (hother other heq ▸ hsome)
  · rw [hreleases]
    exact hs.released

section Publish

variable {id : ℤ} {release : HubRelease} {latest : Bool} {codec : JsonCodec}

theorem get_withPublished (other : ℤ) : (h.withPublished id release latest).releases.get other =
    if other = id then some { release with draft := false } else h.releases.get other :=
  Dict.get_set _ _ _ _

/-- A draft that is published joins the previews. -/
theorem mem_previews_withPublished (hget : h.releases.get id = some release)
    (hdraft : release.draft = true) {base : Text} {phase : Phase} {entry : ℕ × Text} :
    entry ∈ (h.withPublished id release latest).previews codec base phase ↔
      entry ∈ h.previews codec base phase ∨
        tagMatch release.tagName = some ⟨base, phase, entry.1⟩ ∧
          ∃ i, releaseIdentity codec (release.json id) = .ok i ∧ i.sourceSnapshot = entry.2 := by
  have hsame : releaseIdentity codec (({ release with draft := false } : HubRelease).json id) =
      releaseIdentity codec (release.json id) := releaseIdentity_congr rfl rfl
  constructor
  · rintro ⟨other, found, i, hfound, hfalse, hmatch, hi, hdigest⟩
    rw [get_withPublished] at hfound
    split at hfound
    · next hother =>
      subst hother
      cases hfound
      exact Or.inr ⟨hmatch, i, hsame.symm.trans hi, hdigest⟩
    · exact Or.inl ⟨other, found, i, hfound, hfalse, hmatch, hi, hdigest⟩
  · rintro (⟨other, found, i, hfound, hfalse, hrest⟩ | ⟨hmatch, i, hi, hdigest⟩)
    · have hne : other ≠ id := by
        rintro rfl
        cases hget.symm.trans hfound
        rw [hdraft] at hfalse
        cases hfalse
      exact ⟨other, found, i, (get_withPublished other).trans ((if_neg hne).trans hfound), hfalse,
        hrest⟩
    · exact ⟨id, _, i, (get_withPublished id).trans (if_pos rfl), rfl, hmatch, hsame.trans hi,
        hdigest⟩

theorem Tidy.withPublished (hh : Tidy controller h) (hget : h.releases.get id = some release)
    (hrecorded : ∀ m, tagMatch release.tagName = some m → ∀ i,
      releaseIdentity controller.codec (release.json id) = .ok i →
        CarriesRecord controller { release with draft := false } m.phase i.sourceSnapshot) :
    Tidy controller (h.withPublished id release latest) := by
  have hback : ∀ other found, (h.withPublished id release latest).releases.get other = some found →
      ∃ first, h.releases.get other = some first ∧ first.tagName = found.tagName := by
    intro other found hfound
    rw [get_withPublished] at hfound
    split at hfound
    · next hother =>
      subst hother
      cases hfound
      exact ⟨release, hget, rfl⟩
    · exact ⟨found, hfound, rfl⟩
  refine ⟨?_, fun other other' found found' hfound hfound' hpreview hsame => ?_,
    fun tag htag hpreview => ?_, fun other found m hfound hm => ?_⟩
  · unfold Hub.AssetsApart
    rw [Hub.assets_withPublished hget]
    exact hh.apart
  · obtain ⟨first, hfirst, hname⟩ := hback other found hfound
    obtain ⟨first', hfirst', hname'⟩ := hback other' found' hfound'
    exact hh.unique other other' first first' hfirst hfirst' (hname ▸ hpreview)
      (hname'.trans (hsame.trans hname.symm))
  · obtain ⟨other, found, hfound, hname⟩ := hh.tagged tag htag hpreview
    by_cases hother : other = id
    · subst hother
      cases hget.symm.trans hfound
      exact ⟨other, _, (get_withPublished other).trans (if_pos rfl), hname⟩
    · exact ⟨other, found, (get_withPublished other).trans ((if_neg hother).trans hfound), hname⟩
  · rw [get_withPublished] at hfound
    split at hfound
    · next hother =>
      subst hother
      cases hfound
      obtain ⟨i, hi, htag, -⟩ := hh.identified other release m hget hm
      exact ⟨i, (releaseIdentity_congr rfl rfl).trans hi, htag, fun _ => hrecorded m hm i hi⟩
    · exact hh.identified other found m hfound hm

/-- **Publishing a draft keeps the numbers without a gap.** -/
theorem PipelineInv.withPublished (hs : PipelineInv controller s)
    (hget : s.hub.releases.get id = some release) (hdraft : release.draft = true)
    (hrecorded : ∀ m, tagMatch release.tagName = some m → ∀ i,
      releaseIdentity controller.codec (release.json id) = .ok i →
        CarriesRecord controller { release with draft := false } m.phase i.sourceSnapshot) :
    PipelineInv controller { s with hub := s.hub.withPublished id release latest } := by
  have htags : ∀ other found, s.hub.releases.get other = some found → ∃ found',
      (s.hub.withPublished id release latest).releases.get other = some found' ∧
        found'.tagName = found.tagName := by
    intro other found hfound
    by_cases hother : other = id
    · subst hother
      cases hget.symm.trans hfound
      exact ⟨_, (get_withPublished other).trans (if_pos rfl), rfl⟩
    · exact ⟨found, (get_withPublished other).trans ((if_neg hother).trans hfound), rfl⟩
  have hsound : ∀ base phase, Series.Sound
      ((s.hub.withPublished id release latest).previews controller.codec base phase) := by
    intro base phase
    by_cases hseries : ∃ n, tagMatch release.tagName = some ⟨base, phase, n⟩
    · -- the draft takes the number that its candidate was given
      obtain ⟨n, hmatch⟩ := hseries
      obtain ⟨i, hi, htag, -⟩ := hs.tidy.identified id release _ hget hmatch
      have hversion : previewMatch i.version = some ⟨base, phase, n⟩ := by
        rw [← htag] at hmatch
        exact hmatch
      have hready := (hs.released id release i hget (by rw [hmatch]; rfl) hi).ready _ hversion
      have hinsert : (s.hub.withPublished id release latest).previews controller.codec base phase =
          insert (n, i.sourceSnapshot) (s.hub.previews controller.codec base phase) := by
        ext entry
        rw [mem_previews_withPublished hget hdraft, Set.mem_insert_iff, or_comm]
        refine or_congr_left ⟨?_, ?_⟩
        · rintro ⟨hmatch', j, hj, hdigest⟩
          cases hmatch.symm.trans hmatch'
          cases hi.symm.trans hj
          exact Prod.ext rfl hdigest.symm
        · rintro rfl
          exact ⟨hmatch, i, hi, rfl⟩
      rw [hinsert]
      refine (hs.sound base phase).insert hready ?_
      rintro b ⟨other, found, j, hfound, hfalse, hmatch', -⟩
      obtain rfl := hs.tidy.unique other id found release hfound hget (by rw [hmatch']; rfl)
        (tagMatch_injective hmatch hmatch')
      cases hget.symm.trans hfound
      rw [hdraft] at hfalse
      cases hfalse
    · have hsame : (s.hub.withPublished id release latest).previews controller.codec base phase =
          s.hub.previews controller.codec base phase := by
        ext entry
        rw [mem_previews_withPublished hget hdraft, or_iff_left]
        exact fun hnew => hseries ⟨entry.1, hnew.1⟩
      rw [hsame]
      exact hs.sound base phase
  refine hs.grow ⟨htags, fun base phase entry hentry => ?_, hsound⟩
    (hs.tidy.withPublished hget hrecorded) fun other found i hfound hpreview hi => ?_
  · exact (mem_previews_withPublished hget hdraft).mpr (Or.inl hentry)
  · rw [get_withPublished] at hfound
    split at hfound
    · next hother =>
      subst hother
      cases hfound
      exact hs.released other release i hget hpreview ((releaseIdentity_congr rfl rfl).trans hi)
    · exact hs.released other found i hfound hpreview hi

end Publish

/-- The tag of a record has a preview number only if the record is of a preview. -/
theorem CandidateRecord.phase_of_match {record : CandidateRecord} {m : PreviewMatch}
    (hm : tagMatch record.tag = some m) : record.phase = some m.phase := by
  rw [record.tag_eq] at hm
  exact CandidateIdentity.phase_of_match (i := record.identity) hm

theorem PipelineInv.publishPreview (hs : PipelineInv controller s) (record : CandidateRecord)
    (deliveries : List Delivery) :
    PipelineInv controller (s.after (previewRun controller.toCheckout record) deliveries) := by
  unfold Pipeline.after
  rw [previewRun_eq]
  rcases midway_leaves (@repeatable_preview controller.toCheckout record) ⟨s.hub, deliveries⟩ with
    hsame | ⟨latest, hview, hleft⟩
  · rw [hsame]
    exact hs
  obtain ⟨livePr, release, publish, -, hget, hprepare, hlatest⟩ :=
    view_previewPrepared_eq_ok.mp hview
  cases publish with
  | false => cases hlatest
  | true =>
      obtain ⟨hshape, hverify⟩ := preparePreview_seen hprepare
      have hready := view_verifyDraft hverify
      obtain ⟨phase, -, hlive, -⟩ := (previewPublishable_of_prepare hprepare).live
      have hphase : record.phase = some phase := hlive
      obtain ⟨release', hget', htag, -, hdraft, hprerelease, -, -, -, hlisted⟩ := hready.release
      cases hget.symm.trans hget'
      have hcarries : (tagMatch record.tag).isSome → ∃ id release,
          s.hub.releases.get id = some release ∧ release.tagName = record.tag :=
        fun _ => ⟨_, release, hget, htag⟩
      rcases hleft with htagged | hpublished
      · exact hs.tagged htagged hcarries
      · obtain ⟨t, found, chosen, ht, -, hfound, -, hgett, heq⟩ :=
          hpublished.eq_withPublished hready (by rw [hphase]; rfl)
        cases hget.symm.trans hfound
        rw [heq]
        refine (hs.tagged ht hcarries).withPublished hgett hdraft fun m hm i hi => ?_
        -- the record that the release carries is the one that is published
        obtain ⟨-, -, -, -, -, hidentity, -⟩ := assertReleaseShape_eq_ok hshape
        cases hidentity.symm.trans hi
        have hrecordPhase : record.phase = some m.phase :=
          CandidateRecord.phase_of_match (htag ▸ hm)
        obtain ⟨asset, hfind, hbytes, -⟩ := hlisted (by rw [hphase]; rfl)
        have hmem : asset ∈ release.assets :=
          List.mem_reverse.mp (List.mem_of_find?_eq_some hfind)
        rw [Hub.asset?_eq_some hs.tidy.apart hget hmem] at hbytes
        obtain ⟨value, hread, hobj, hvaluePhase, hvalueSnapshot⟩ :=
          controller.readRecord_dump record
        refine ⟨?_, asset, value, hfind, ?_, hobj, ?_, hvalueSnapshot⟩
        · show release.prerelease = true
          rw [hprerelease, hphase]
          rfl
        · rw [Option.some.inj hbytes]
          exact hread
        · rw [hvaluePhase, hrecordPhase]

theorem PipelineInv.publishStable (hs : PipelineInv controller s) (record : CandidateRecord)
    (push : Text) (deliveries : List Delivery) :
    PipelineInv controller (s.after (stableRun controller.toCheckout record push) deliveries) := by
  unfold Pipeline.after
  rw [stableRun_eq]
  rcases midway_leaves (@repeatable_stable controller.toCheckout record push)
    ⟨s.hub, deliveries⟩ with hsame | ⟨latest, hview, hleft⟩
  · rw [hsame]
    exact hs
  obtain ⟨release, mergedPr, publish, hget, -, hprepare, hlatest⟩ :=
    view_stablePrepared_eq_ok.mp hview
  cases publish with
  | false => cases hlatest
  | true =>
      obtain ⟨-, hverify⟩ := prepareStable_seen hprepare
      have hready := view_verifyDraft hverify
      have hphase := (stablePublishable_of_prepare hprepare).phase
      -- a stable tag has no preview number
      have hnone : ∀ m, tagMatch record.tag ≠ some m := by
        intro m hm
        rw [CandidateRecord.phase_of_match hm] at hphase
        cases hphase
      have hcarries : (tagMatch record.tag).isSome → ∃ id release,
          s.hub.releases.get id = some release ∧ release.tagName = record.tag := by
        intro hsome
        obtain ⟨m, hm⟩ := Option.isSome_iff_exists.mp hsome
        exact absurd hm (hnone m)
      obtain ⟨release', hget', htag, -, hdraft, -⟩ := hready.release
      cases hget.symm.trans hget'
      rcases hleft with htagged | hpublished
      · exact hs.tagged htagged hcarries
      · obtain ⟨t, found, chosen, ht, -, hfound, -, hgett, heq⟩ :=
          hpublished.eq_withPublished hready (by rw [hphase]; rfl)
        cases hget.symm.trans hfound
        rw [heq]
        refine (hs.tagged ht hcarries).withPublished hgett hdraft fun m hm => ?_
        exact absurd (htag ▸ hm) (hnone m)

end Steps

/-! ## Runs -/

section Runs

variable {controller : Controller} {s s' : Pipeline}

theorem Fresh.previews_eq (hs : Fresh s) (base : Text) (phase : Phase) :
    s.hub.previews controller.codec base phase = ∅ := by
  ext entry
  simp only [Set.mem_empty_iff_false, iff_false]
  rintro ⟨id, release, i, hget, -, hmatch, -⟩
  rw [hs.releases id release hget] at hmatch
  cases hmatch

theorem Fresh.inv (hs : Fresh s) : PipelineInv controller s := by
  have hno : ∀ id release, s.hub.releases.get id = some release →
      (tagMatch release.tagName).isSome → False := by
    intro id release hget hsome
    rw [hs.releases id release hget] at hsome
    cases hsome
  refine ⟨⟨hs.assets, ?_, ?_, ?_⟩, ?_, ?_, ?_, ?_⟩
  · exact fun id id' release release' hget hget' hsome _ => (hno id release hget hsome).elim
  · intro tag htag hsome
    rw [hs.refs tag htag] at hsome
    cases hsome
  · intro id release m hget hm
    exact (hno id release hget (by rw [hm]; rfl)).elim
  · intro tags htags
    rw [hs.seen] at htags
    cases htags
  · intro base phase
    rw [hs.previews_eq]
    exact Series.sound_empty
  · intro i hi
    rw [hs.resolved] at hi
    cases hi
  · exact fun id release i hget hsome _ => (hno id release hget hsome).elim

/-- What is read as a tag is the tag of a release, and remains one. -/
theorem PipelineInv.readTags (hs : PipelineInv controller s) {tags : List Text}
    (hview : Remote.view Release.readTags s.hub = .ok tags) :
    PipelineInv controller { s with seen := tags :: s.seen } := by
  refine ⟨hs.tidy, fun found hfound tag htag hsome => ?_, hs.sound, hs.resolved, hs.released⟩
  rcases List.mem_cons.mp hfound with rfl | hfound
  · rw [Release.readTags, Remote.view_read] at hview
    cases hview
    have hkey := (List.mem_filter.mp htag).1
    exact hs.tidy.tagged tag (Option.isSome_iff_exists.mpr (Dict.mem_keys_iff.mp hkey)) hsome
  · exact hs.seen found hfound tag htag hsome

theorem PipelineInv.next (hs : PipelineInv controller s) {e : PipelineEvent}
    (hnext : (pipeline controller).next s e = some s') : PipelineInv controller s' := by
  cases e with
  | readTags =>
      simp only [pipeline] at hnext
      split at hnext
      · next tags hview =>
        cases hnext
        exact hs.readTags hview
      · cases hnext
  | resolve number tags =>
      simp only [pipeline] at hnext
      split at hnext
      · next htags =>
        split at hnext
        · next i hview =>
          cases hnext
          refine ⟨hs.tidy, hs.seen, hs.sound, List.forall_mem_cons.mpr ⟨?_, hs.resolved⟩,
            hs.released⟩
          exact chosen_of_resolveRun hs htags hview
        · cases hnext
          exact hs
      · cases hnext
  | stage expected files writeRecord deliveries =>
      simp only [pipeline] at hnext
      split at hnext
      · next hderived =>
        cases hnext
        exact hs.stage hderived files writeRecord deliveries
      · cases hnext
  | publishPreview record deliveries =>
      cases hnext
      exact hs.publishPreview record deliveries
  | publishStable record push deliveries =>
      cases hnext
      exact hs.publishStable record push deliveries
  | elsewhere commit head pull timeline permission =>
      cases hnext
      refine hs.grow (Grows.of_releases hs.sound rfl) ?_ hs.released
      exact hs.tidy.of_releases rfl fun tag htag _ => Or.inl htag

theorem pipelineInv_of_reachable (hs : (pipeline controller).Reachable System.Free s) :
    PipelineInv controller s :=
  hs.invariant (fun _ => Fresh.inv) fun _ _ _ hinv _ hnext => hinv.next hnext

/-- The numbers of the published previews of a version and phase. -/
def Hub.previewNumbers (h : Hub) (base : Text) (phase : Phase) : List ℕ :=
  h.releases.items.filterMap fun item =>
    if item.2.draft then none else tagNumber base phase item.2.tagName

/-- The digests of the sources of the published previews of a phase. -/
def Hub.previewSources (codec : JsonCodec) (h : Hub) (phase : Phase) : List Text :=
  h.releases.items.filterMap fun item =>
    if item.2.draft ∨ (tagMatch item.2.tagName).map PreviewMatch.phase ≠ some phase then none
    else (releaseIdentity codec (item.2.json item.1)).toOption.map (·.sourceSnapshot)

theorem tagNumber_eq_some {base tag : Text} {phase : Phase} {n : ℕ} :
    tagNumber base phase tag = some n ↔ tagMatch tag = some ⟨base, phase, n⟩ := by
  unfold tagNumber
  rw [Option.bind_eq_some_iff]
  constructor
  · rintro ⟨m, hm, hsome⟩
    split at hsome
    · next hsame =>
      cases hsome
      rw [hm, ← hsame.1, ← hsame.2]
    · cases hsome
  · intro hm
    exact ⟨_, hm, if_pos ⟨rfl, rfl⟩⟩

theorem mem_previewNumbers {h : Hub} {base : Text} {phase : Phase} {n : ℕ} :
    n ∈ h.previewNumbers base phase ↔ ∃ id release, h.releases.get id = some release ∧
      release.draft = false ∧ tagMatch release.tagName = some ⟨base, phase, n⟩ := by
  unfold Hub.previewNumbers
  rw [List.mem_filterMap]
  constructor
  · rintro ⟨⟨id, release⟩, hitem, hsome⟩
    split at hsome
    · cases hsome
    · next hdraft =>
      exact ⟨id, release, Dict.get_eq_some.mpr hitem, by simpa using hdraft,
        tagNumber_eq_some.mp hsome⟩
  · rintro ⟨id, release, hget, hdraft, hmatch⟩
    refine ⟨(id, release), Dict.get_eq_some.mp hget, ?_⟩
    rw [if_neg (by simp [hdraft])]
    exact tagNumber_eq_some.mpr hmatch

theorem PipelineInv.mem_previewNumbers_iff (hs : PipelineInv controller s) {base : Text}
    {phase : Phase} {n : ℕ} : n ∈ s.hub.previewNumbers base phase ↔
      ∃ digest, (n, digest) ∈ s.hub.previews controller.codec base phase := by
  rw [mem_previewNumbers]
  constructor
  · rintro ⟨id, release, hget, hdraft, hmatch⟩
    obtain ⟨i, hi, -, -⟩ := hs.tidy.identified id release _ hget hmatch
    exact ⟨i.sourceSnapshot, id, release, i, hget, hdraft, hmatch, hi, rfl⟩
  · rintro ⟨digest, id, release, i, hget, hdraft, hmatch, -⟩
    exact ⟨id, release, hget, hdraft, hmatch⟩

end Runs

/-! ## A repository -/

namespace PipelineExample

/-- The controller of a repository whose sources all prepare one version. -/
def controller : Controller where
  codec := jsonCodec
  format := recordFormat
  hashlib := SumsExample.hashlib
  distribution := fun _ _ => .ok ⟨⟩
  repository := "gelstable/gel-cli".toList
  repo := Sample.repo
  sha256 := Sample.sha256
  cargoVersion := fun _ => .ok "8.0.0".toList
  fromisoformat := fun _ => none
  depth := 1
  readRecord := readJson
  readRecord_dump := readJson_dump
  version_of_digest := fun _ _ _ _ _ => rfl

/-- A stable release, and its tag. -/
def hub : Hub where
  releases := ⟨[(1, ⟨"v7.9.0".toList, "v7.9.0".toList, false, false, [], []⟩)], by decide⟩
  refs := ⟨[("v7.9.0".toList, ⟨commitType, Sample.sourceSha, by decide +kernel⟩)],
    List.nodup_singleton _⟩
  tagObjects := Dict.empty
  commit := fun _ => true
  head := ⟨commitType, Sample.sourceSha, by decide +kernel⟩
  latest := some 1
  perPage := 30
  pull := fun _ => none
  timeline := fun _ => []
  permission := fun _ => none

/-- The tags have been read. -/
def pipelineState : Pipeline := ⟨hub, [["v7.9.0".toList]], []⟩

theorem fresh : Fresh ⟨hub, [], []⟩ := by
  have hstable : tagMatch "v7.9.0".toList = none := by decide +kernel
  refine ⟨?_, fun id release hget => ?_, fun tag htag => ?_, rfl, rfl⟩
  · exact List.nodup_nil
  · obtain ⟨rfl, rfl⟩ := Prod.mk.inj (List.mem_singleton.mp (Dict.get_eq_some.mp hget))
    exact hstable
  · obtain ⟨object, hobject⟩ := Option.isSome_iff_exists.mp htag
    obtain ⟨rfl, -⟩ := Prod.mk.inj (List.mem_singleton.mp (Dict.get_eq_some.mp hobject))
    exact hstable

theorem reachable : (pipeline controller).Reachable System.Free pipelineState := by
  refine System.Reachable.step (e := .readTags) (System.Reachable.initial fresh) trivial ?_
  rfl

end PipelineExample

section Runs

variable {controller : Controller} {s : Pipeline}

end Runs

end GelCli.Release
