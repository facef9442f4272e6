import GelCli.Release.Publish

/-!
# What a publication changes

Whatever is answered and whichever call fails, a publication changes nothing unless every
check of it has passed, and then it makes the tag of its record, if nobody has, and after
that publishes the draft of the record. No tag is moved, and no other release is touched.
-/

namespace GelCli.Release

open GelCli.Foundation

/-! ## The two changes -/

section Effects

variable {tag target : Text} {h t t' p : Hub}

/-- `t` is `h` with the tag at the target: it was found there, or it was made. -/
inductive Tagged (tag target : Text) (h : Hub) : Hub → Prop where
  | found {sha : Text} : Remote.view (resolveTagCommit tag) h = .ok (some sha) →
      lower sha = lower target → Tagged tag target h h
  | made {t : Hub} : h.createRef tag target = .ok t → Tagged tag target h t

namespace Hub

/-- `h` with a release published, and the latest one if it is to be. -/
def withPublished (h : Hub) (id : ℤ) (release : HubRelease) (latest : Bool) : Hub :=
  { h with
    releases := h.releases.set id { release with draft := false }
    latest := if latest then some id else h.latest }

theorem createRef_eq_ok : h.createRef tag target = .ok t ↔
    h.refs.get tag = none ∧ ∃ hsha : sha1 target, h.commit target ∧
      t = { h with refs := h.refs.set tag ⟨commitType, target, hsha⟩ } := by
  unfold createRef
  constructor
  · intro hcreate
    split at hcreate
    · cases hcreate
    · next hnone =>
      split at hcreate
      · next hsha =>
        cases hcreate
        exact ⟨by simpa using hnone, hsha.1, hsha.2, rfl⟩
      · cases hcreate
  · rintro ⟨hnone, hsha, hcommit, rfl⟩
    rw [if_neg (by simp [hnone]), dif_pos ⟨hsha, hcommit⟩]

end Hub

namespace Tagged

/-- Only the tag may be new. -/
theorem frame (ht : Tagged tag target h t) :
    t.releases = h.releases ∧ t.latest = h.latest ∧ t.tagObjects = h.tagObjects ∧
      t.pull = h.pull ∧ t.timeline = h.timeline ∧ t.permission = h.permission ∧
      t.perPage = h.perPage ∧ t.commit = h.commit ∧ t.head = h.head ∧
      ∀ other, other ≠ tag → t.refs.get other = h.refs.get other := by
  cases ht with
  | found _ _ => exact ⟨rfl, rfl, rfl, rfl, rfl, rfl, rfl, rfl, rfl, fun _ _ => rfl⟩
  | made hmade =>
      obtain ⟨-, hsha, -, rfl⟩ := Hub.createRef_eq_ok.mp hmade
      refine ⟨rfl, rfl, rfl, rfl, rfl, rfl, rfl, rfl, rfl, fun other hne => ?_⟩
      exact (Dict.get_set _ _ _ _).trans (if_neg hne)

/-- A tag that exists is where it was. -/
theorem get_of_some {object : GitObject} (ht : Tagged tag target h t)
    (hget : h.refs.get tag = some object) : t = h := by
  cases ht with
  | found _ _ => rfl
  | made hmade =>
      obtain ⟨hnone, -⟩ := Hub.createRef_eq_ok.mp hmade
      rw [hget] at hnone
      cases hnone

/-- The tag is at the target. -/
theorem resolved (ht : Tagged tag target h t) :
    ∃ sha, Remote.view (resolveTagCommit tag) t = .ok (some sha) ∧ lower sha = lower target := by
  cases ht with
  | found hview hlower => exact ⟨_, hview, hlower⟩
  | made hmade =>
      obtain ⟨-, hsha, -, rfl⟩ := Hub.createRef_eq_ok.mp hmade
      refine ⟨target, ?_, rfl⟩
      have hget : ({ h with refs := h.refs.set tag ⟨commitType, target, hsha⟩ } : Hub).refs.get tag =
          some ⟨commitType, target, hsha⟩ := (Dict.get_set _ _ _ _).trans (if_pos rfl)
      exact view_resolveTagCommit_of_commit hget rfl

theorem isSome (ht : Tagged tag target h t) : (t.refs.get tag).isSome := by
  obtain ⟨sha, hview, -⟩ := ht.resolved
  by_contra hnone
  rw [view_resolveTagCommit_of_none (by simpa using hnone)] at hview
  cases hview

theorem unique (ht : Tagged tag target h t) (ht' : Tagged tag target h t') : t = t' := by
  cases ht with
  | found hview _ =>
      cases ht' with
      | found _ _ => rfl
      | made hmade =>
          rw [view_resolveTagCommit_of_none (Hub.createRef_eq_ok.mp hmade).1] at hview
          cases hview
  | made hmade =>
      cases ht' with
      | found hview _ =>
          rw [view_resolveTagCommit_of_none (Hub.createRef_eq_ok.mp hmade).1] at hview
          cases hview
      | made hmade' => exact Except.ok.inj (hmade.symm.trans hmade')

/-- Nothing is left to do for the tag. -/
theorem again (ht : Tagged tag target h t) : Tagged tag target t t := by
  obtain ⟨sha, hview, hlower⟩ := ht.resolved
  exact found hview hlower

end Tagged

/-- A release whose tag exists is published, and nothing else. -/
theorem Hub.publish_eq {id : ℤ} {release : HubRelease} {latest : Bool}
    (hget : h.releases.get id = some release) (htag : (h.refs.get release.tagName).isSome) :
    h.publish id release.tagName release.prerelease latest =
      .ok (h.withPublished id release latest) := by
  unfold Hub.publish
  rw [hget]
  simp only [if_pos htag]
  rfl

/-! ## `_ensure_tag` and `_publish_release` -/

theorem ensureTag_triple : Triple (fun w => w.state = h) (ensureTag tag target)
    (fun _ w => Tagged tag target h w.state)
    fun _ w => w.state = h ∨ Tagged tag target h w.state := by
  apply Triple.bind (((reads_tagTarget tag).triple h).conseqError fun _ _ => Or.inl)
  intro existing
  apply Triple.assume fun w hw => hw.1
  intro hview
  cases existing with
  | some sha =>
      apply Triple.ofExcept
      · rintro u w hrequire ⟨-, rfl⟩
        exact Tagged.found (view_tagTarget_eq_ok.mp hview) (require_eq_ok.mp hrequire)
      · rintro e w - ⟨-, rfl⟩
        exact Or.inl rfl
  | none =>
      apply Triple.conseqError
      · apply Triple.conseq (Remote.mutate_triple (s := h)) (fun w hw => hw.2)
        intro u w hmade
        exact Tagged.made hmade
      · rintro e w (hw | hmade)
        · exact Or.inl hw
        · exact Or.inr (Tagged.made hmade)

/-- `p` is `h` with the tag of the record at its target and the release of the record
published. -/
def Published (record : CandidateRecord) (target : Text) (prerelease : Bool)
    (makeLatest : Publishing Bool) (h p : Hub) : Prop :=
  ∃ t latest, Tagged record.tag target h t ∧ Remote.view makeLatest t = .ok latest ∧
    t.publish record.draftReleaseId record.tag prerelease latest = .ok p

variable {record : CandidateRecord} {prerelease : Bool} {makeLatest : Publishing Bool}

/-- **The tag is made before the draft is published.** -/
theorem finishPublication_triple (hlatest : Remote.Reads makeLatest) :
    Triple (fun w => w.state = h) (finishPublication record target prerelease makeLatest)
      (fun _ w => Published record target prerelease makeLatest h w.state)
      fun _ w => w.state = h ∨ Tagged record.tag target h w.state ∨
        Published record target prerelease makeLatest h w.state := by
  apply Triple.bind (ensureTag_triple.conseqError fun _ _ hw => hw.imp_right Or.inl)
  intro _
  apply Triple.pointwise
  intro w ht
  have hlook : Triple (fun v => v = w) makeLatest
      (fun latest v => Remote.view makeLatest w.state = .ok latest ∧ v.state = w.state)
      fun _ v => v.state = h ∨ Tagged record.tag target h v.state ∨
        Published record target prerelease makeLatest h v.state := by
    refine Triple.conseqError ((hlatest.triple w.state).conseq (fun v hv => congrArg Remote.state hv)
      fun _ _ hpost => hpost) ?_
    intro e v hv
    exact Or.inr (Or.inl (hv ▸ ht))
  apply Triple.bind hlook
  intro latest
  apply Triple.assume fun v hv => hv.1
  intro hview
  apply Triple.conseqError
  · apply Triple.conseq (Remote.mutate_triple (s := w.state)) (fun v hv => hv.2)
    intro u v hpublish
    exact ⟨w.state, latest, ht, hview, hpublish⟩
  · rintro e v (hv | hpublish)
    · exact Or.inr (Or.inl (hv ▸ ht))
    · exact Or.inr (Or.inr ⟨w.state, latest, ht, hview, hpublish⟩)

end Effects

/-! ## What the checks have seen -/

section Checks

variable {tooling : Tooling} {record : CandidateRecord} {h : Hub} {target : Text}

/-- The release carries the record among its assets, byte for byte. -/
def RecordListed (tooling : Tooling) (record : CandidateRecord) (release : HubRelease) (h : Hub) :
    Prop :=
  ∃ asset, (release.assets.reverse.find? fun asset => asset.name = previewRecordName) = some asset ∧
    (h.asset? asset.id).map HubAsset.bytes = some (tooling.format.dump record) ∧
    ∃ loaded, tooling.format.loadBytes (tooling.format.dump record) = .ok loaded

/-- The draft of a record is in the repository, its tag is free or at the target, and the
bytes of its assets are the recorded ones. -/
structure DraftReady (tooling : Tooling) (record : CandidateRecord) (target : Text) (h : Hub) :
    Prop where
  release : ∃ release, h.releases.get record.draftReleaseId = some release ∧
    release.tagName = record.tag ∧ release.name = record.tag ∧ release.draft = true ∧
    release.prerelease = record.phase.isSome ∧
    checkInventory (release.assets.map HubAsset.name) record.version record.phase = .ok ⟨⟩ ∧
    (∀ asset ∈ release.assets, 0 < asset.id) ∧
    (∀ entry ∈ record.assets, checkRemote release.assets entry = .ok ⟨⟩) ∧
    (record.phase.isSome → RecordListed tooling record release h)
  tag : ∀ sha, Remote.view (resolveTagCommit record.tag) h = .ok (some sha) → lower sha = lower target
  names : Text.sorted (record.assets.map CandidateAsset.name) = expectedAssets record.version
  digests : ∀ entry ∈ record.assets, ∃ asset, h.asset? entry.id = some asset ∧
    (asset.bytes.length : ℤ) = entry.size ∧ tooling.hashlib.sha256 asset.bytes = entry.sha256 ∧
    tooling.hashlib.blake2b asset.bytes = entry.blake2b512
  distribution : ∃ files, files.map Prod.fst = record.assets ∧
    (∀ file ∈ files, (h.asset? file.1.id).map HubAsset.bytes = some file.2) ∧
      tooling.distribution record files = .ok ⟨⟩

theorem checkDigests_eq_ok {hashlib : Hashlib} {file : Downloaded} :
    checkDigests hashlib file = .ok ⟨⟩ ↔ (file.2.length : ℤ) = file.1.size ∧
      hashlib.sha256 file.2 = file.1.sha256 ∧ hashlib.blake2b file.2 = file.1.blake2b512 := by
  unfold checkDigests
  rw [require_bind_eq_ok, require_bind_eq_ok, require_eq_ok]
  rfl

/-- The files that are downloaded are those of the recorded assets. -/
theorem view_downloadRecorded {entries : List CandidateAsset} {files : List Downloaded}
    (hview : Remote.view (entries.mapM downloadRecorded) h = .ok files) :
    files.map Prod.fst = entries ∧
      ∀ file ∈ files, (h.asset? file.1.id).map HubAsset.bytes = some file.2 := by
  have hone : ∀ entry file, Remote.view (downloadRecorded entry) h = .ok file →
      file.1 = entry ∧ (h.asset? entry.id).map HubAsset.bytes = some file.2 := by
    intro entry file hfile
    obtain ⟨bytes, hbytes, hfile⟩ := Remote.view_read_bind_eq_ok.mp hfile
    cases hfile
    exact ⟨rfl, expect_eq_ok.mp hbytes⟩
  rw [Remote.view_mapM fun entry _ => reads_downloadRecorded entry, mapM_eq_ok] at hview
  induction hview with
  | nil => exact ⟨rfl, fun file hfile => absurd hfile List.not_mem_nil⟩
  | cons hfile _ ih =>
      obtain ⟨hfst, hbytes⟩ := hone _ _ hfile
      refine ⟨by rw [List.map_cons, hfst, ih.1], List.forall_mem_cons.mpr ⟨?_, ih.2⟩⟩
      rw [hfst, hbytes]

theorem getRelease_eq_ok {id : ℤ} {payload : Json}
    (hview : Remote.view (getRelease id) h = .ok payload) :
    ∃ release, h.releases.get id = some release ∧ payload = release.json id := by
  rw [getRelease, Remote.view_read] at hview
  obtain ⟨release, hget, rfl⟩ := Option.map_eq_some_iff.mp (expect_eq_ok.mp hview)
  exact ⟨release, hget, rfl⟩

theorem recordListed_of_view {release : HubRelease}
    (hview : Remote.view (verifyRecordAsset tooling record release.assets) h = .ok ⟨⟩) :
    RecordListed tooling record release h := by
  obtain ⟨asset, hasset, hview⟩ := Remote.view_ofExcept_bind_eq_ok.mp hview
  obtain ⟨⟨⟩, -, hview⟩ := Remote.view_ofExcept_bind_eq_ok.mp hview
  obtain ⟨actual, hactual, hview⟩ := (Remote.view_bind_eq_ok (reads_downloadAsset _)).mp hview
  obtain ⟨⟨⟩, hsame, hview⟩ := Remote.view_ofExcept_bind_eq_ok.mp hview
  obtain ⟨loaded, hloaded, -⟩ := Remote.view_ofExcept_bind_eq_ok.mp hview
  rw [downloadAsset, Remote.view_read] at hactual
  rw [require_eq_ok.mp hsame] at hactual hloaded
  exact ⟨asset, expect_eq_ok.mp hasset, expect_eq_ok.mp hactual, loaded, hloaded⟩

/-- **A draft that is verified is ready.** -/
theorem draftReady_of_verify {expected : CandidateIdentity} {expectedTagTarget : Option Text}
    (hview : Remote.view (verify tooling record expected expectedTagTarget) h = .ok ⟨⟩) :
    DraftReady tooling record (expectedTagTarget.getD record.buildSha) h := by
  obtain ⟨⟨⟩, -, hview⟩ := Remote.view_ofExcept_bind_eq_ok.mp hview
  obtain ⟨payload, hpayload, hview⟩ := (Remote.view_bind_eq_ok (reads_getRelease _)).mp hview
  obtain ⟨resolved, hidentity, hview⟩ :=
    (Remote.view_bind_eq_ok (reads_checkReleaseIdentity _ _ _)).mp hview
  obtain ⟨listed, hlisted, hview⟩ := (Remote.view_bind_eq_ok (reads_listReleaseAssets _)).mp hview
  obtain ⟨⟨⟩, hvalid, hview⟩ := Remote.view_ofExcept_bind_eq_ok.mp hview
  obtain ⟨⟨⟩, hinventory, hview⟩ := Remote.view_ofExcept_bind_eq_ok.mp hview
  obtain ⟨⟨⟩, hremote, hview⟩ := Remote.view_ofExcept_bind_eq_ok.mp hview
  obtain ⟨files, hfiles, hview⟩ := (Remote.view_bind_eq_ok
    (Remote.Reads.mapM fun entry _ => reads_downloadRecorded entry)).mp hview
  obtain ⟨⟨⟩, hrecord, hview⟩ := Remote.view_ofExcept_bind_eq_ok.mp hview
  obtain ⟨⟨⟩, hdistribution, hlast⟩ := Remote.view_read_bind_eq_ok.mp hview
  obtain ⟨release, hget, rfl⟩ := getRelease_eq_ok hpayload
  obtain ⟨⟨⟩, hdraft, hidentity⟩ := Remote.view_ofExcept_bind_eq_ok.mp hidentity
  obtain ⟨found, hfound, hidentity⟩ :=
    (Remote.view_bind_eq_ok (reads_resolveTagCommit _)).mp hidentity
  obtain ⟨⟨⟩, htarget, -⟩ := Remote.view_ofExcept_bind_eq_ok.mp hidentity
  obtain ⟨-, htag, hname, hdraft, hprerelease⟩ := checkDraftRelease_eq_ok.mp hdraft
  rw [listReleaseAssets, Remote.view_read, hget] at hlisted
  cases expect_eq_ok.mp hlisted
  obtain ⟨hnames, hdigests⟩ := require_bind_eq_ok.mp hrecord
  obtain ⟨hentries, hbytes⟩ := view_downloadRecorded hfiles
  refine ⟨⟨release, hget, ?_, ?_, ?_, ?_, hinventory, ?_, forM_eq_ok.mp hremote, ?_⟩, ?_, hnames,
    ?_, files, hentries, hbytes, hdistribution⟩
  · exact Json.str.inj htag
  · exact Json.str.inj hname
  · exact Json.bool.inj hdraft
  · exact Json.bool.inj hprerelease
  · exact fun asset hasset => (require_eq_ok.mp (forM_eq_ok.mp hvalid asset hasset)).1
  · intro hphase
    rw [if_pos hphase] at hlast
    exact recordListed_of_view hlast
  · intro sha hsha
    rw [hfound] at hsha
    cases hsha
    exact require_eq_ok.mp htarget sha rfl
  · intro entry hentry
    obtain ⟨file, hfile, rfl⟩ := List.mem_map.mp (hentries.symm ▸ hentry)
    obtain ⟨asset, hasset, hsame⟩ := Option.map_eq_some_iff.mp (hbytes file hfile)
    have hfileDigests := checkDigests_eq_ok.mp (forM_eq_ok.mp hdigests file hfile)
    exact ⟨asset, hasset, hsame ▸ hfileDigests⟩

end Checks

/-! ## Safe changes -/

section Safe

variable {checks : Hub → Prop} {record : CandidateRecord} {target : Text} {prerelease : Bool}
  {prepare makeLatest : Publishing Bool} {h h' : Hub} {w : Remote Hub}

/-- What a publication of a record may do to the repository. -/
structure SafePublication (checks : Prop) (record : CandidateRecord) (target : Text)
    (h h' : Hub) : Prop where
  /-- The tag comes first, and both only after the checks. -/
  order : h' = h ∨ checks ∧ ∃ t, Tagged record.tag target h t ∧ (h' = t ∨ ∃ release latest,
    t.releases.get record.draftReleaseId = some release ∧ release.draft = true ∧
      h' = t.withPublished record.draftReleaseId release latest)
  /-- No tag is moved. -/
  tags : ∀ tag object, h.refs.get tag = some object → h'.refs.get tag = some object
  /-- No other tag is made. -/
  otherTags : ∀ tag, tag ≠ record.tag → h'.refs.get tag = h.refs.get tag
  /-- What is published stays as it is. -/
  published : ∀ id release, h.releases.get id = some release → release.draft = false →
    h'.releases.get id = some release
  /-- No other release is touched. -/
  others : ∀ id, id ≠ record.draftReleaseId → h'.releases.get id = h.releases.get id

/-- The states that a publication leaves behind. -/
def Reached (checks : Hub → Prop) (record : CandidateRecord) (target : Text) (prerelease : Bool)
    (makeLatest : Publishing Bool) (h h' : Hub) : Prop :=
  h' = h ∨ checks h ∧
    (Tagged record.tag target h h' ∨ Published record target prerelease makeLatest h h')

/-- A publication: checks that only look, and then the two changes. -/
theorem reached_publication (hprepare : Remote.Reads prepare) (hlatest : Remote.Reads makeLatest)
    (hchecks : ∀ h, Remote.view prepare h = .ok true → checks h) :
    Reached checks record target prerelease makeLatest w.state
      (Remote.leaves (do
        let publish ← prepare
        if publish then finishPublication record target prerelease makeLatest else return ⟨⟩) w) := by
  refine Remote.leaves_of_triple (P := fun h => h = w.state)
    (Q := Reached checks record target prerelease makeLatest w.state) ?_ rfl
  apply Triple.bind ((hprepare.triple w.state).conseqError fun _ _ => Or.inl)
  intro publish
  apply Triple.assume fun v hv => hv.1
  intro hview
  cases publish with
  | false => exact Triple.pure fun v hv => Or.inl hv.2
  | true =>
      have hchecked := hchecks _ hview
      apply Triple.conseqError
      · apply Triple.conseq (finishPublication_triple (h := w.state) hlatest) fun v hv => hv.2
        intro u v hpublished
        exact Or.inr ⟨hchecked, Or.inr hpublished⟩
      · rintro e v (hv | htagged | hpublished)
        · exact Or.inl hv
        · exact Or.inr ⟨hchecked, Or.inl htagged⟩
        · exact Or.inr ⟨hchecked, Or.inr hpublished⟩

/-- The draft of a record that is ready is what is published. -/
theorem Published.eq_withPublished {tooling : Tooling}
    (hready : DraftReady tooling record target h) (hphase : record.phase.isSome = prerelease)
    (hpublished : Published record target prerelease makeLatest h h') :
    ∃ t release latest, Tagged record.tag target h t ∧ Remote.view makeLatest t = .ok latest ∧
      h.releases.get record.draftReleaseId = some release ∧ release.draft = true ∧
      t.releases.get record.draftReleaseId = some release ∧
      h' = t.withPublished record.draftReleaseId release latest := by
  obtain ⟨t, latest, ht, hview, hpublish⟩ := hpublished
  obtain ⟨release, hget, htag, -, hdraft, hprerelease, -⟩ := hready.release
  have hgett : t.releases.get record.draftReleaseId = some release := by rw [ht.frame.1, hget]
  have heq : t.publish record.draftReleaseId release.tagName release.prerelease latest =
      .ok (t.withPublished record.draftReleaseId release latest) :=
    Hub.publish_eq hgett (htag ▸ ht.isSome)
  rw [htag, hprerelease, hphase, hpublish] at heq
  exact ⟨t, release, latest, ht, hview, hget, hdraft, hgett, Except.ok.inj heq⟩

/-- **What is reached is safe.** -/
theorem Reached.safe {tooling : Tooling}
    (hready : checks h → DraftReady tooling record target h ∧ record.phase.isSome = prerelease)
    (hreached : Reached checks record target prerelease makeLatest h h') :
    SafePublication (checks h) record target h h' := by
  have hkept : ∀ t, Tagged record.tag target h t → ∀ tag object, h.refs.get tag = some object →
      t.refs.get tag = some object := by
    intro t ht tag object hget
    by_cases hne : tag = record.tag
    · subst hne
      rw [ht.get_of_some hget, hget]
    · rw [ht.frame.2.2.2.2.2.2.2.2.2 tag hne, hget]
  rcases hreached with rfl | ⟨hchecks, htagged | hpublished⟩
  · exact ⟨Or.inl rfl, fun _ _ => id, fun _ _ => rfl, fun _ _ hget _ => hget, fun _ _ => rfl⟩
  · have hreleases := htagged.frame.1
    refine ⟨Or.inr ⟨hchecks, h', htagged, Or.inl rfl⟩, hkept h' htagged,
      htagged.frame.2.2.2.2.2.2.2.2.2, ?_, ?_⟩
    · intro id release hget _
      rw [hreleases, hget]
    · intro id _
      rw [hreleases]
  · obtain ⟨hdraftReady, hphase⟩ := hready hchecks
    obtain ⟨t, release, latest, ht, -, hget, hdraft, hgett, rfl⟩ :=
      hpublished.eq_withPublished hdraftReady hphase
    have hreleases := ht.frame.1
    refine ⟨Or.inr ⟨hchecks, t, ht, Or.inr ⟨release, latest, hgett, hdraft, rfl⟩⟩, hkept t ht,
      ht.frame.2.2.2.2.2.2.2.2.2, ?_, ?_⟩
    · intro id other hother hpublic
      have hne : id ≠ record.draftReleaseId := by
        rintro rfl
        rw [hget] at hother
        cases hother
        rw [hdraft] at hpublic
        cases hpublic
      refine (Dict.get_set _ _ _ _).trans ?_
      rw [if_neg hne, hreleases, hother]
    · intro id hne
      refine (Dict.get_set _ _ _ _).trans ?_
      rw [if_neg hne, hreleases]

end Safe

end GelCli.Release
