import GelCli.Release.PublishChecks

/-!
# Publishing again

A run of the publication workflow reads everything anew, so a run that has failed anywhere
can be made again: after any number of runs, whatever became of their calls, a run that is
answered comes to the same result and leaves the same repository as if it were the first.
-/

namespace GelCli.Release

open GelCli.Foundation

/-! ## Runs -/

section Runs

variable {record : CandidateRecord} {target : Text} {prerelease : Bool}
  {prepare : Publishing (Option (Publishing Bool))} {latest : Publishing Bool} {h t p : Hub}

/-- A run: the checks say whether there is something to publish, and how it is found out
whether it is the latest release. -/
def publicationRun (record : CandidateRecord) (target : Text) (prerelease : Bool)
    (prepare : Publishing (Option (Publishing Bool))) : Publishing Unit := do
  match ← prepare with
  | some latest => finishPublication record target prerelease latest
  | none => return ⟨⟩

/-- What a repository that passes the checks of a run is afterwards: the checks do not mind
the tag, and they find nothing to do once the release is published. -/
structure Repeatable (record : CandidateRecord) (target : Text) (prerelease : Bool)
    (prepare : Publishing (Option (Publishing Bool))) : Prop where
  reads : Remote.Reads prepare
  latest : ∀ h latest, Remote.view prepare h = .ok (some latest) → Remote.Reads latest
  tagged : ∀ h t latest, Remote.view prepare h = .ok (some latest) → Tagged record.tag target h t →
    Remote.view prepare t = .ok (some latest) ∧ Remote.view latest t = Remote.view latest h
  published : ∀ h p latest, Remote.view prepare h = .ok (some latest) →
    Published record target prerelease latest h p → Remote.view prepare p = .ok none

/-- What the runs leave of a repository. -/
def Midway (record : CandidateRecord) (target : Text) (prerelease : Bool)
    (prepare : Publishing (Option (Publishing Bool))) (h s : Hub) : Prop :=
  s = h ∨ ∃ latest, Remote.view prepare h = .ok (some latest) ∧
    (Tagged record.tag target h s ∨ Published record target prerelease latest h s)

theorem midway_leaves (hrepeatable : Repeatable record target prerelease prepare) (w : Remote Hub) :
    Midway record target prerelease prepare w.state
      (Remote.leaves (publicationRun record target prerelease prepare) w) := by
  refine Remote.leaves_of_triple (P := fun h => h = w.state)
    (Q := Midway record target prerelease prepare w.state) ?_ rfl
  apply Triple.bind ((hrepeatable.reads.triple w.state).conseqError fun _ _ => Or.inl)
  intro found
  apply Triple.assume fun v hv => hv.1
  intro hview
  cases found with
  | none => exact Triple.pure fun v hv => Or.inl hv.2
  | some latest =>
      apply Triple.conseqError
      · apply Triple.conseq (finishPublication_triple (h := w.state)
          (hrepeatable.latest w.state latest hview)) fun v hv => hv.2
        intro u v hpublished
        exact Or.inr ⟨latest, hview, Or.inr hpublished⟩
      · rintro e v (hv | htagged | hpublished)
        · exact Or.inl hv
        · exact Or.inr ⟨latest, hview, Or.inl htagged⟩
        · exact Or.inr ⟨latest, hview, Or.inr hpublished⟩

/-- What is published from a repository that has the tag is published from the one before. -/
theorem Published.of_tagged (ht : Tagged record.tag target h t)
    (hpublished : Published record target prerelease latest t p) :
    Published record target prerelease latest h p := by
  obtain ⟨u, chosen, hu, hview, hpublish⟩ := hpublished
  obtain rfl := hu.unique ht.again
  exact ⟨u, chosen, ht, hview, hpublish⟩

/-- Runs do not leave what runs leave. -/
theorem Midway.step (hrepeatable : Repeatable record target prerelease prepare)
    {w : Remote Hub} (hmid : Midway record target prerelease prepare h w.state) :
    Midway record target prerelease prepare h
      (Remote.leaves (publicationRun record target prerelease prepare) w) := by
  have hleaves := midway_leaves hrepeatable w
  rcases hmid with hsame | ⟨latest, hview, htagged | hpublished⟩
  · rwa [hsame] at hleaves
  · -- the tag is there: the checks pass again, and the tag stays
    obtain ⟨hagain, -⟩ := hrepeatable.tagged _ _ _ hview htagged
    refine Or.inr ⟨latest, hview, ?_⟩
    rcases hleaves with hsame | ⟨latest', hview', htagged' | hpublished'⟩
    · rw [hsame]
      exact Or.inl htagged
    · rw [htagged'.unique htagged.again]
      exact Or.inl htagged
    · cases hagain.symm.trans hview'
      exact Or.inr (hpublished'.of_tagged htagged)
  · -- the release is published: nothing is left to do
    have hdone := hrepeatable.published _ _ _ hview hpublished
    rcases hleaves with hsame | ⟨latest', hview', -⟩
    · rw [hsame]
      exact Or.inr ⟨latest, hview, Or.inr hpublished⟩
    · cases hdone.symm.trans hview'

/-! ## Answered runs -/

theorem run_none (hprepare : Remote.Reads prepare) (hview : Remote.view prepare h = .ok none) :
    publicationRun record target prerelease prepare ⟨h, []⟩ = .ok ⟨⟩ ⟨h, []⟩ := by
  show EStateM.bind prepare _ ⟨h, []⟩ = _
  unfold EStateM.bind
  rw [hprepare.apply_answered, hview]
  rfl

theorem run_some (hprepare : Remote.Reads prepare)
    (hview : Remote.view prepare h = .ok (some latest)) :
    publicationRun record target prerelease prepare ⟨h, []⟩ =
      finishPublication record target prerelease latest ⟨h, []⟩ := by
  show EStateM.bind prepare _ ⟨h, []⟩ = _
  unfold EStateM.bind
  rw [hprepare.apply_answered, hview]

theorem ensureTag_answered {tag : Text} (ht : Tagged tag target h t) :
    ensureTag tag target ⟨h, []⟩ = .ok ⟨⟩ ⟨t, []⟩ := by
  show EStateM.bind (tagTarget tag) _ ⟨h, []⟩ = _
  unfold EStateM.bind
  rw [(reads_tagTarget tag).apply_answered]
  cases ht with
  | found hview hlower =>
      rw [view_tagTarget_eq_ok.mpr hview]
      show (MonadExcept.ofExcept _ : Publishing Unit) ⟨h, []⟩ = _
      rw [require_pos hlower]
      rfl
  | made hmade =>
      rw [view_tagTarget_of_none (Hub.createRef_eq_ok.mp hmade).1]
      show Remote.mutate _ _ (⟨h, []⟩ : Remote Hub) = _
      unfold Remote.mutate
      simp only [hmade]
      rfl

/-- With the tag there, an answered run goes on from it. -/
theorem finishPublication_answered (ht : Tagged record.tag target h t) :
    finishPublication record target prerelease latest ⟨h, []⟩ =
      (latest >>= fun chosen => publishRelease record.draftReleaseId record.tag prerelease chosen)
        ⟨t, []⟩ := by
  show EStateM.bind (ensureTag record.tag target) _ ⟨h, []⟩ = _
  unfold EStateM.bind
  rw [ensureTag_answered ht]

theorem finishPublication_published (hlatest : Remote.Reads latest)
    (hpublished : Published record target prerelease latest h p) :
    finishPublication record target prerelease latest ⟨h, []⟩ = .ok ⟨⟩ ⟨p, []⟩ := by
  obtain ⟨t, chosen, ht, hview, hpublish⟩ := hpublished
  rw [finishPublication_answered ht]
  show EStateM.bind latest _ ⟨t, []⟩ = _
  unfold EStateM.bind
  rw [hlatest.apply_answered, hview]
  show Remote.mutate _ _ (⟨t, []⟩ : Remote Hub) = _
  unfold Remote.mutate
  simp only [hpublish]
  rfl

/-- **A run can be made again.** -/
theorem run_attempts (hrepeatable : Repeatable record target prerelease prepare) (h : Hub)
    (runs : List (List Delivery)) :
    publicationRun record target prerelease prepare
        ⟨Remote.attempts (publicationRun record target prerelease prepare) h runs, []⟩ =
      publicationRun record target prerelease prepare ⟨h, []⟩ := by
  have hmid : Midway record target prerelease prepare h
      (Remote.attempts (publicationRun record target prerelease prepare) h runs) :=
    Remote.attempts_kept (P := Midway record target prerelease prepare h)
      (fun w hw => Midway.step hrepeatable hw) (Or.inl rfl) runs
  rcases hmid with hsame | ⟨latest, hview, htagged | hpublished⟩
  · rw [hsame]
  · obtain ⟨hagain, -⟩ := hrepeatable.tagged _ _ _ hview htagged
    rw [run_some hrepeatable.reads hagain, run_some hrepeatable.reads hview,
      finishPublication_answered htagged, finishPublication_answered htagged.again]
  · rw [run_none hrepeatable.reads (hrepeatable.published _ _ _ hview hpublished),
      run_some hrepeatable.reads hview]
    exact (finishPublication_published (hrepeatable.latest _ _ hview) hpublished).symm

end Runs

/-! ## What a tag does not change -/

section AfterTag

variable {tooling : Tooling} {checkout : Checkout} {record : CandidateRecord} {target push : Text}
  {h t p : Hub}

theorem Tagged.asset? {tag : Text} (ht : Tagged tag target h t) : t.asset? = h.asset? := by
  unfold Hub.asset? Hub.assets
  rw [ht.frame.1]

theorem view_getRelease_congr (hreleases : t.releases = h.releases) (id : ℤ) :
    Remote.view (getRelease id) t = Remote.view (getRelease id) h := by
  simp only [getRelease, Remote.view_read, hreleases]

theorem view_downloadAsset_congr (hassets : t.asset? = h.asset?) (id : ℤ) :
    Remote.view (downloadAsset id) t = Remote.view (downloadAsset id) h := by
  simp only [downloadAsset, Remote.view_read, hassets]

theorem view_downloads_congr (hassets : t.asset? = h.asset?) (entries : List CandidateAsset) :
    Remote.view (entries.mapM downloadRecorded) t =
      Remote.view (entries.mapM downloadRecorded) h := by
  rw [Remote.view_mapM fun entry _ => reads_downloadRecorded entry,
    Remote.view_mapM fun entry _ => reads_downloadRecorded entry]
  congr 1
  funext entry
  exact Remote.view_bind_congr (reads_downloadAsset _) (view_downloadAsset_congr hassets _)
    fun _ => rfl

theorem view_verifyRecordAsset_congr (hassets : t.asset? = h.asset?) (listed : List HubAsset) :
    Remote.view (verifyRecordAsset tooling record listed) t =
      Remote.view (verifyRecordAsset tooling record listed) h := by
  refine Remote.view_bind_congr (Remote.Reads.ofExcept _) (by simp) fun asset => ?_
  refine Remote.view_bind_congr (Remote.Reads.ofExcept _) (by simp) fun _ => ?_
  refine Remote.view_bind_congr (reads_downloadAsset _) (view_downloadAsset_congr hassets _)
    fun actual => ?_
  refine Remote.view_bind_congr (Remote.Reads.ofExcept _) (by simp) fun _ => ?_
  exact Remote.view_bind_congr (Remote.Reads.ofExcept _) (by simp) fun _ => rfl

/-- A tag that is at its target does not stand in the way. -/
theorem view_checkReleaseIdentity_of_tagged {release : Json} {found : Option Text}
    (ht : Tagged record.tag target h t)
    (hview : Remote.view (checkReleaseIdentity release record target) h = .ok found) :
    ∃ sha, Remote.view (checkReleaseIdentity release record target) t = .ok (some sha) := by
  obtain ⟨⟨⟩, hdraft, -⟩ := Remote.view_ofExcept_bind_eq_ok.mp hview
  obtain ⟨sha, hsha, hlower⟩ := ht.resolved
  refine ⟨sha, Remote.view_ofExcept_bind_eq_ok.mpr ⟨⟨⟩, hdraft, ?_⟩⟩
  refine (Remote.view_bind_eq_ok (reads_resolveTagCommit _)).mpr ⟨some sha, hsha, ?_⟩
  refine Remote.view_ofExcept_bind_eq_ok.mpr ⟨⟨⟩, require_pos ?_, rfl⟩
  rintro _ ⟨⟩
  exact hlower

/-- A draft that is verified is verified again once its tag is there. -/
theorem view_verifyDraft_of_tagged {expected : CandidateIdentity} {expectedTarget : Option Text}
    (ht : Tagged record.tag (expectedTarget.getD record.buildSha) h t)
    (hview : Remote.view (verifyDraftBeforePublication tooling record expected expectedTarget) h =
      .ok ⟨⟩) :
    Remote.view (verifyDraftBeforePublication tooling record expected expectedTarget) t =
      .ok ⟨⟩ := by
  rw [verifyDraftBeforePublication, Remote.view_tryThrow, mapError_eq_ok] at hview ⊢
  obtain ⟨⟨⟩, hcandidate, hview⟩ := Remote.view_ofExcept_bind_eq_ok.mp hview
  obtain ⟨payload, hpayload, hview⟩ := (Remote.view_bind_eq_ok (reads_getRelease _)).mp hview
  obtain ⟨found, hidentity, hview⟩ :=
    (Remote.view_bind_eq_ok (reads_checkReleaseIdentity _ _ _)).mp hview
  obtain ⟨sha, hsha⟩ := view_checkReleaseIdentity_of_tagged ht hidentity
  refine Remote.view_ofExcept_bind_eq_ok.mpr ⟨⟨⟩, hcandidate, ?_⟩
  rw [← view_getRelease_congr ht.frame.1] at hpayload
  refine (Remote.view_bind_eq_ok (reads_getRelease _)).mpr ⟨payload, hpayload, ?_⟩
  refine (Remote.view_bind_eq_ok (reads_checkReleaseIdentity _ _ _)).mpr ⟨some sha, hsha, ?_⟩
  refine (Remote.view_bind_congr (reads_listReleaseAssets _) ?_ fun listed => ?_).trans hview
  · simp only [listReleaseAssets, Remote.view_read, ht.frame.1]
  · refine Remote.view_bind_congr (Remote.Reads.ofExcept _) (by simp) fun _ => ?_
    refine Remote.view_bind_congr (Remote.Reads.ofExcept _) (by simp) fun _ => ?_
    refine Remote.view_bind_congr (Remote.Reads.ofExcept _) (by simp) fun _ => ?_
    refine Remote.view_bind_congr (Remote.Reads.mapM fun entry _ => reads_downloadRecorded entry)
      (view_downloads_congr ht.asset? _) fun files => ?_
    refine Remote.view_bind_congr (Remote.Reads.ofExcept _) (by simp) fun _ => ?_
    refine Remote.view_bind_congr (Remote.Reads.read _ _) (by simp) fun _ => ?_
    split
    · exact view_verifyRecordAsset_congr ht.asset? listed
    · rfl

/-- What is asked of a pull request does not depend on tags and releases. -/
theorem view_fetchLivePreviewPr_congr (hpull : t.pull = h.pull) (htimeline : t.timeline = h.timeline)
    (hpermission : t.permission = h.permission) (number : ℤ) :
    Remote.view (fetchLivePreviewPr checkout number) t =
      Remote.view (fetchLivePreviewPr checkout number) h := by
  have hlogin : ∀ login, Remote.view (permissionOfLogin login) t =
      Remote.view (permissionOfLogin login) h := by
    intro login
    refine Remote.view_bind_congr (Remote.Reads.read _ _) ?_ fun _ => rfl
    simp only [Remote.view_read, hpermission]
  refine Remote.view_bind_congr (Remote.Reads.read _ _) ?_ fun raw => ?_
  · simp only [Remote.view_read, hpull]
  refine Remote.view_bind_congr (Remote.Reads.ofExcept _) (by simp) fun _ => ?_
  refine Remote.view_bind_congr (Remote.Reads.ofExcept _) (by simp) fun sourceSha => ?_
  refine Remote.view_bind_congr (Remote.Reads.ofExcept _) (by simp) fun _ => ?_
  refine Remote.view_bind_congr (Remote.Reads.ofExcept _) (by simp) fun version => ?_
  refine Remote.view_bind_congr (Remote.Reads.ofExcept _) (by simp) fun digest => ?_
  refine Remote.view_bind_congr (Remote.Reads.read _ _) ?_ fun timeline => ?_
  · simp only [Remote.view_read, htimeline]
  have hreads : ∀ login, Remote.Reads (permissionOfLogin login) := fun login =>
    Remote.Reads.bind (Remote.Reads.read _ _) fun _ => Remote.Reads.pure _
  refine Remote.view_bind_congr (Remote.Reads.mapM fun login _ => hreads login) ?_ fun _ => rfl
  rw [Remote.view_mapM fun login _ => hreads login, Remote.view_mapM fun login _ => hreads login]
  exact congrArg (List.mapM · _) (funext hlogin)

end AfterTag

/-! ## What is read back of a published release -/

section AfterPublication

variable {tooling : Tooling} {checkout : Checkout} {record : CandidateRecord}
  {expected : CandidateIdentity} {target push : Text} {h t p : Hub}

/-- The payload of a release once it is published. -/
theorem assertReleaseShape_congr {codec : JsonCodec} {release release' : Json}
    {draft draft' : Bool} (hobj : release'.isObj) (hdraft : release'.get "draft" = .bool draft')
    (hsame : ∀ key ∈ ["id", "tag_name", "name", "prerelease", "body", "assets"],
      release'.get key = release.get key)
    (hok : assertReleaseShape codec release expected record true = .ok draft) :
    assertReleaseShape codec release' expected record true = .ok draft' := by
  simp only [List.forall_mem_cons, List.not_mem_nil, false_imp_iff, implies_true, and_true]
    at hsame
  obtain ⟨hid', htag', hname', hprerelease', hbody', hassets'⟩ := hsame
  have hidentity' : releaseIdentity codec release' = releaseIdentity codec release :=
    releaseIdentity_congr htag' hbody'
  obtain ⟨hid, htag, hname, -, hprerelease, hidentity, hassets⟩ := assertReleaseShape_eq_ok hok
  refine require_bind_eq_ok.mpr ⟨hobj, ?_⟩
  refine expect_bind_eq_ok.mpr ⟨_, Json.int?_eq_some.mpr (hid'.trans hid), ?_⟩
  refine require_bind_eq_ok.mpr ⟨rfl, require_bind_eq_ok.mpr ⟨⟨?_, ?_⟩, ?_⟩⟩
  · exact Json.str?_eq_some.mpr (htag'.trans htag)
  · exact Json.str?_eq_some.mpr (hname'.trans hname)
  refine expect_bind_eq_ok.mpr ⟨_, Json.bool?_eq_some.mpr hdraft, ?_⟩
  refine require_bind_eq_ok.mpr ⟨Or.inr rfl, require_bind_eq_ok.mpr ⟨?_, ?_⟩⟩
  · exact Json.bool?_eq_some.mpr (hprerelease'.trans hprerelease)
  refine bind_eq_ok.mpr ⟨expected, ?_, require_bind_eq_ok.mpr ⟨rfl, ?_⟩⟩
  · rw [hidentity', hidentity]
    rfl
  rw [hassets']
  rcases hassets with hnull | hlisted
  · rw [hnull]
    rfl
  · split
    · rfl
    · exact bind_eq_ok.mpr ⟨⟨⟩, hlisted, rfl⟩

theorem listedId_json {assets : List HubAsset} (hpos : ∀ asset ∈ assets, 0 < asset.id)
    (name : Text) : listedId (assets.map HubAsset.json) name =
      (assets.reverse.find? fun asset => asset.name = name).map HubAsset.id := by
  unfold listedId
  rw [← List.map_reverse, List.find?_map]
  have hname : ((fun item : Json => item.isObj && (item.get "name").str? = some name) ∘
      HubAsset.json) = fun asset => decide (asset.name = name) := by
    funext asset
    show (true && decide ((Json.str asset.name).str? = some name)) = decide (asset.name = name)
    simp [Json.str?]
  rw [hname]
  cases hfind : assets.reverse.find? fun asset => asset.name = name with
  | none => rfl
  | some asset =>
      have hmem : asset ∈ assets := List.mem_reverse.mp (List.mem_of_find?_eq_some hfind)
      show positive? (asset.json.get "id") = some asset.id
      rw [positive?, show asset.json.get "id" = .num asset.id from rfl]
      exact Option.filter_eq_some_iff.mpr ⟨rfl, decide_eq_true (hpos asset hmem)⟩

/-- **The bytes of a draft that was ready are read back once it is published.** -/
theorem view_verifyPublishedAssetBytes_of_ready {payload : Json} {release : HubRelease}
    (hready : DraftReady tooling record target h)
    (hget : h.releases.get record.draftReleaseId = some release) (hassets : p.asset? = h.asset?)
    (hpayload : payload.get "assets" = .arr (release.assets.map HubAsset.json)) :
    Remote.view (verifyPublishedAssetBytes tooling record payload) p = .ok ⟨⟩ := by
  obtain ⟨release', hget', -, -, -, -, -, hpos, hremote, hrecord⟩ := hready.release
  cases hget.symm.trans hget'
  have hone : ∀ entry ∈ record.assets, Remote.view
      (verifyPublishedAsset tooling (release.assets.map HubAsset.json) entry) p = .ok ⟨⟩ := by
    intro entry hentry
    obtain ⟨remote, hfind, hok⟩ := expect_bind_eq_ok.mp (hremote entry hentry)
    obtain ⟨hid, -⟩ := require_bind_eq_ok.mp hok
    obtain ⟨asset, hasset, hlength, hsha, hblake⟩ := hready.digests entry hentry
    refine Remote.view_ofExcept_bind_eq_ok.mpr ⟨entry.id, ?_, ?_⟩
    · rw [listedId_json hpos, hfind]
      exact expect_eq_ok.mpr (congrArg some hid)
    refine Remote.view_read_bind_eq_ok.mpr ⟨asset.bytes, ?_, ?_⟩
    · rw [hassets, hasset]
      rfl
    rw [Remote.view_ofExcept]
    exact require_bind_eq_ok.mpr ⟨hlength, require_bind_eq_ok.mpr ⟨hsha, require_pos hblake⟩⟩
  have hall : Remote.view
      (record.assets.forM (verifyPublishedAsset tooling (release.assets.map HubAsset.json))) p =
        .ok ⟨⟩ := by
    rw [Remote.view_forM fun entry _ => reads_verifyPublishedAsset _ entry]
    exact forM_eq_ok.mpr hone
  unfold verifyPublishedAssetBytes
  rw [hpayload]
  split
  · rfl
  · rfl
  · next listed _ hlisted =>
    cases hlisted
    refine (Remote.view_bind_eq_ok
      (Remote.Reads.forM fun entry _ => reads_verifyPublishedAsset _ entry)).mpr ⟨⟨⟩, hall, ?_⟩
    split
    · next hphase =>
      obtain ⟨asset, hfind, hbytes, loaded, hloaded⟩ := hrecord hphase
      refine Remote.view_ofExcept_bind_eq_ok.mpr ⟨asset.id, ?_, ?_⟩
      · rw [listedId_json hpos, hfind]
        rfl
      refine Remote.view_read_bind_eq_ok.mpr ⟨tooling.format.dump record, ?_, ?_⟩
      · rw [hassets, hbytes]
        rfl
      refine Remote.view_ofExcept_bind_eq_ok.mpr ⟨⟨⟩, require_pos rfl, ?_⟩
      exact Remote.view_ofExcept_bind_eq_ok.mpr ⟨loaded, hloaded, rfl⟩
    · rfl

theorem view_resolveTagCommit_withPublished {tag : Text} {id : ℤ} {release : HubRelease}
    {latest : Bool} :
    Remote.view (resolveTagCommit tag) (t.withPublished id release latest) =
      Remote.view (resolveTagCommit tag) t :=
  view_resolveTagCommit_congr rfl rfl

/-- A release that is published keeps its assets. -/
theorem Hub.assets_withPublished {id : ℤ} {release : HubRelease} {latest : Bool}
    (hget : t.releases.get id = some release) :
    (t.withPublished id release latest).assets = t.assets :=
  Dict.flatMap_items_set hget rfl

theorem Hub.asset?_withPublished {id : ℤ} {release : HubRelease} {latest : Bool}
    (hget : t.releases.get id = some release) :
    (t.withPublished id release latest).asset? = t.asset? := by
  unfold Hub.asset?
  rw [Hub.assets_withPublished hget]

end AfterPublication

/-! ## A stable run -/

section Stable

variable {checkout : Checkout} {record : CandidateRecord} {push : Text} {h t p : Hub}

/-- How a stable run finds out whether its release is the latest. -/
def stableLatest (record : CandidateRecord) (payload : Json) : Publishing Bool := do
  let versions ← publishedStableVersions payload
  MonadExcept.ofExcept (shouldMakeLatest record.version versions)

/-- A stable run up to its first change. -/
def stablePrepared (checkout : Checkout) (record : CandidateRecord) (push : Text) :
    Publishing (Option (Publishing Bool)) := do
  let release ← getRelease record.draftReleaseId
  let mergedPr ← Remote.read "gh api pulls failed" fun h =>
    expect (h.pull record.prNumber) "gh api pulls failed: HTTP 404"
  let payload := setField "merged_pr" mergedPr release
  let publish ← prepareStable checkout record push payload
  return if publish then some (stableLatest record payload) else none

theorem stableRun_eq : stableRun checkout record push =
    publicationRun record push false (stablePrepared checkout record push) := by
  unfold stableRun publicationRun stablePrepared
  simp only [bind_assoc, pure_bind]
  refine congrArg _ (funext fun release => congrArg _ (funext fun mergedPr => ?_))
  refine congrArg (prepareStable checkout record push _ >>= ·) (funext fun publish => ?_)
  cases publish <;> rfl

theorem reads_stablePrepared : Remote.Reads (stablePrepared checkout record push) := by
  apply Remote.Reads.bind (reads_getRelease _)
  intro release
  apply Remote.Reads.bind (Remote.Reads.read _ _)
  intro mergedPr
  exact Remote.Reads.bind (reads_prepareStable _) fun publish => Remote.Reads.pure _

/-- The payload of a stable run, which carries the pull request. -/
theorem view_mergedPrFromRelease_setField (mergedPr : Json) (release release' : HubRelease)
    (id : ℤ) :
    Remote.view (mergedPrFromRelease record (setField "merged_pr" mergedPr (release'.json id))) t =
      Remote.view (mergedPrFromRelease record (setField "merged_pr" mergedPr (release.json id)))
        h := by
  have hfind : ∀ release : HubRelease, ["merged_pr", "pull_request", "merge_pr", "pr"].findSome?
      (setField "merged_pr" mergedPr (release.json id)).find? = some mergedPr := fun _ => rfl
  unfold mergedPrFromRelease
  rw [hfind, hfind]
  cases mergedPr <;> rfl

/-- Without an inventory in its payload, a run lists the releases. -/
theorem view_stableLatest_setField (mergedPr : Json) (release : HubRelease) (id : ℤ) :
    Remote.view (stableLatest record (setField "merged_pr" mergedPr (release.json id))) h =
      (do
        let versions ← stableVersionsFromPayload h.listing
        shouldMakeLatest record.version versions) := by
  have hlist : publishedStableVersions (setField "merged_pr" mergedPr (release.json id)) = (do
      let value ← Remote.read "could not list published releases for latest selection"
        fun h => .ok h.listing
      MonadExcept.ofExcept (stableVersionsFromPayload value)) := rfl
  rw [stableLatest, Remote.view_bind (reads_publishedStableVersions _), hlist,
    Remote.view_bind (Remote.Reads.read _ _), Remote.view_read]
  show (Remote.view (MonadExcept.ofExcept (stableVersionsFromPayload h.listing)) h >>= _) = _
  simp

/-- What a second look needs: the same answers, and the tag at the push. -/
theorem prepareStable_again {release release' : Json} {draft publish : Bool}
    (hview : Remote.view (prepareStable checkout record push release) h = .ok true)
    (hobj : release'.isObj)
    (hmerged : Remote.view (mergedPrFromRelease record release') t =
      Remote.view (mergedPrFromRelease record release) h)
    (hshape : assertReleaseShape checkout.codec release' record.identity record true = .ok draft)
    (htag : ∃ sha, Remote.view (resolveTagCommit record.tag) t = .ok (some sha) ∧
      lower sha = lower push)
    (hrest : Remote.view (if draft then do
        verifyDraftBeforePublication checkout.toTooling record record.identity (some push)
        return true
      else do
        verifyPublishedAssetBytes checkout.toTooling record release'
        return false) t = .ok publish) :
    Remote.view (prepareStable checkout record push release') t = .ok publish := by
  obtain ⟨⟨⟩, hphase, hview⟩ := Remote.view_ofExcept_bind_eq_ok.mp hview
  obtain ⟨⟨⟩, hpush, hview⟩ := Remote.view_ofExcept_bind_eq_ok.mp hview
  obtain ⟨⟨⟩, -, hview⟩ := Remote.view_ofExcept_bind_eq_ok.mp hview
  obtain ⟨mergedPr, hfound, hview⟩ := (Remote.view_bind_eq_ok (reads_mergedPrFromRelease _)).mp hview
  obtain ⟨merged, hmatching, hview⟩ := Remote.view_ofExcept_bind_eq_ok.mp hview
  obtain ⟨sha, hsha, hlower⟩ := htag
  refine Remote.view_ofExcept_bind_eq_ok.mpr ⟨⟨⟩, hphase, ?_⟩
  refine Remote.view_ofExcept_bind_eq_ok.mpr ⟨⟨⟩, hpush, ?_⟩
  refine Remote.view_ofExcept_bind_eq_ok.mpr ⟨⟨⟩, require_pos hobj, ?_⟩
  refine (Remote.view_bind_eq_ok (reads_mergedPrFromRelease _)).mpr
    ⟨mergedPr, hmerged.trans hfound, ?_⟩
  refine Remote.view_ofExcept_bind_eq_ok.mpr ⟨merged, hmatching, ?_⟩
  cases merged with
  | false => cases hview
  | true =>
      obtain ⟨⟨⟩, hbase, hview⟩ := Remote.view_ofExcept_bind_eq_ok.mp hview
      obtain ⟨⟨⟩, hintroduced, hview⟩ := Remote.view_ofExcept_bind_eq_ok.mp hview
      obtain ⟨⟨⟩, hsource, -⟩ := Remote.view_ofExcept_bind_eq_ok.mp hview
      refine Remote.view_ofExcept_bind_eq_ok.mpr ⟨⟨⟩, hbase, ?_⟩
      refine Remote.view_ofExcept_bind_eq_ok.mpr ⟨⟨⟩, hintroduced, ?_⟩
      refine Remote.view_ofExcept_bind_eq_ok.mpr ⟨⟨⟩, hsource, ?_⟩
      refine Remote.view_ofExcept_bind_eq_ok.mpr ⟨draft, hshape, ?_⟩
      refine (Remote.view_bind_eq_ok (reads_tagTarget _)).mpr
        ⟨some sha, view_tagTarget_eq_ok.mpr hsha, ?_⟩
      refine Remote.view_ofExcept_bind_eq_ok.mpr ⟨⟨⟩, require_pos ?_, hrest⟩
      rintro _ ⟨⟩
      exact hlower

/-- What a first look has seen. -/
theorem prepareStable_seen {release : Json}
    (hview : Remote.view (prepareStable checkout record push release) h = .ok true) :
    assertReleaseShape checkout.codec release record.identity record true = .ok true ∧
      Remote.view (verifyDraftBeforePublication checkout.toTooling record record.identity
        (some push)) h = .ok ⟨⟩ := by
  obtain ⟨⟨⟩, -, hview⟩ := Remote.view_ofExcept_bind_eq_ok.mp hview
  obtain ⟨⟨⟩, -, hview⟩ := Remote.view_ofExcept_bind_eq_ok.mp hview
  obtain ⟨⟨⟩, -, hview⟩ := Remote.view_ofExcept_bind_eq_ok.mp hview
  obtain ⟨mergedPr, -, hview⟩ := (Remote.view_bind_eq_ok (reads_mergedPrFromRelease _)).mp hview
  obtain ⟨merged, -, hview⟩ := Remote.view_ofExcept_bind_eq_ok.mp hview
  cases merged with
  | false => cases hview
  | true =>
      obtain ⟨⟨⟩, -, hview⟩ := Remote.view_ofExcept_bind_eq_ok.mp hview
      obtain ⟨⟨⟩, -, hview⟩ := Remote.view_ofExcept_bind_eq_ok.mp hview
      obtain ⟨⟨⟩, -, hview⟩ := Remote.view_ofExcept_bind_eq_ok.mp hview
      obtain ⟨draft, hshape, hview⟩ := Remote.view_ofExcept_bind_eq_ok.mp hview
      obtain ⟨target, -, hview⟩ := (Remote.view_bind_eq_ok (reads_tagTarget _)).mp hview
      obtain ⟨⟨⟩, -, hview⟩ := Remote.view_ofExcept_bind_eq_ok.mp hview
      cases draft with
      | false =>
          obtain ⟨⟨⟩, -, hview⟩ :=
            (Remote.view_bind_eq_ok (reads_verifyPublishedAssetBytes _ _)).mp hview
          cases hview
      | true =>
          obtain ⟨⟨⟩, hverify, -⟩ := (Remote.view_bind_eq_ok (reads_verifyDraft _ _ _)).mp hview
          exact ⟨hshape, hverify⟩

theorem view_stablePrepared_eq_ok {found : Option (Publishing Bool)} :
    Remote.view (stablePrepared checkout record push) h = .ok found ↔
      ∃ release mergedPr publish, h.releases.get record.draftReleaseId = some release ∧
        h.pull record.prNumber = some mergedPr ∧
        Remote.view (prepareStable checkout record push
          (setField "merged_pr" mergedPr (release.json record.draftReleaseId))) h = .ok publish ∧
        found = if publish then some (stableLatest record
          (setField "merged_pr" mergedPr (release.json record.draftReleaseId))) else none := by
  constructor
  · intro hview
    obtain ⟨payload, hpayload, hview⟩ := (Remote.view_bind_eq_ok (reads_getRelease _)).mp hview
    obtain ⟨mergedPr, hmerged, hview⟩ := Remote.view_read_bind_eq_ok.mp hview
    obtain ⟨publish, hpublish, hview⟩ := (Remote.view_bind_eq_ok (reads_prepareStable _)).mp hview
    obtain ⟨release, hget, rfl⟩ := getRelease_eq_ok hpayload
    cases hview
    exact ⟨release, mergedPr, publish, hget, expect_eq_ok.mp hmerged, hpublish, rfl⟩
  · rintro ⟨release, mergedPr, publish, hget, hpull, hpublish, rfl⟩
    refine (Remote.view_bind_eq_ok (reads_getRelease _)).mpr
      ⟨release.json record.draftReleaseId, ?_, ?_⟩
    · rw [getRelease, Remote.view_read, hget]
      rfl
    refine Remote.view_read_bind_eq_ok.mpr ⟨mergedPr, expect_eq_ok.mpr hpull, ?_⟩
    exact (Remote.view_bind_eq_ok (reads_prepareStable _)).mpr ⟨publish, hpublish, rfl⟩

theorem repeatable_stable : Repeatable record push false (stablePrepared checkout record push) where
  reads := reads_stablePrepared
  latest := by
    intro h latest hview
    obtain ⟨release, mergedPr, publish, -, -, -, hlatest⟩ := view_stablePrepared_eq_ok.mp hview
    cases publish with
    | false => cases hlatest
    | true =>
        cases hlatest
        exact reads_latest _
  tagged := by
    intro h t latest hview ht
    obtain ⟨release, mergedPr, publish, hget, hpull, hprepare, hlatest⟩ :=
      view_stablePrepared_eq_ok.mp hview
    obtain ⟨hreleases, -, -, hpullt, -, -, hperPage, -⟩ := ht.frame
    cases publish with
    | false => cases hlatest
    | true =>
        cases hlatest
        obtain ⟨hshape, hverify⟩ := prepareStable_seen hprepare
        have hrest : Remote.view (do
            verifyDraftBeforePublication checkout.toTooling record record.identity (some push)
            return true) t = .ok true :=
          (Remote.view_bind_eq_ok (reads_verifyDraft _ _ _)).mpr
            ⟨⟨⟩, view_verifyDraft_of_tagged ht hverify, rfl⟩
        refine ⟨view_stablePrepared_eq_ok.mpr ⟨release, mergedPr, true, ?_, ?_, ?_, rfl⟩, ?_⟩
        · rw [hreleases, hget]
        · rw [hpullt, hpull]
        · exact prepareStable_again hprepare rfl (view_mergedPrFromRelease_setField _ _ _ _) hshape
            ht.resolved hrest
        · rw [view_stableLatest_setField, view_stableLatest_setField, Hub.listing, hreleases,
            hperPage]
          rfl
  published := by
    intro h p latest hview hpublished
    obtain ⟨release, mergedPr, publish, hget, hpull, hprepare, hlatest⟩ :=
      view_stablePrepared_eq_ok.mp hview
    cases publish with
    | false => cases hlatest
    | true =>
        obtain ⟨hshape, hverify⟩ := prepareStable_seen hprepare
        have hready := view_verifyDraft hverify
        have hphase := (stablePublishable_of_prepare hprepare).phase
        obtain ⟨t, release', chosen, ht, -, hget', -, hgett, rfl⟩ :=
          hpublished.eq_withPublished hready (by rw [hphase]; rfl)
        cases hget.symm.trans hget'
        have hassets : (t.withPublished record.draftReleaseId release chosen).asset? = h.asset? :=
          (Hub.asset?_withPublished hgett).trans ht.asset?
        -- the payload says that the release is no draft, and nothing else that is new
        have hshape' : assertReleaseShape checkout.codec (setField "merged_pr" mergedPr
            (({ release with draft := false } : HubRelease).json record.draftReleaseId))
            record.identity record true = .ok false := by
          refine assertReleaseShape_congr rfl rfl (fun key hkey => ?_) hshape
          simp only [List.mem_cons, List.not_mem_nil, or_false] at hkey
          rcases hkey with rfl | rfl | rfl | rfl | rfl | rfl <;> rfl
        have hrest : Remote.view (do
            verifyPublishedAssetBytes checkout.toTooling record (setField "merged_pr" mergedPr
              (({ release with draft := false } : HubRelease).json record.draftReleaseId))
            return false) (t.withPublished record.draftReleaseId release chosen) = .ok false :=
          (Remote.view_bind_eq_ok (reads_verifyPublishedAssetBytes _ _)).mpr
            ⟨⟨⟩, view_verifyPublishedAssetBytes_of_ready hready hget hassets rfl, rfl⟩
        have htag : ∃ sha, Remote.view (resolveTagCommit record.tag)
            (t.withPublished record.draftReleaseId release chosen) = .ok (some sha) ∧
            lower sha = lower push := by
          obtain ⟨sha, hsha, hlower⟩ := ht.resolved
          exact ⟨sha, view_resolveTagCommit_withPublished.trans hsha, hlower⟩
        refine view_stablePrepared_eq_ok.mpr
          ⟨{ release with draft := false }, mergedPr, false, ?_, ?_, ?_, rfl⟩
        · exact (Dict.get_set _ _ _ _).trans (if_pos rfl)
        · exact (congrFun ht.frame.2.2.2.1 _).trans hpull
        · exact prepareStable_again hprepare rfl (view_mergedPrFromRelease_setField _ _ _ _)
            hshape' htag hrest

/-- **A stable run can be made again**: after any number of runs of it that failed anywhere, or
did not, an answered run comes to what the first one would have, and leaves the repository the
same. -/
theorem stableRun_attempts (checkout : Checkout) (record : CandidateRecord) (push : Text) (h : Hub)
    (runs : List (List Delivery)) :
    stableRun checkout record push
        ⟨Remote.attempts (stableRun checkout record push) h runs, []⟩ =
      stableRun checkout record push ⟨h, []⟩ := by
  rw [stableRun_eq]
  exact run_attempts repeatable_stable h runs

end Stable

/-! ## A preview run -/

section Preview

variable {checkout : Checkout} {record : CandidateRecord} {livePr : Json} {h t p : Hub}

/-- A preview run up to its first change; a preview is never the latest release. -/
def previewPrepared (checkout : Checkout) (record : CandidateRecord) :
    Publishing (Option (Publishing Bool)) := do
  let livePr ← fetchLivePreviewPr checkout record.prNumber
  let release ← getRelease record.draftReleaseId
  let publish ← preparePreview checkout record.identity record livePr release
    (some (fetchLivePreviewPr checkout record.prNumber))
  return if publish then some (pure false) else none

theorem previewRun_eq : previewRun checkout record =
    publicationRun record record.buildSha true (previewPrepared checkout record) := by
  unfold previewRun publishPreview publicationRun previewPrepared
  simp only [bind_assoc, pure_bind]
  refine congrArg _ (funext fun livePr => congrArg _ (funext fun release => ?_))
  refine congrArg (preparePreview checkout _ record livePr release _ >>= ·)
    (funext fun publish => ?_)
  cases publish <;> rfl

theorem reads_previewPrepared : Remote.Reads (previewPrepared checkout record) := by
  apply Remote.Reads.bind (reads_fetchLivePreviewPr _)
  intro livePr
  apply Remote.Reads.bind (reads_getRelease _)
  intro release
  exact Remote.Reads.bind (reads_preparePreview (reads_fetchLivePreviewPr _) _ _)
    fun publish => Remote.Reads.pure _

/-- What a first look has seen. -/
theorem preparePreview_seen {release : Json}
    (hview : Remote.view (preparePreview checkout record.identity record livePr release
      (some (fetchLivePreviewPr checkout record.prNumber))) h = .ok true) :
    assertReleaseShape checkout.codec release record.identity record true = .ok true ∧
      Remote.view (verifyDraftBeforePublication checkout.toTooling record record.identity none) h =
        .ok ⟨⟩ := by
  obtain ⟨phase, -, hview⟩ := Remote.view_ofExcept_bind_eq_ok.mp hview
  obtain ⟨⟨⟩, -, hview⟩ := Remote.view_ofExcept_bind_eq_ok.mp hview
  obtain ⟨⟨⟩, -, hview⟩ := Remote.view_ofExcept_bind_eq_ok.mp hview
  obtain ⟨⟨⟩, -, hview⟩ := Remote.view_ofExcept_bind_eq_ok.mp hview
  obtain ⟨⟨⟩, -, hview⟩ := Remote.view_ofExcept_bind_eq_ok.mp hview
  obtain ⟨draft, hshape, hview⟩ := Remote.view_ofExcept_bind_eq_ok.mp hview
  obtain ⟨target, -, hview⟩ := (Remote.view_bind_eq_ok (reads_tagTarget _)).mp hview
  obtain ⟨⟨⟩, -, hview⟩ := Remote.view_ofExcept_bind_eq_ok.mp hview
  cases draft with
  | false =>
      obtain ⟨⟨⟩, -, hview⟩ :=
        (Remote.view_bind_eq_ok (reads_verifyPublishedAssetBytes _ _)).mp hview
      cases hview
  | true =>
      obtain ⟨⟨⟩, hverify, -⟩ := (Remote.view_bind_eq_ok (reads_verifyDraft _ _ _)).mp hview
      exact ⟨hshape, hverify⟩

/-- What a second look needs: the same answers, and the tag at the build. -/
theorem preparePreview_again {release release' : Json} {draft : Bool}
    (hview : Remote.view (preparePreview checkout record.identity record livePr release
      (some (fetchLivePreviewPr checkout record.prNumber))) h = .ok true)
    (hfetch : Remote.view (fetchLivePreviewPr checkout record.prNumber) t =
      Remote.view (fetchLivePreviewPr checkout record.prNumber) h)
    (hshape : assertReleaseShape checkout.codec release' record.identity record true = .ok draft)
    (htag : ∃ sha, Remote.view (resolveTagCommit record.tag) t = .ok (some sha) ∧
      lower sha = lower record.buildSha)
    (hrest : if draft then
        Remote.view (verifyDraftBeforePublication checkout.toTooling record record.identity none) t =
          .ok ⟨⟩
      else Remote.view (verifyPublishedAssetBytes checkout.toTooling record release') t = .ok ⟨⟩) :
    Remote.view (preparePreview checkout record.identity record livePr release'
      (some (fetchLivePreviewPr checkout record.prNumber))) t = .ok draft := by
  have hreads : Remote.Reads (fetchLivePreviewPr checkout record.prNumber) :=
    reads_fetchLivePreviewPr _
  have hsame : record.tag = record.identity.tag := record.tag_eq
  obtain ⟨phase, hphase, hview⟩ := Remote.view_ofExcept_bind_eq_ok.mp hview
  obtain ⟨⟨⟩, hderived, hview⟩ := Remote.view_ofExcept_bind_eq_ok.mp hview
  obtain ⟨⟨⟩, hidentity, hview⟩ := Remote.view_ofExcept_bind_eq_ok.mp hview
  obtain ⟨⟨⟩, hlive, hview⟩ := Remote.view_ofExcept_bind_eq_ok.mp hview
  obtain ⟨⟨⟩, hauthorized, hview⟩ := Remote.view_ofExcept_bind_eq_ok.mp hview
  obtain ⟨first, -, hview⟩ := Remote.view_ofExcept_bind_eq_ok.mp hview
  obtain ⟨target, -, hview⟩ := (Remote.view_bind_eq_ok (reads_tagTarget _)).mp hview
  obtain ⟨⟨⟩, -, hview⟩ := Remote.view_ofExcept_bind_eq_ok.mp hview
  obtain ⟨sha, hsha, hlower⟩ := htag
  refine Remote.view_ofExcept_bind_eq_ok.mpr ⟨phase, hphase, ?_⟩
  refine Remote.view_ofExcept_bind_eq_ok.mpr ⟨⟨⟩, hderived, ?_⟩
  refine Remote.view_ofExcept_bind_eq_ok.mpr ⟨⟨⟩, hidentity, ?_⟩
  refine Remote.view_ofExcept_bind_eq_ok.mpr ⟨⟨⟩, hlive, ?_⟩
  refine Remote.view_ofExcept_bind_eq_ok.mpr ⟨⟨⟩, hauthorized, ?_⟩
  refine Remote.view_ofExcept_bind_eq_ok.mpr ⟨draft, hshape, ?_⟩
  refine (Remote.view_bind_eq_ok (reads_tagTarget _)).mpr
    ⟨some sha, view_tagTarget_eq_ok.mpr (hsame ▸ hsha), ?_⟩
  refine Remote.view_ofExcept_bind_eq_ok.mpr ⟨⟨⟩, require_pos ?_, ?_⟩
  · rintro _ ⟨⟩
    exact hlower
  cases draft with
  | false =>
      exact (Remote.view_bind_eq_ok (reads_verifyPublishedAssetBytes _ _)).mpr ⟨⟨⟩, hrest, rfl⟩
  | true =>
      cases first with
      | false =>
          obtain ⟨⟨⟩, -, hview⟩ :=
            (Remote.view_bind_eq_ok (reads_verifyPublishedAssetBytes _ _)).mp hview
          cases hview
      | true =>
          obtain ⟨⟨⟩, -, hview⟩ := (Remote.view_bind_eq_ok (reads_verifyDraft _ _ _)).mp hview
          obtain ⟨⟨⟩, hfresh, -⟩ := (Remote.view_bind_eq_ok
            (Remote.Reads.tryThrow (reads_refresh hreads phase))).mp hview
          rw [Remote.view_tryThrow, mapError_eq_ok] at hfresh
          refine (Remote.view_bind_eq_ok (reads_verifyDraft _ _ _)).mpr ⟨⟨⟩, hrest, ?_⟩
          refine (Remote.view_bind_eq_ok
            (Remote.Reads.tryThrow (reads_refresh hreads phase))).mpr ⟨⟨⟩, ?_, rfl⟩
          rw [Remote.view_tryThrow, mapError_eq_ok]
          refine (Remote.view_bind_congr hreads hfetch fun fresh => ?_).trans hfresh
          exact Remote.view_bind_congr (Remote.Reads.ofExcept _) (by simp) fun _ => by simp

theorem view_previewPrepared_eq_ok {found : Option (Publishing Bool)} :
    Remote.view (previewPrepared checkout record) h = .ok found ↔
      ∃ livePr release publish,
        Remote.view (fetchLivePreviewPr checkout record.prNumber) h = .ok livePr ∧
        h.releases.get record.draftReleaseId = some release ∧
        Remote.view (preparePreview checkout record.identity record livePr
          (release.json record.draftReleaseId)
          (some (fetchLivePreviewPr checkout record.prNumber))) h = .ok publish ∧
        found = if publish then some (pure false) else none := by
  have hreads : Remote.Reads (fetchLivePreviewPr checkout record.prNumber) :=
    reads_fetchLivePreviewPr _
  constructor
  · intro hview
    obtain ⟨livePr, hlive, hview⟩ := (Remote.view_bind_eq_ok hreads).mp hview
    obtain ⟨payload, hpayload, hview⟩ := (Remote.view_bind_eq_ok (reads_getRelease _)).mp hview
    obtain ⟨publish, hpublish, hview⟩ :=
      (Remote.view_bind_eq_ok (reads_preparePreview hreads _ _)).mp hview
    cases hview
    obtain ⟨release, hget, rfl⟩ := getRelease_eq_ok hpayload
    exact ⟨livePr, release, publish, hlive, hget, hpublish, rfl⟩
  · rintro ⟨livePr, release, publish, hlive, hget, hpublish, rfl⟩
    refine (Remote.view_bind_eq_ok hreads).mpr ⟨livePr, hlive, ?_⟩
    refine (Remote.view_bind_eq_ok (reads_getRelease _)).mpr
      ⟨release.json record.draftReleaseId, ?_, ?_⟩
    · rw [getRelease, Remote.view_read, hget]
      rfl
    exact (Remote.view_bind_eq_ok (reads_preparePreview hreads _ _)).mpr ⟨publish, hpublish, rfl⟩

theorem repeatable_preview :
    Repeatable record record.buildSha true (previewPrepared checkout record) where
  reads := reads_previewPrepared
  latest := by
    intro h latest hview
    obtain ⟨livePr, release, publish, -, -, -, hlatest⟩ := view_previewPrepared_eq_ok.mp hview
    cases publish with
    | false => cases hlatest
    | true =>
        cases hlatest
        exact Remote.Reads.pure _
  tagged := by
    intro h t latest hview ht
    obtain ⟨livePr, release, publish, hlive, hget, hprepare, hlatest⟩ :=
      view_previewPrepared_eq_ok.mp hview
    obtain ⟨hreleases, -, -, hpull, htimeline, hpermission, -⟩ := ht.frame
    cases publish with
    | false => cases hlatest
    | true =>
        cases hlatest
        obtain ⟨hshape, hverify⟩ := preparePreview_seen hprepare
        have hfetch : Remote.view (fetchLivePreviewPr checkout record.prNumber) t =
            Remote.view (fetchLivePreviewPr checkout record.prNumber) h :=
          view_fetchLivePreviewPr_congr hpull htimeline hpermission record.prNumber
        refine ⟨view_previewPrepared_eq_ok.mpr ⟨livePr, release, true, ?_, ?_, ?_, rfl⟩, rfl⟩
        · rw [hfetch, hlive]
        · rw [hreleases, hget]
        · exact preparePreview_again hprepare hfetch hshape ht.resolved
            (view_verifyDraft_of_tagged ht hverify)
  published := by
    intro h p latest hview hpublished
    obtain ⟨livePr, release, publish, hlive, hget, hprepare, hlatest⟩ :=
      view_previewPrepared_eq_ok.mp hview
    cases publish with
    | false => cases hlatest
    | true =>
        obtain ⟨hshape, hverify⟩ := preparePreview_seen hprepare
        have hready := view_verifyDraft hverify
        obtain ⟨phase, -, hphase, -⟩ := (previewPublishable_of_prepare hprepare).live
        have hphase' : record.phase = some phase := hphase
        obtain ⟨t, release', chosen, ht, -, hget', -, hgett, rfl⟩ :=
          hpublished.eq_withPublished hready (by rw [hphase']; rfl)
        cases hget.symm.trans hget'
        obtain ⟨-, -, -, hpull, htimeline, hpermission, -⟩ := ht.frame
        have hfetch : Remote.view (fetchLivePreviewPr checkout record.prNumber)
            (t.withPublished record.draftReleaseId release chosen) =
              Remote.view (fetchLivePreviewPr checkout record.prNumber) h :=
          view_fetchLivePreviewPr_congr (t := t.withPublished record.draftReleaseId release chosen)
            hpull htimeline hpermission record.prNumber
        have hassets : (t.withPublished record.draftReleaseId release chosen).asset? = h.asset? :=
          (Hub.asset?_withPublished hgett).trans ht.asset?
        have hshape' : assertReleaseShape checkout.codec
            (({ release with draft := false } : HubRelease).json record.draftReleaseId)
            record.identity record true = .ok false := by
          refine assertReleaseShape_congr rfl rfl (fun key hkey => ?_) hshape
          simp only [List.mem_cons, List.not_mem_nil, or_false] at hkey
          rcases hkey with rfl | rfl | rfl | rfl | rfl | rfl <;> rfl
        have htag : ∃ sha, Remote.view (resolveTagCommit record.tag)
            (t.withPublished record.draftReleaseId release chosen) = .ok (some sha) ∧
            lower sha = lower record.buildSha := by
          obtain ⟨sha, hsha, hlower⟩ := ht.resolved
          exact ⟨sha, view_resolveTagCommit_withPublished.trans hsha, hlower⟩
        refine view_previewPrepared_eq_ok.mpr
          ⟨livePr, { release with draft := false }, false, ?_, ?_, ?_, rfl⟩
        · rw [hfetch, hlive]
        · exact (Dict.get_set _ _ _ _).trans (if_pos rfl)
        · exact preparePreview_again hprepare hfetch hshape' htag
            (view_verifyPublishedAssetBytes_of_ready hready hget hassets rfl)

/-- **A preview run can be made again**, as a stable one. -/
theorem previewRun_attempts (checkout : Checkout) (record : CandidateRecord) (h : Hub)
    (runs : List (List Delivery)) :
    previewRun checkout record ⟨Remote.attempts (previewRun checkout record) h runs, []⟩ =
      previewRun checkout record ⟨h, []⟩ := by
  rw [previewRun_eq]
  exact run_attempts repeatable_preview h runs

end Preview

end GelCli.Release
