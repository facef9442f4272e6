import GelCli.Release.PublishSafety

/-!
# What a publication has checked

The checks of `publish_stable` and of `publish_preview`, as facts about the repository, the
checkout and the pull request: a stable draft is published for the merge that introduced
its record, a preview for a pull request that is still at its source, under a phase that a
maintainer has set. With them both publications are safe.
-/

namespace GelCli.Release

open GelCli.Foundation

variable {checkout : Checkout} {record : CandidateRecord} {push : Text} {h : Hub}

/-! ## The merge -/

def FirstParent (repo : Repository) (rev parent : Text) : Prop :=
  ∃ commit, repo.commit rev = some commit ∧ commit.parents.head? = some parent

/-- The payload is of the merge of the record's pull request, made by the push. -/
structure MergedBy (checkout : Checkout) (record : CandidateRecord) (push : Text)
    (mergedPr : Json) : Prop where
  number : mergedPr.get "number" = .num record.prNumber
  commit : (mergedPr.find? "merge_commit_sha").getD (mergedPr.get "merge_sha") = .str push
  line : (mergedPr.get "base").get "ref" = .str record.line
  repositories : nestedRepo ((mergedPr.get "base").get "repo") = some checkout.repository ∧
    nestedRepo ((mergedPr.get "head").get "repo") = some checkout.repository
  head : ∃ headSha, (mergedPr.get "head").get "sha" = .str headSha ∧
    (headSha = record.sourceSha ∨ RecordSuccessor checkout.repo record.sourceSha headSha ∧
      gitShow checkout.repo headSha recordPath = some (checkout.format.dump record))

/-- What is checked before a stable draft is published for a push. -/
structure StablePublishable (checkout : Checkout) (record : CandidateRecord) (push : Text)
    (h : Hub) : Prop where
  phase : record.phase = none
  draft : DraftReady checkout.toTooling record push h
  merge : ∃ mergedPr, MergedBy checkout record push mergedPr
  /-- The push is at most two commits above the recorded base. -/
  base : FirstParent checkout.repo push record.baseSha ∨
    ∃ prepared, FirstParent checkout.repo push prepared ∧
      FirstParent checkout.repo prepared record.baseSha
  /-- The push brings the record, byte for byte. -/
  introduced : gitShow checkout.repo push recordPath = some (checkout.format.dump record) ∧
    ∃ parent, FirstParent checkout.repo push parent ∧ ∃ pushed before,
      checkout.repo.commit push = some pushed ∧ checkout.repo.commit parent = some before ∧
        pushed.tree.entriesRead.get recordPath ≠ before.tree.entriesRead.get recordPath
  /-- What is released is what was tested. -/
  source : ∃ tested pushed, checkout.repo.commit record.sourceSha = some tested ∧
    checkout.repo.commit push = some pushed ∧ tested.tree.source = pushed.tree.source

theorem getElem?_firstParents {repo : Repository} {n : ℕ} {rev a : Text} :
    ((firstParents repo n rev)[1]? = some a → FirstParent repo rev a) ∧
      ((firstParents repo n rev)[2]? = some a →
        ∃ mid, FirstParent repo rev mid ∧ FirstParent repo mid a) := by
  have hnext : ∀ n rev, (firstParents repo n rev)[0]? = some a → rev = a := by
    intro n rev hzero
    cases n with
    | zero => cases hzero
    | succ n => exact Option.some.inj hzero
  have hone : ∀ n rev, (firstParents repo n rev)[1]? = some a → FirstParent repo rev a := by
    intro n rev hget
    cases n with
    | zero => cases hget
    | succ n =>
        rw [firstParents, List.getElem?_cons_succ] at hget
        split at hget
        · cases hget
        · next parent hparent =>
          obtain rfl := hnext n parent hget
          obtain ⟨commit, hcommit, hhead⟩ := Option.bind_eq_some_iff.mp hparent
          exact ⟨commit, hcommit, hhead⟩
  refine ⟨hone n rev, fun hget => ?_⟩
  cases n with
  | zero => cases hget
  | succ n =>
      rw [firstParents, List.getElem?_cons_succ] at hget
      split at hget
      · cases hget
      · next parent hparent =>
        obtain ⟨commit, hcommit, hhead⟩ := Option.bind_eq_some_iff.mp hparent
        exact ⟨parent, ⟨commit, hcommit, hhead⟩, hone n parent hget⟩

theorem assertLinePushBase_eq_ok (hok : assertLinePushBase checkout record push = .ok ⟨⟩) :
    FirstParent checkout.repo push record.baseSha ∨
      ∃ prepared, FirstParent checkout.repo push prepared ∧
        FirstParent checkout.repo prepared record.baseSha := by
  obtain ⟨-, hok⟩ := require_bind_eq_ok.mp hok
  obtain ⟨hmem, hok⟩ := require_bind_eq_ok.mp hok
  obtain ⟨hpos, hok⟩ := require_bind_eq_ok.mp hok
  have hle := require_eq_ok.mp hok
  have hget := List.getElem?_idxOf hmem
  obtain hsteps | hsteps : (firstParents checkout.repo checkout.depth push).idxOf record.baseSha = 1 ∨
      (firstParents checkout.repo checkout.depth push).idxOf record.baseSha = 2 := by omega
  · rw [hsteps] at hget
    exact Or.inl (getElem?_firstParents.1 hget)
  · rw [hsteps] at hget
    exact Or.inr (getElem?_firstParents.2 hget)

theorem assertRecordIntroduced_eq_ok
    (hok : assertRecordIntroduced checkout record push = .ok ⟨⟩) :
    gitShow checkout.repo push recordPath = some (checkout.format.dump record) ∧
      ∃ parent, FirstParent checkout.repo push parent ∧ ∃ pushed before,
        checkout.repo.commit push = some pushed ∧ checkout.repo.commit parent = some before ∧
          pushed.tree.entriesRead.get recordPath ≠ before.tree.entriesRead.get recordPath := by
  obtain ⟨changed, hchanged, hok⟩ := bind_eq_ok.mp hok
  have hrecord := require_eq_ok.mp hok
  obtain ⟨⟨⟩, hpresent, hchanged⟩ := bind_eq_ok.mp (mapError_eq_ok.mp hchanged)
  obtain ⟨parents, hparents, hchanged⟩ := bind_eq_ok.mp hchanged
  obtain ⟨parent, hparent, hchanged⟩ := expect_bind_eq_ok.mp hchanged
  obtain ⟨base, hbase, hchanged⟩ := bind_eq_ok.mp hchanged
  obtain ⟨head, hhead, hchanged⟩ := bind_eq_ok.mp hchanged
  cases hchanged
  obtain ⟨pushed, hpushed, rfl⟩ := revListParents_eq_ok.mp hparents
  obtain ⟨pushed', hpushed', rfl⟩ := (treeEntries_eq_ok checkout.repo).mp hbase
  obtain ⟨before, hbefore, rfl⟩ := (treeEntries_eq_ok checkout.repo).mp hhead
  cases hpushed.symm.trans hpushed'
  refine ⟨assertRecordPresent_eq_ok.mp hpresent, parent, ⟨pushed, hpushed, ?_⟩, pushed, before,
    hpushed, hbefore, mem_changedPaths.mp hrecord⟩
  rw [List.getElem?_cons_succ] at hparent
  rw [List.head?_eq_getElem?, hparent]

theorem assertMergeSource_eq_ok (hok : assertMergeSource checkout record push = .ok ⟨⟩) :
    ∃ tested pushed, checkout.repo.commit record.sourceSha = some tested ∧
      checkout.repo.commit push = some pushed ∧ tested.tree.source = pushed.tree.source := by
  obtain ⟨differences, hcompare, hok⟩ := bind_eq_ok.mp hok
  rw [require_eq_ok.mp hok] at hcompare
  obtain ⟨base, hbase, hrest⟩ := bind_eq_ok.mp hcompare
  obtain ⟨head, hhead, -⟩ := bind_eq_ok.mp hrest
  obtain ⟨tested, htested, -⟩ := (treeEntries_eq_ok checkout.repo).mp hbase
  obtain ⟨pushed, hpushed, -⟩ := (treeEntries_eq_ok checkout.repo).mp hhead
  exact ⟨tested, pushed, htested, hpushed, (compare_eq_nil_iff htested hpushed).mp hcompare⟩

theorem matchingMergePr_eq_true {mergedPr : Json}
    (hok : matchingMergePr checkout record push mergedPr = .ok true) :
    MergedBy checkout record push mergedPr := by
  unfold matchingMergePr at hok
  dsimp only at hok
  split at hok
  · cases hok
  · next hsame =>
    rw [not_or, not_not, not_not, Json.int?_eq_some, Json.str?_eq_some] at hsame
    obtain ⟨-, hok⟩ := require_bind_eq_ok.mp hok
    obtain ⟨hline, hok⟩ := require_bind_eq_ok.mp hok
    obtain ⟨major, -, hok⟩ := bind_eq_ok.mp hok
    obtain ⟨-, hok⟩ := require_bind_eq_ok.mp hok
    obtain ⟨hbase, hok⟩ := require_bind_eq_ok.mp hok
    obtain ⟨hhead, hok⟩ := require_bind_eq_ok.mp hok
    obtain ⟨headSha, hsha, hok⟩ := expect_bind_eq_ok.mp hok
    refine ⟨hsame.1, hsame.2, Json.str?_eq_some.mp hline, ⟨hbase, hhead⟩, headSha,
      (filter_str_eq_some.mp hsha).1, ?_⟩
    split at hok
    · obtain ⟨⟨⟩, hsuccessor, -⟩ := bind_eq_ok.mp hok
      exact Or.inr (assertRecordSuccessor_eq_ok.mp (mapError_eq_ok.mp hsuccessor))
    · next hsource => exact Or.inl (not_not.mp hsource)

/-! ## `publish_stable` -/

theorem reads_mergedPrFromRelease (release : Json) :
    Remote.Reads (mergedPrFromRelease record release) := by
  unfold mergedPrFromRelease
  split
  · exact Remote.Reads.pure _
  · exact Remote.Reads.bind (Remote.Reads.ofExcept _) fun _ => Remote.Reads.pure _
  · apply Remote.Reads.bind (Remote.Reads.read _ _)
    intro payload
    split
    · exact Remote.Reads.pure _
    · exact Remote.Reads.bind (Remote.Reads.ofExcept _) fun _ => Remote.Reads.pure _

theorem reads_prepareStable (release : Json) :
    Remote.Reads (prepareStable checkout record push release) := by
  apply Remote.Reads.bind (Remote.Reads.ofExcept _)
  intro _
  apply Remote.Reads.bind (Remote.Reads.ofExcept _)
  intro _
  apply Remote.Reads.bind (Remote.Reads.ofExcept _)
  intro _
  apply Remote.Reads.bind (reads_mergedPrFromRelease _)
  intro mergedPr
  apply Remote.Reads.bind (Remote.Reads.ofExcept _)
  intro merged
  refine Remote.Reads.ite ?_ (Remote.Reads.pure _)
  apply Remote.Reads.bind (Remote.Reads.ofExcept _)
  intro _
  apply Remote.Reads.bind (Remote.Reads.ofExcept _)
  intro _
  apply Remote.Reads.bind (Remote.Reads.ofExcept _)
  intro _
  apply Remote.Reads.bind (Remote.Reads.ofExcept _)
  intro draft
  apply Remote.Reads.bind (reads_tagTarget _)
  intro target
  apply Remote.Reads.bind (Remote.Reads.ofExcept _)
  intro _
  apply Remote.Reads.ite
  · exact Remote.Reads.bind (reads_verifyDraft _ _ _) fun _ => Remote.Reads.pure _
  · exact Remote.Reads.bind (reads_verifyPublishedAssetBytes _ _) fun _ => Remote.Reads.pure _

theorem reads_publishedStableVersions (release : Json) :
    Remote.Reads (publishedStableVersions release) := by
  unfold publishedStableVersions
  split
  · exact Remote.Reads.ofExcept _
  · split
    · exact Remote.Reads.ofExcept _
    · exact Remote.Reads.bind (Remote.Reads.read _ _) fun _ => Remote.Reads.ofExcept _

/-- The choice of the latest release. -/
theorem reads_latest (release : Json) : Remote.Reads (do
    let versions ← publishedStableVersions release
    MonadExcept.ofExcept (shouldMakeLatest record.version versions)) :=
  Remote.Reads.bind (reads_publishedStableVersions release) fun _ => Remote.Reads.ofExcept _

theorem view_verifyDraft {tooling : Tooling} {expected : CandidateIdentity} {target : Option Text}
    (hview : Remote.view (verifyDraftBeforePublication tooling record expected target) h = .ok ⟨⟩) :
    DraftReady tooling record (target.getD record.buildSha) h := by
  rw [verifyDraftBeforePublication, Remote.view_tryThrow, mapError_eq_ok] at hview
  exact draftReady_of_verify hview

/-- **A stable draft that is about to be published has passed every check.** -/
theorem stablePublishable_of_prepare {release : Json}
    (hview : Remote.view (prepareStable checkout record push release) h = .ok true) :
    StablePublishable checkout record push h := by
  obtain ⟨⟨⟩, hphase, hview⟩ := Remote.view_ofExcept_bind_eq_ok.mp hview
  obtain ⟨⟨⟩, -, hview⟩ := Remote.view_ofExcept_bind_eq_ok.mp hview
  obtain ⟨⟨⟩, -, hview⟩ := Remote.view_ofExcept_bind_eq_ok.mp hview
  obtain ⟨mergedPr, -, hview⟩ := (Remote.view_bind_eq_ok (reads_mergedPrFromRelease _)).mp hview
  obtain ⟨merged, hmerged, hview⟩ := Remote.view_ofExcept_bind_eq_ok.mp hview
  cases merged with
  | false => cases hview
  | true =>
      obtain ⟨⟨⟩, hbase, hview⟩ := Remote.view_ofExcept_bind_eq_ok.mp hview
      obtain ⟨⟨⟩, hintroduced, hview⟩ := Remote.view_ofExcept_bind_eq_ok.mp hview
      obtain ⟨⟨⟩, hsource, hview⟩ := Remote.view_ofExcept_bind_eq_ok.mp hview
      obtain ⟨draft, -, hview⟩ := Remote.view_ofExcept_bind_eq_ok.mp hview
      obtain ⟨target, -, hview⟩ := (Remote.view_bind_eq_ok (reads_tagTarget _)).mp hview
      obtain ⟨⟨⟩, -, hview⟩ := Remote.view_ofExcept_bind_eq_ok.mp hview
      cases draft with
      | false =>
          obtain ⟨⟨⟩, -, hview⟩ :=
            (Remote.view_bind_eq_ok (reads_verifyPublishedAssetBytes _ _)).mp hview
          cases hview
      | true =>
          obtain ⟨⟨⟩, hverify, -⟩ := (Remote.view_bind_eq_ok (reads_verifyDraft _ _ _)).mp hview
          refine ⟨require_eq_ok.mp hphase, view_verifyDraft hverify, ?_,
            assertLinePushBase_eq_ok hbase, assertRecordIntroduced_eq_ok hintroduced,
            assertMergeSource_eq_ok hsource⟩
          cases mergedPr with
          | none => cases hmerged
          | some mergedPr => exact ⟨mergedPr, matchingMergePr_eq_true hmerged⟩

/-- **A stable publication is safe**, whatever payload it is given, whatever the repository
holds and whichever calls fail: what it changes is the tag of the record, made at the push,
and then the draft of the record, and nothing before every check has passed. -/
theorem publishStable_safe (checkout : Checkout) (record : CandidateRecord) (push : Text)
    (release : Json) (w : Remote Hub) :
    SafePublication (StablePublishable checkout record push w.state) record push w.state
      (Remote.leaves (publishStable checkout record push release) w) := by
  have hreached : Reached (StablePublishable checkout record push) record push false _ w.state
      (Remote.leaves (publishStable checkout record push release) w) :=
    reached_publication (reads_prepareStable release) (reads_latest release)
      fun _ => stablePublishable_of_prepare
  exact hreached.safe fun hchecks => ⟨hchecks.draft, by rw [hchecks.phase]; rfl⟩

/-! ## `publish_preview` -/

variable {expected : CandidateIdentity}

/-- The pull request is open and still the one that the candidate was built from. -/
structure LiveFor (expected : CandidateIdentity) (livePr : Json) : Prop where
  live : ∃ repository live, validatePr livePr repository = .ok live ∧
    live.number = expected.prNumber ∧ live.baseRef = expected.line ∧
    live.baseSha = expected.baseSha ∧ live.headSha = expected.sourceSha
  version : preparedVersion livePr = .ok
    (if expected.phase.isSome then expected.version.takeWhile (· ≠ '-') else expected.version)
  digest : sourceSnapshot livePr = .ok expected.sourceSnapshot
  phase : ∃ names, labels livePr = .ok names ∧ phaseFromLabels names = .ok expected.phase

/-- What is checked before a preview draft is published. -/
structure PreviewPublishable (checkout : Checkout) (expected : CandidateIdentity)
    (record : CandidateRecord) (h : Hub) : Prop where
  identity : record.identity = expected
  derived : expected.buildSha ≠ expected.sourceSha
  draft : DraftReady checkout.toTooling record expected.buildSha h
  /-- The pull request is asked for again, after the draft has been read back. -/
  live : ∃ phase fresh, expected.phase = some phase ∧
    Remote.view (fetchLivePreviewPr checkout expected.prNumber) h = .ok fresh ∧
    LiveFor expected fresh ∧ previewAuthorized checkout.fromisoformat fresh phase = .ok ⟨⟩

theorem assertLiveIdentity_eq_ok {livePr : Json}
    (hok : assertLiveIdentity expected livePr = .ok ⟨⟩) : LiveFor expected livePr := by
  obtain ⟨-, hok⟩ := require_bind_eq_ok.mp hok
  obtain ⟨-, hok⟩ := require_bind_eq_ok.mp hok
  obtain ⟨repository, -, hok⟩ := expect_bind_eq_ok.mp hok
  obtain ⟨live, hlive, hok⟩ := bind_eq_ok.mp hok
  obtain ⟨version, hversion, hok⟩ := bind_eq_ok.mp hok
  obtain ⟨digest, hdigest, hok⟩ := bind_eq_ok.mp hok
  obtain ⟨names, hnames, hok⟩ := bind_eq_ok.mp hok
  obtain ⟨phase, hphase, hok⟩ := bind_eq_ok.mp hok
  obtain ⟨⟨⟩, hfields, -⟩ := bind_eq_ok.mp hok
  have hchecks := checkFields_eq_ok.mp hfields
  simp only [liveChecks, FieldCheck.number, FieldCheck.text, FieldCheck.phase, List.cons_append,
    List.nil_append, List.forall_mem_cons, decide_eq_true_eq] at hchecks
  obtain ⟨hnumber, hline, hbase, hsource, hprepared, hsnapshot, hactive, -⟩ := hchecks
  exact ⟨⟨repository, live, hlive, hnumber, hline, hbase, hsource⟩, hversion.trans (by rw [hprepared]),
    hdigest.trans (by rw [hsnapshot]), names, hnames, hphase.trans (by rw [hactive])⟩

theorem reads_fetchLivePreviewPr (number : ℤ) :
    Remote.Reads (fetchLivePreviewPr checkout number) := by
  apply Remote.Reads.bind (Remote.Reads.read _ _)
  intro raw
  apply Remote.Reads.bind (Remote.Reads.ofExcept _)
  intro _
  apply Remote.Reads.bind (Remote.Reads.ofExcept _)
  intro sourceSha
  apply Remote.Reads.bind (Remote.Reads.ofExcept _)
  intro _
  apply Remote.Reads.bind (Remote.Reads.ofExcept _)
  intro version
  apply Remote.Reads.bind (Remote.Reads.ofExcept _)
  intro digest
  apply Remote.Reads.bind (Remote.Reads.read _ _)
  intro timeline
  apply Remote.Reads.bind
  · apply Remote.Reads.mapM
    intro login _
    exact Remote.Reads.bind (Remote.Reads.read _ _) fun _ => Remote.Reads.pure _
  · exact fun permissions => Remote.Reads.pure _

/-- The checks of the pull request, once it has been fetched again. -/
theorem reads_refresh {fresh : Publishing Json} (hfresh : Remote.Reads fresh) (phase : Phase) :
    Remote.Reads (do
      let livePr ← fresh
      MonadExcept.ofExcept (assertLiveIdentity expected livePr)
      MonadExcept.ofExcept (previewAuthorized checkout.fromisoformat livePr phase)) := by
  apply Remote.Reads.bind hfresh
  intro livePr
  exact Remote.Reads.bind (Remote.Reads.ofExcept _) fun _ => Remote.Reads.ofExcept _

theorem reads_preparePreview {refresh : Publishing Json} (hrefresh : Remote.Reads refresh)
    (livePr release : Json) :
    Remote.Reads (preparePreview checkout expected record livePr release (some refresh)) := by
  apply Remote.Reads.bind (Remote.Reads.ofExcept _)
  intro phase
  apply Remote.Reads.bind (Remote.Reads.ofExcept _)
  intro _
  apply Remote.Reads.bind (Remote.Reads.ofExcept _)
  intro _
  apply Remote.Reads.bind (Remote.Reads.ofExcept _)
  intro _
  apply Remote.Reads.bind (Remote.Reads.ofExcept _)
  intro _
  apply Remote.Reads.bind (Remote.Reads.ofExcept _)
  intro draft
  apply Remote.Reads.bind (reads_tagTarget _)
  intro target
  apply Remote.Reads.bind (Remote.Reads.ofExcept _)
  intro _
  apply Remote.Reads.ite
  · apply Remote.Reads.bind (reads_verifyDraft _ _ _)
    intro _
    exact Remote.Reads.bind (Remote.Reads.tryThrow (reads_refresh hrefresh phase))
      fun _ => Remote.Reads.pure _
  · exact Remote.Reads.bind (reads_verifyPublishedAssetBytes _ _) fun _ => Remote.Reads.pure _

/-- **A preview that is about to be published has passed every check.** -/
theorem previewPublishable_of_prepare {livePr release : Json}
    (hview : Remote.view (preparePreview checkout expected record livePr release
      (some (fetchLivePreviewPr checkout expected.prNumber))) h = .ok true) :
    PreviewPublishable checkout expected record h := by
  have hfetch : Remote.Reads (fetchLivePreviewPr checkout expected.prNumber) :=
    reads_fetchLivePreviewPr _
  obtain ⟨phase, hphase, hview⟩ := Remote.view_ofExcept_bind_eq_ok.mp hview
  obtain ⟨⟨⟩, hderived, hview⟩ := Remote.view_ofExcept_bind_eq_ok.mp hview
  obtain ⟨⟨⟩, hidentity, hview⟩ := Remote.view_ofExcept_bind_eq_ok.mp hview
  obtain ⟨⟨⟩, -, hview⟩ := Remote.view_ofExcept_bind_eq_ok.mp hview
  obtain ⟨⟨⟩, -, hview⟩ := Remote.view_ofExcept_bind_eq_ok.mp hview
  obtain ⟨draft, -, hview⟩ := Remote.view_ofExcept_bind_eq_ok.mp hview
  obtain ⟨target, -, hview⟩ := (Remote.view_bind_eq_ok (reads_tagTarget _)).mp hview
  obtain ⟨⟨⟩, -, hview⟩ := Remote.view_ofExcept_bind_eq_ok.mp hview
  have hrecord : record.identity = expected := require_eq_ok.mp hidentity
  cases draft with
  | false =>
      obtain ⟨⟨⟩, -, hview⟩ :=
        (Remote.view_bind_eq_ok (reads_verifyPublishedAssetBytes _ _)).mp hview
      cases hview
  | true =>
      obtain ⟨⟨⟩, hverify, hview⟩ := (Remote.view_bind_eq_ok (reads_verifyDraft _ _ _)).mp hview
      obtain ⟨⟨⟩, hrefresh, -⟩ := (Remote.view_bind_eq_ok
        (Remote.Reads.tryThrow (reads_refresh hfetch phase))).mp hview
      rw [Remote.view_tryThrow, mapError_eq_ok] at hrefresh
      obtain ⟨fresh, hfresh, hrefresh⟩ := (Remote.view_bind_eq_ok hfetch).mp hrefresh
      obtain ⟨⟨⟩, hlive, hauthorized⟩ := Remote.view_ofExcept_bind_eq_ok.mp hrefresh
      rw [Remote.view_ofExcept] at hauthorized
      refine ⟨hrecord, require_eq_ok.mp hderived, ?_, phase, fresh, expect_eq_ok.mp hphase, hfresh,
        assertLiveIdentity_eq_ok hlive, hauthorized⟩
      rw [← hrecord]
      exact view_verifyDraft hverify

/-- **A preview publication is safe**, whatever payloads it is given, whatever the repository
holds and whichever calls fail: it changes nothing before every check has passed, the last of
them on the pull request as it is then. -/
theorem publishPreview_safe (checkout : Checkout) (expected : CandidateIdentity)
    (record : CandidateRecord) (livePr release : Json) (w : Remote Hub) :
    SafePublication (PreviewPublishable checkout expected record w.state) record expected.buildSha
      w.state (Remote.leaves (publishPreview checkout expected record livePr release
        (some (fetchLivePreviewPr checkout expected.prNumber))) w) := by
  have hreached : Reached (PreviewPublishable checkout expected record) record expected.buildSha true
      _ w.state (Remote.leaves (publishPreview checkout expected record livePr release
        (some (fetchLivePreviewPr checkout expected.prNumber))) w) :=
    reached_publication (reads_preparePreview (reads_fetchLivePreviewPr _) livePr release)
      (Remote.Reads.pure false) fun _ => previewPublishable_of_prepare
  refine hreached.safe fun hchecks => ⟨hchecks.draft, ?_⟩
  obtain ⟨phase, -, hphase, -⟩ := hchecks.live
  have hrecord : record.phase = expected.phase := by rw [← hchecks.identity]; rfl
  rw [hrecord, hphase]
  rfl

end GelCli.Release
