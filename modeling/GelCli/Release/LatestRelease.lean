import GelCli.Release.PublishRetry

/-!
# The latest release

A stable publication reads the inventory of releases and takes the latest flag if its
version is the greatest one. Publications are made one at a time, in any order of versions
and over any number of release lines, and each may fail at any call; drafts, previews and
tags come and go between them. The flag stays at the greatest stable version.
-/

namespace GelCli.Release

open GelCli.Foundation

/-! ## The inventory -/

/-- The plain version that a release is published under. The `v` of a tag is taken off
twice, once for the inventory and once before it is parsed. -/
def HubRelease.stable? (release : HubRelease) : Option Plain :=
  if release.draft || release.prerelease then none else semverTuple (stripV release.tagName)

/-- The releases that are published under a plain version, and the versions. -/
def Hub.stables (h : Hub) : List Plain := h.releases.items.filterMap fun item => item.2.stable?

theorem HubRelease.stableVersion?_json (id : ℤ) (release : HubRelease) :
    stableVersion? (release.json id) =
      if release.draft || release.prerelease then none else some (stripV release.tagName) := by
  have hdraft : (release.json id).get "draft" = .bool release.draft := rfl
  have hprerelease : (release.json id).get "prerelease" = .bool release.prerelease := rfl
  have htag : (release.json id).find? "tag_name" = some (.str release.tagName) := rfl
  have hobj : (release.json id).isObj = true := rfl
  unfold stableVersion?
  rw [hdraft, hprerelease, htag, hobj]
  cases release.draft <;> cases release.prerelease <;> simp [Json.bool?, Json.str?]

theorem flattenPages_listing (h : Hub) : ∃ listed, h.listing.isObj = false ∧
    h.listing.arr? = some listed ∧
    flattenPages listed = h.releases.items.map fun item => item.2.json item.1 := by
  have hflat : ∀ items : List (ℤ × HubRelease),
      flattenPages (items.map fun item => item.2.json item.1) =
        items.map fun item => item.2.json item.1 := by
    intro items
    rw [flattenPages, List.flatMap_map]
    exact List.flatMap_pure_eq_map _ items
  have hpages : ∀ pages : List (List Json), flattenPages (pages.map Json.arr) = pages.flatten := by
    intro pages
    rw [flattenPages, List.flatMap_map, ← List.flatMap_id]
    rfl
  unfold Hub.listing
  have hflatten := flatten_pages h.perPage (h.releases.items.map fun item => item.2.json item.1)
  have hne := pages_ne_nil h.perPage (h.releases.items.map fun item => item.2.json item.1)
  rcases hlist : pages h.perPage (h.releases.items.map fun item => item.2.json item.1) with
    _ | ⟨page, _ | ⟨second, rest⟩⟩
  · exact absurd hlist hne
  · -- `gh` prints one page as it is
    rw [hlist, List.flatten_cons, List.flatten_nil, List.append_nil] at hflatten
    rw [hlist]
    exact ⟨page, rfl, rfl, by rw [hflatten, hflat]⟩
  · rw [hlist]
    exact ⟨(page :: second :: rest).map Json.arr, rfl, rfl, by rw [hpages, ← hlist, hflatten]⟩

/-- **However it is paged, the listing is read as the releases that are published.** -/
theorem stableVersionsFromPayload_listing (h : Hub) : ∃ versions,
    stableVersionsFromPayload h.listing = .ok versions ∧
      versions.filterMap semverTuple = h.stables := by
  obtain ⟨listed, hobj, harr, hflatten⟩ := flattenPages_listing h
  refine ⟨(flattenPages listed).filterMap stableVersion?, ?_, ?_⟩
  · refine expect_bind_eq_ok.mpr ⟨listed, ?_, rfl⟩
    rw [hobj]
    exact harr
  · rw [hflatten, List.filterMap_map, List.filterMap_filterMap, Hub.stables]
    refine List.filterMap_congr fun item _ => ?_
    simp only [Function.comp_apply, HubRelease.stableVersion?_json, HubRelease.stable?]
    split <;> rfl

theorem mem_stables {h : Hub} {v : Plain} :
    v ∈ h.stables ↔ ∃ id release, h.releases.get id = some release ∧ release.stable? = some v := by
  simp only [Hub.stables, List.mem_filterMap, Prod.exists, Dict.get_eq_some]

/-! ## `should_make_latest` -/

theorem foldl_greatest {v : Plain} {versions : List Plain} :
    v = versions.foldl (fun maximum parsed => if maximum < parsed then parsed else maximum) v ↔
      ∀ parsed ∈ versions, parsed ≤ v := by
  have hle : ∀ u, u ≤ versions.foldl
      (fun maximum parsed => if maximum < parsed then parsed else maximum) u ∧
      ∀ parsed ∈ versions, parsed ≤ versions.foldl
        (fun maximum parsed => if maximum < parsed then parsed else maximum) u := by
    induction versions with
    | nil => exact fun u => ⟨le_refl u, by simp⟩
    | cons w versions ih =>
        intro u
        rw [List.foldl_cons]
        obtain ⟨hstart, hrest⟩ := ih (if u < w then w else u)
        have hboth : u ≤ (if u < w then w else u) ∧ w ≤ (if u < w then w else u) := by
          split
          · next hlt => exact ⟨hlt.le, le_refl w⟩
          · next hlt => exact ⟨le_refl u, not_lt.mp hlt⟩
        exact ⟨hboth.1.trans hstart, List.forall_mem_cons.mpr ⟨hboth.2.trans hstart, hrest⟩⟩
  constructor
  · intro heq parsed hparsed
    rw [heq]
    exact (hle v).2 parsed hparsed
  · intro hall
    clear hle
    induction versions with
    | nil => rfl
    | cons w versions ih =>
        obtain ⟨hw, hrest⟩ := List.forall_mem_cons.mp hall
        rw [List.foldl_cons, if_neg (not_lt.mpr hw)]
        exact ih hrest

theorem shouldMakeLatest_eq_ok {version : Text} {versions : List Text} {latest : Bool} :
    shouldMakeLatest version versions = .ok latest ↔ ∃ selected,
      semverTuple version = some selected ∧
        (latest = true ↔ ∀ parsed ∈ versions.filterMap semverTuple, parsed ≤ selected) := by
  unfold shouldMakeLatest
  rw [expect_bind_eq_ok]
  refine exists_congr fun selected => and_congr_right fun _ => ?_
  rw [← foldl_greatest]
  constructor
  · intro hok
    cases hok
    exact decide_eq_true_iff
  · intro hlatest
    refine congrArg Except.ok ?_
    rw [Bool.eq_iff_iff, hlatest, decide_eq_true_iff]

/-! ## The flag -/

/-- The latest release is published under the greatest stable version, and there is none only
if nothing stable is published. -/
def LatestGreatest (h : Hub) : Prop :=
  match h.latest with
  | none => h.stables = []
  | some id => ∃ release v, h.releases.get id = some release ∧ release.stable? = some v ∧
      ∀ u ∈ h.stables, u ≤ v

/-- What counts for the flag. -/
def SameStables (h h' : Hub) : Prop :=
  h'.latest = h.latest ∧ ∀ id,
    (h'.releases.get id).bind HubRelease.stable? = (h.releases.get id).bind HubRelease.stable?

theorem mem_stables_iff_bind {h : Hub} {v : Plain} :
    v ∈ h.stables ↔ ∃ id, (h.releases.get id).bind HubRelease.stable? = some v := by
  simp only [mem_stables, Option.bind_eq_some_iff]

theorem LatestGreatest.congr {h h' : Hub} (hsame : SameStables h h') (hh : LatestGreatest h) :
    LatestGreatest h' := by
  obtain ⟨hlatest, hreleases⟩ := hsame
  have hstables : ∀ v, v ∈ h'.stables ↔ v ∈ h.stables := by
    intro v
    simp only [mem_stables_iff_bind, hreleases]
  unfold LatestGreatest at hh ⊢
  rw [hlatest]
  cases hid : h.latest with
  | none =>
      rw [hid] at hh
      rw [List.eq_nil_iff_forall_not_mem]
      intro v hv
      rw [hstables, hh] at hv
      cases hv
  | some id =>
      rw [hid] at hh
      obtain ⟨release, v, hget, hv, hall⟩ := hh
      have hbind : (h'.releases.get id).bind HubRelease.stable? = some v := by
        rw [hreleases, hget]
        exact hv
      obtain ⟨release', hget', hv'⟩ := Option.bind_eq_some_iff.mp hbind
      exact ⟨release', v, hget', hv', fun u hu => hall u ((hstables u).mp hu)⟩

theorem Tagged.sameStables {tag target : Text} {h t : Hub} (ht : Tagged tag target h t) :
    SameStables h t :=
  ⟨ht.frame.2.1, fun id => by rw [ht.frame.1]⟩

section Flag

variable {checkout : Checkout} {record : CandidateRecord} {push : Text} {h h' t : Hub}

/-- What is published of a draft, and what was there stays. -/
theorem mem_stables_withPublished {id : ℤ} {release : HubRelease} {latest : Bool} {v : Plain}
    (hget : h.releases.get id = some release) (hdraft : release.draft = true) :
    v ∈ (h.withPublished id release latest).stables ↔
      v ∈ h.stables ∨ ({ release with draft := false } : HubRelease).stable? = some v := by
  have hnone : release.stable? = none := by
    rw [HubRelease.stable?, hdraft]
    rfl
  rw [mem_stables_iff_bind, mem_stables_iff_bind]
  have hset : ∀ other, (h.withPublished id release latest).releases.get other =
      if other = id then some { release with draft := false } else h.releases.get other :=
    fun other => Dict.get_set _ _ _ _
  constructor
  · rintro ⟨other, hother⟩
    rw [hset] at hother
    split at hother
    · exact Or.inr hother
    · exact Or.inl ⟨other, hother⟩
  · rintro (⟨other, hother⟩ | hv)
    · refine ⟨other, ?_⟩
      have hne : other ≠ id := by
        rintro rfl
        rw [hget, Option.bind_some, hnone] at hother
        cases hother
      rw [hset, if_neg hne, hother]
    · refine ⟨id, ?_⟩
      rw [hset, if_pos rfl]
      exact hv

/-- A draft that is published under a plain version takes the flag if no version is greater. -/
theorem LatestGreatest.withPublished {id : ℤ} {release : HubRelease} {latest : Bool} {v : Plain}
    (hh : LatestGreatest h) (hget : h.releases.get id = some release)
    (hdraft : release.draft = true)
    (hv : ({ release with draft := false } : HubRelease).stable? = some v)
    (hlatest : latest = true ↔ ∀ u ∈ h.stables, u ≤ v) :
    LatestGreatest (h.withPublished id release latest) := by
  have hnew : (h.withPublished id release latest).releases.get id =
      some { release with draft := false } := (Dict.get_set _ _ _ _).trans (if_pos rfl)
  cases latest with
  | true =>
      refine ⟨_, v, hnew, hv, fun u hu => ?_⟩
      rcases (mem_stables_withPublished hget hdraft).mp hu with hu | hu
      · exact hlatest.mp rfl u hu
      · exact (Option.some.inj (hv.symm.trans hu)).ge
  | false =>
      -- some version is greater, so the flag is set, and it is the greatest one that has it
      obtain ⟨u, hu, hlt⟩ : ∃ u ∈ h.stables, v < u := by
        by_contra hnone
        have hall : ∀ u ∈ h.stables, u ≤ v := fun u hu =>
          not_lt.mp fun hlt => hnone ⟨u, hu, hlt⟩
        exact Bool.false_ne_true (hlatest.mpr hall)
      unfold LatestGreatest at hh ⊢
      rw [show (h.withPublished id release false).latest = h.latest from rfl]
      cases hid : h.latest with
      | none =>
          rw [hid] at hh
          rw [hh] at hu
          cases hu
      | some first =>
          rw [hid] at hh
          obtain ⟨greatest, w, hfirst, hw, hall⟩ := hh
          have hne : first ≠ id := by
            rintro rfl
            cases hget.symm.trans hfirst
            rw [HubRelease.stable?, hdraft] at hw
            cases hw
          refine ⟨greatest, w, (Dict.get_set _ _ _ _).trans ((if_neg hne).trans hfirst), hw,
            fun x hx => ?_⟩
          rcases (mem_stables_withPublished hget hdraft).mp hx with hx | hx
          · exact hall x hx
          · cases hv.symm.trans hx
            exact hlt.le.trans (hall u hu)

/-- A preview is not stable, and does not ask for the flag. -/
theorem sameStables_withPublished {id : ℤ} {release : HubRelease}
    (hget : h.releases.get id = some release) (hdraft : release.draft = true)
    (hprerelease : release.prerelease = true) :
    SameStables h (h.withPublished id release false) := by
  refine ⟨rfl, fun other => ?_⟩
  have hset : (h.withPublished id release false).releases.get other =
      if other = id then some { release with draft := false } else h.releases.get other :=
    Dict.get_set _ _ _ _
  rw [hset]
  split
  · next hother =>
    rw [hother, hget, Option.bind_some, Option.bind_some, HubRelease.stable?, HubRelease.stable?,
      hprerelease, hdraft]
    rfl
  · rfl

/-- **A stable run keeps the flag at the greatest version.** -/
theorem LatestGreatest.stableRun {w : Remote Hub} (hw : LatestGreatest w.state) :
    LatestGreatest (Remote.leaves (stableRun checkout record push) w) := by
  rw [stableRun_eq]
  rcases midway_leaves (@repeatable_stable checkout record push) w with
    hsame | ⟨latest, hview, htagged | hpublished⟩
  · rwa [hsame]
  · exact hw.congr htagged.sameStables
  · obtain ⟨payload, mergedPr, publish, hpayload, -, hprepare, hlatest⟩ :=
      view_stablePrepared_eq_ok.mp hview
    cases publish with
    | false => cases hlatest
    | true =>
        cases hlatest
        have hchecks := stablePublishable_of_prepare hprepare
        obtain ⟨t, release, chosen, ht, hchosen, hget, hdraft, hgett, heq⟩ :=
          hpublished.eq_withPublished hchecks.draft (by rw [hchecks.phase]; rfl)
        obtain ⟨release', hget', htag, -, -, hprerelease, -⟩ := hchecks.draft.release
        cases hget.symm.trans hget'
        rw [hchecks.phase] at hprerelease
        -- the versions are those that were published when the tag was there
        rw [view_stableLatest_setField] at hchosen
        obtain ⟨versions, hversions, hchosen⟩ := bind_eq_ok.mp hchosen
        obtain ⟨found, hfound, hstables⟩ := stableVersionsFromPayload_listing t
        cases hfound.symm.trans hversions
        obtain ⟨v, hv, hgreatest⟩ := shouldMakeLatest_eq_ok.mp hchosen
        rw [hstables] at hgreatest
        rw [heq]
        refine (hw.congr ht.sameStables).withPublished hgett hdraft ?_ hgreatest
        have hstable : ({ release with draft := false } : HubRelease).stable? =
            semverTuple (stripV release.tagName) := by
          rw [HubRelease.stable?, hprerelease]
          rfl
        rw [hstable, htag, record.tag_eq]
        exact hv

/-- **A preview run leaves the flag alone.** -/
theorem LatestGreatest.previewRun {w : Remote Hub} (hw : LatestGreatest w.state) :
    LatestGreatest (Remote.leaves (previewRun checkout record) w) := by
  rw [previewRun_eq]
  rcases midway_leaves (@repeatable_preview checkout record) w with
    hsame | ⟨latest, hview, htagged | hpublished⟩
  · rwa [hsame]
  · exact hw.congr htagged.sameStables
  · obtain ⟨livePr, payload, publish, -, -, hprepare, hlatest⟩ :=
      view_previewPrepared_eq_ok.mp hview
    cases publish with
    | false => cases hlatest
    | true =>
        cases hlatest
        have hchecks := previewPublishable_of_prepare hprepare
        obtain ⟨phase, -, hphase, -⟩ := hchecks.live
        have hsome : record.phase.isSome = true := by
          have hrecord : record.phase = some phase := hphase
          rw [hrecord]
          rfl
        obtain ⟨t, release, chosen, ht, hchosen, hget, hdraft, hgett, heq⟩ :=
          hpublished.eq_withPublished hchecks.draft hsome
        obtain ⟨release', hget', -, -, -, hprerelease, -⟩ := hchecks.draft.release
        cases hget.symm.trans hget'
        cases hchosen
        rw [heq]
        refine (hw.congr ht.sameStables).congr (sameStables_withPublished hgett hdraft ?_)
        rw [hprerelease, hsome]

end Flag

/-! ## The runs of the repository -/

/-- What happens to the repository: a run of either kind, with what becomes of its calls, or
something else that leaves what is published under a plain version as it is. -/
inductive ReleaseStep where
  | stable (checkout : Checkout) (record : CandidateRecord) (push : Text)
      (deliveries : List Delivery)
  | preview (checkout : Checkout) (record : CandidateRecord) (deliveries : List Delivery)
  | elsewhere (change : Hub → Hub) (kept : ∀ h, SameStables h (change h))

def ReleaseStep.perform (h : Hub) : ReleaseStep → Hub
  | stable checkout record push deliveries =>
      Remote.leaves (stableRun checkout record push) ⟨h, deliveries⟩
  | preview checkout record deliveries => Remote.leaves (previewRun checkout record) ⟨h, deliveries⟩
  | elsewhere change _ => change h

theorem LatestGreatest.perform {h : Hub} (hh : LatestGreatest h) (step : ReleaseStep) :
    LatestGreatest (step.perform h) := by
  cases step with
  | stable checkout record push deliveries => exact hh.stableRun (w := ⟨h, deliveries⟩)
  | preview checkout record deliveries => exact hh.previewRun (w := ⟨h, deliveries⟩)
  | elsewhere change kept => exact hh.congr (kept h)

/-- **The latest release is the greatest stable one**, after any steps in any order. -/
theorem latestGreatest_of_steps {h : Hub} (hh : LatestGreatest h) (steps : List ReleaseStep) :
    LatestGreatest (steps.foldl ReleaseStep.perform h) := by
  induction steps generalizing h with
  | nil => exact hh
  | cons step steps ih => exact ih (hh.perform step)

/-- An older line has been patched after a newer one, and the next one has a preview and a draft. -/
def patched : Hub where
  releases := ⟨[(1, ⟨"v7.9.0".toList, "v7.9.0".toList, false, false, [], []⟩),
    (2, ⟨"v7.10.0".toList, "v7.10.0".toList, false, false, [], []⟩),
    (3, ⟨"v7.9.1".toList, "v7.9.1".toList, false, false, [], []⟩),
    (4, ⟨"v8.0.0-beta.1".toList, "v8.0.0-beta.1".toList, false, true, [], []⟩),
    (5, ⟨"v8.0.0".toList, "v8.0.0".toList, true, false, [], []⟩)], by decide⟩
  refs := Dict.empty
  tagObjects := Dict.empty
  commit := fun _ => false
  head := ⟨commitType, "e43f68aa150d9043b8f9ea1c31345260a2f44459".toList, by decide⟩
  latest := some 2
  perPage := 2
  pull := fun _ => none
  timeline := fun _ => []
  permission := fun _ => none

theorem latestGreatest_patched : LatestGreatest patched :=
  ⟨_, plain 7 10 0, rfl, rfl, by decide⟩

theorem latestGreatest_of_steps_patched : LatestGreatest (List.foldl ReleaseStep.perform patched
    [.elsewhere (fun h => { h with refs := h.refs.set "v8.0.0".toList h.head })
      fun _ => ⟨rfl, fun _ => rfl⟩]) :=
  latestGreatest_of_steps latestGreatest_patched _

end GelCli.Release
