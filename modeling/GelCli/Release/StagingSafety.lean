import GelCli.Release.Staging

/-!
# What staging changes

Whichever call fails, staging a candidate touches one release at most: a draft with the
candidate's tag, which is new or was there, and which stays a draft. Of the tags only the
candidate's own may go. So whatever is published outlives it.
-/

namespace GelCli.Release

open GelCli.Foundation

/-! ## Ids -/

theorem le_foldl_max (l : List ℤ) (a : ℤ) :
    a ≤ l.foldl max a ∧ ∀ x ∈ l, x ≤ l.foldl max a := by
  induction l generalizing a with
  | nil => simp
  | cons b l ih =>
      obtain ⟨hstart, hrest⟩ := ih (max a b)
      simp only [List.foldl_cons, List.forall_mem_cons]
      exact ⟨(le_max_left a b).trans hstart, (le_max_right a b).trans hstart, hrest⟩

theorem fresh_notMem (l : List ℤ) : l.foldl max 0 + 1 ∉ l := by
  intro hmem
  have hle := (le_foldl_max l 0).2 _ hmem
  omega

namespace Hub

variable {h : Hub}

/-- No two assets have one id. -/
def AssetsApart (h : Hub) : Prop := (h.assets.map HubAsset.id).Nodup

theorem asset?_eq_some (hapart : h.AssetsApart) {id : ℤ} {release : HubRelease} {asset : HubAsset}
    (hget : h.releases.get id = some release) (hasset : asset ∈ release.assets) :
    h.asset? asset.id = some asset := by
  have hmem : asset ∈ h.assets :=
    List.mem_flatMap.mpr ⟨(id, release), Dict.get_eq_some.mp hget, hasset⟩
  have hsome : (h.asset? asset.id).isSome := by
    rw [asset?, List.find?_isSome]
    exact ⟨asset, hmem, by simp⟩
  obtain ⟨found, hfound⟩ := Option.isSome_iff_exists.mp hsome
  have hid : found.id = asset.id := by simpa using List.find?_some hfound
  rw [hfound, List.inj_on_of_nodup_map hapart (List.mem_of_find?_eq_some hfound) hmem hid]

theorem get_freshRelease (h : Hub) : h.releases.get h.freshRelease = none := by
  rw [Option.eq_none_iff_forall_not_mem]
  intro release hrelease
  exact fresh_notMem h.releases.keys (Dict.mem_keys_iff.mpr ⟨release, hrelease⟩)

/-- The assets when one release has others. -/
theorem exists_assets_set {id : ℤ} {release : HubRelease} (hget : h.releases.get id = some release) :
    ∃ before behind, h.assets = before ++ release.assets ++ behind ∧ ∀ release' : HubRelease,
      ({ h with releases := h.releases.set id release' } : Hub).assets =
        before ++ release'.assets ++ behind := by
  obtain ⟨before, behind, hitems, hset⟩ := Dict.items_set_split hget
  refine ⟨before.flatMap fun item => item.2.assets, behind.flatMap fun item => item.2.assets, ?_,
    fun release' => ?_⟩
  · simp [assets, hitems]
  · simp [assets, hset]

theorem AssetsApart.set (hapart : h.AssetsApart) {id : ℤ} {release release' : HubRelease}
    (hget : h.releases.get id = some release) (hsub : release'.assets.Sublist release.assets) :
    ({ h with releases := h.releases.set id release' } : Hub).AssetsApart := by
  obtain ⟨before, behind, hassets, hset⟩ := exists_assets_set hget
  unfold AssetsApart at hapart ⊢
  rw [hassets] at hapart
  rw [hset]
  exact hapart.sublist (((List.Sublist.refl _).append hsub).append (List.Sublist.refl _) |>.map _)

theorem AssetsApart.add (hapart : h.AssetsApart) {id : ℤ} {release release' : HubRelease}
    {name : Text} {bytes : List UInt8} (hget : h.releases.get id = some release)
    (hnew : release'.assets = release.assets ++ [⟨h.freshAsset, name, bytes⟩]) :
    ({ h with releases := h.releases.set id release' } : Hub).AssetsApart := by
  obtain ⟨before, behind, hassets, hset⟩ := exists_assets_set hget
  have hfresh : h.freshAsset ∉ h.assets.map HubAsset.id := fresh_notMem _
  unfold AssetsApart at hapart ⊢
  rw [hset, hnew]
  rw [hassets] at hapart hfresh
  -- the new asset, moved to the front
  have hperm : ∀ new : HubAsset, (before ++ (release.assets ++ [new]) ++ behind).Perm
      (new :: (before ++ release.assets ++ behind)) := by
    intro new
    rw [← List.append_assoc, List.append_assoc (before ++ release.assets)]
    exact List.perm_middle
  exact ((hperm _).map HubAsset.id).nodup_iff.mpr (List.nodup_cons.mpr ⟨hfresh, hapart⟩)

end Hub

/-! ## The draft that is worked on -/

section Worked

variable {codec : JsonCodec} {expected : CandidateIdentity} {h s t : Hub} {id : ℤ}

/-- `s` is `h` after work on the draft of a candidate. -/
structure Worked (codec : JsonCodec) (expected : CandidateIdentity) (h : Hub) (id : ℤ) (s : Hub) :
    Prop where
  others : ∀ other, other ≠ id → s.releases.get other = h.releases.get other
  before : ∀ release, h.releases.get id = some release →
    release.draft = true ∧ release.tagName = expected.tag
  draft : ∃ release, s.releases.get id = some release ∧ release.draft = true ∧
    release.tagName = expected.tag ∧ (release.body = candidateIdentityBody codec expected ∨
      ∃ first, h.releases.get id = some first ∧ release.body = first.body)
  only : ∀ other release, s.releases.get other = some release → release.tagName = expected.tag →
    other = id
  refs : ∀ tag, s.refs.get tag = h.refs.get tag ∨ tag = expected.tag ∧ s.refs.get tag = none
  assets : h.AssetsApart → s.AssetsApart
  rest : s = { h with releases := s.releases, refs := s.refs }

/-- A draft with the tag, the only one. -/
theorem Worked.refl {release : HubRelease} (hget : h.releases.get id = some release)
    (hdraft : release.draft = true) (htag : release.tagName = expected.tag)
    (honly : ∀ other release, h.releases.get other = some release → release.tagName = expected.tag →
      other = id) : Worked codec expected h id h := by
  refine ⟨fun _ _ => rfl, fun release' hget' => ?_, ⟨release, hget, hdraft, htag, Or.inr
    ⟨release, hget, rfl⟩⟩, honly, fun _ => Or.inl rfl, fun hapart => hapart, rfl⟩
  cases hget.symm.trans hget'
  exact ⟨hdraft, htag⟩

/-- Changing the draft, and nothing but the draft. -/
theorem Worked.set (hs : Worked codec expected h id s) {release' : HubRelease}
    (hdraft : release'.draft = true) (htag : release'.tagName = expected.tag)
    (hbody : release'.body = candidateIdentityBody codec expected ∨
      ∃ release, s.releases.get id = some release ∧ release'.body = release.body)
    (hassets : s.AssetsApart →
      ({ s with releases := s.releases.set id release' } : Hub).AssetsApart) :
    Worked codec expected h id { s with releases := s.releases.set id release' } := by
  have hset : ∀ other, (s.releases.set id release').get other =
      if other = id then some release' else s.releases.get other := fun _ => Dict.get_set _ _ _ _
  refine ⟨fun other hne => ?_, hs.before, ⟨release', ?_, hdraft, htag, ?_⟩,
    fun other release hget htag' => ?_, hs.refs, fun hapart => hassets (hs.assets hapart),
    congrArg (fun t : Hub => { t with releases := s.releases.set id release' }) hs.rest⟩
  · rw [hset, if_neg hne, hs.others other hne]
  · rw [hset, if_pos rfl]
  · rcases hbody with hbody | ⟨release, hget, hbody⟩
    · exact Or.inl hbody
    · obtain ⟨found, hfound, -, -, hold⟩ := hs.draft
      cases hget.symm.trans hfound
      rwa [hbody]
  · rw [hset] at hget
    split at hget
    · assumption
    · exact hs.only other release hget htag'

theorem Worked.replaceDraft (hs : Worked codec expected h id s) {prerelease : Bool}
    (hok : s.replaceDraft id expected.tag prerelease (candidateIdentityBody codec expected) = .ok t) :
    Worked codec expected h id t := by
  unfold Hub.replaceDraft at hok
  split at hok
  · cases hok
  · next release hget =>
    cases hok
    exact hs.set rfl rfl (Or.inl rfl) fun hapart => hapart.set hget (List.Sublist.refl _)

theorem Worked.deleteRef (hs : Worked codec expected h id s)
    (hok : s.deleteRef expected.tag = .ok t) : Worked codec expected h id t := by
  unfold Hub.deleteRef at hok
  split at hok
  · cases hok
    refine ⟨hs.others, hs.before, hs.draft, hs.only, fun tag => ?_, hs.assets,
      congrArg (fun t : Hub => { t with refs := s.refs.erase expected.tag }) hs.rest⟩
    rw [Dict.get_erase]
    split
    · next htag => exact Or.inr ⟨htag, rfl⟩
    · exact hs.refs tag
  · cases hok

theorem Worked.deleteAsset (hs : Worked codec expected h id s) {asset : ℤ}
    (hok : s.deleteAsset id asset = .ok t) : Worked codec expected h id t := by
  unfold Hub.deleteAsset at hok
  obtain ⟨release, hget, hdraft, htag, -⟩ := hs.draft
  rw [hget] at hok
  cases hok
  exact hs.set hdraft htag (Or.inr ⟨release, hget, rfl⟩) fun hapart =>
    hapart.set hget List.filter_sublist

theorem Worked.upload (hs : Worked codec expected h id s) {name : Text} {bytes : List UInt8}
    (hok : s.upload expected.tag name bytes = .ok t) : Worked codec expected h id t := by
  unfold Hub.upload at hok
  split at hok
  · cases hok
  · next other release hfind =>
    have hget : s.releases.get other = some release :=
      Dict.get_eq_some.mpr (List.mem_of_find?_eq_some hfind)
    have htag : release.tagName = expected.tag := by simpa using List.find?_some hfind
    obtain rfl := hs.only other release hget htag
    obtain ⟨found, hfound, hdraft, -⟩ := hs.draft
    cases hget.symm.trans hfound
    split at hok
    · cases hok
    · cases hok
      exact hs.set hdraft htag (Or.inr ⟨release, hget, rfl⟩) fun hapart =>
        Hub.AssetsApart.add hapart hget rfl

/-- A new draft, where no release had the tag. -/
theorem Worked.createDraft {prerelease : Bool} {new : ℤ}
    (hnone : ∀ other release, h.releases.get other = some release → release.tagName ≠ expected.tag)
    (hok : h.createDraft expected.tag prerelease (candidateIdentityBody codec expected) =
      .ok (new, s)) :
    Worked codec expected h new s := by
  obtain ⟨rfl, rfl⟩ := Prod.mk.inj (Except.ok.inj hok)
  have hset : ∀ (release' : HubRelease) other, (h.releases.set h.freshRelease release').get other =
      if other = h.freshRelease then some release' else h.releases.get other :=
    fun _ _ => Dict.get_set _ _ _ _
  refine ⟨fun other hne => ?_, fun release hget => ?_,
    ⟨⟨expected.tag, expected.tag, true, prerelease, candidateIdentityBody codec expected, []⟩,
      (hset _ _).trans (if_pos rfl), rfl, rfl, Or.inl rfl⟩, fun other release hget htag => ?_,
    fun tag => Or.inl rfl, fun hapart => ?_, rfl⟩
  · exact (hset _ _).trans (if_neg hne)
  · rw [Hub.get_freshRelease] at hget
    cases hget
  · rw [hset] at hget
    split at hget
    · assumption
    · exact absurd htag (hnone other release hget)
  · have hnew : h.freshRelease ∉ h.releases.keys := fresh_notMem _
    have hitems : (h.releases.set h.freshRelease ⟨expected.tag, expected.tag, true, prerelease,
        candidateIdentityBody codec expected, []⟩).items = h.releases.items ++ [(h.freshRelease,
          ⟨expected.tag, expected.tag, true, prerelease, candidateIdentityBody codec expected, []⟩)] :=
      Dict.items_set_of_notMem hnew
    unfold Hub.AssetsApart Hub.assets at hapart ⊢
    simpa [hitems] using hapart

end Worked

/-! ## The `stage` job -/

section Stage

variable {codec : JsonCodec} {expected : CandidateIdentity} {h : Hub} {id : ℤ}

/-- What staging leaves of a repository. -/
def StagedFrom (codec : JsonCodec) (expected : CandidateIdentity) (h s : Hub) : Prop :=
  s = h ∨ ∃ id, Worked codec expected h id s

theorem reads_staleTarget (tag : Text) (n : ℕ) (object : GitObject) :
    Remote.Reads (staleTarget tag n object) := by
  induction n generalizing object with
  | zero =>
      unfold staleTarget
      exact Remote.Reads.ite (Remote.Reads.pure _) (Remote.Reads.throw _)
  | succ n ih =>
      unfold staleTarget
      apply Remote.Reads.ite (Remote.Reads.pure _)
      apply Remote.Reads.ite (Remote.Reads.throw _)
      exact Remote.Reads.bind (Remote.Reads.read _ _) fun next => ih next

/-- What a command keeps of the work on a draft, whether it fails or not. -/
def KeepsWork {α : Type} (codec : JsonCodec) (expected : CandidateIdentity) (h : Hub) (id : ℤ)
    (x : Publishing α) : Prop :=
  Triple (fun w => Worked codec expected h id w.state) x
    (fun _ w => Worked codec expected h id w.state) fun _ w => Worked codec expected h id w.state

theorem KeepsWork.bind {α β : Type} {x : Publishing α} {f : α → Publishing β}
    (hx : KeepsWork codec expected h id x) (hf : ∀ a, KeepsWork codec expected h id (f a)) :
    KeepsWork codec expected h id (x >>= f) :=
  Triple.bind hx hf

theorem KeepsWork.of_reads {α : Type} {x : Publishing α} (hx : Remote.Reads x) :
    KeepsWork codec expected h id x :=
  hx.kept.conseq (fun _ hw => hw) fun _ _ hw => hw.1

theorem keepsWork_dropStaleTag (stale : Text) :
    KeepsWork codec expected h id (dropStaleTag expected.tag stale) := by
  apply KeepsWork.bind (KeepsWork.of_reads (Remote.Reads.read _ _))
  intro object
  cases object with
  | none => exact KeepsWork.of_reads (Remote.Reads.pure _)
  | some object =>
      apply KeepsWork.bind (KeepsWork.of_reads (reads_staleTarget _ _ _))
      intro target
      apply KeepsWork.bind (KeepsWork.of_reads (Remote.Reads.ofExcept _))
      intro _
      exact Remote.mutate_kept fun _ _ hs hok => Worked.deleteRef hs hok

theorem keepsWork_takeOver (stale : Option Text) :
    KeepsWork codec expected h id (takeOver codec expected id stale) := by
  cases stale with
  | none => exact KeepsWork.of_reads (Remote.Reads.pure _)
  | some stale =>
      apply KeepsWork.bind (keepsWork_dropStaleTag stale)
      intro _
      exact Remote.mutate_kept fun _ _ hs hok => Worked.replaceDraft hs hok

theorem keepsWork_reuseDraft (selection : DraftSelection) :
    KeepsWork codec expected h id (reuseDraft codec expected selection id) := by
  apply KeepsWork.bind (KeepsWork.of_reads (reads_getRelease _))
  intro release
  apply KeepsWork.bind (KeepsWork.of_reads (Remote.Reads.ofExcept _))
  intro reselected
  apply KeepsWork.bind (KeepsWork.of_reads (Remote.Reads.ofExcept _))
  intro _
  apply KeepsWork.bind (keepsWork_takeOver _)
  intro _
  apply KeepsWork.bind (KeepsWork.of_reads (reads_listReleaseAssets _))
  intro assets
  exact Remote.forM_kept fun asset _ =>
    Remote.mutate_kept fun _ _ hs hok => Worked.deleteAsset hs hok

theorem keepsWork_uploadAsset (file : Text × List UInt8) :
    KeepsWork codec expected h id (uploadAsset expected.tag file) :=
  Remote.mutate_kept fun _ _ hs hok => Worked.upload hs hok

/-- The releases of a listing that have the tag of the candidate. -/
theorem owns_listing {other : ℤ} {release : HubRelease}
    (hget : h.releases.get other = some release) (htag : release.tagName = expected.tag) :
    release.json other ∈
      (h.releases.items.map fun item => item.2.json item.1).filter expected.Owns := by
  rw [List.mem_filter]
  refine ⟨List.mem_map.mpr ⟨(other, release), Dict.get_eq_some.mp hget, rfl⟩, decide_eq_true ?_⟩
  exact congrArg some htag

/-- What is selected is a release of the repository, and the only one with the tag. -/
theorem selected_release {selection : DraftSelection}
    (hselected : selectDraft codec expected (h.releases.items.map fun item => item.2.json item.1) =
      .ok (some selection)) :
    ∃ id release, h.releases.get id = some release ∧ Worked codec expected h id h ∧
      selectRelease codec expected (release.json id) = .ok selection := by
  obtain ⟨listed, hfilter, hselect⟩ := (selectDraft_eq_ok.mp hselected).2
  obtain ⟨-, hdraft, -⟩ := selectRelease_eq_ok.mp hselect
  have hmem : listed ∈
      (h.releases.items.map fun item => item.2.json item.1).filter expected.Owns := by
    rw [hfilter]
    exact List.mem_singleton_self _
  obtain ⟨hlisted, howns⟩ := List.mem_filter.mp hmem
  obtain ⟨⟨id, release⟩, hitem, rfl⟩ := List.mem_map.mp hlisted
  have hget : h.releases.get id = some release := Dict.get_eq_some.mpr hitem
  have htag : release.tagName = expected.tag := Option.some.inj (of_decide_eq_true howns)
  have honly : ∀ other release', h.releases.get other = some release' →
      release'.tagName = expected.tag → other = id := by
    intro other release' hget' htag'
    have hmem' := owns_listing hget' htag'
    rw [hfilter, List.mem_singleton] at hmem'
    have hid : (release'.json other).get "id" = (release.json id).get "id" := by rw [hmem']
    exact Json.num.inj hid
  exact ⟨id, release, hget, Worked.refl hget (Json.bool.inj hdraft) htag honly, hselect⟩

/-- No release has the tag of the candidate where none is selected. -/
theorem unowned_of_none
    (hselected : selectDraft codec expected (h.releases.items.map fun item => item.2.json item.1) =
      .ok none) {other : ℤ} {release : HubRelease} (hget : h.releases.get other = some release) :
    release.tagName ≠ expected.tag := by
  intro htag
  have hmem := owns_listing hget htag
  rw [(selectDraft_eq_ok.mp hselected).2] at hmem
  cases hmem

/-- The rule of `stage_draft`: a draft is created where no release has the tag, and the one that
was selected is taken over otherwise. -/
theorem stageDraft_rule {Q : ℤ → Remote Hub → Prop} {E : String → Remote Hub → Prop}
    (hleft : ∀ e w, w.state = h → E e w)
    (hcreate : (∀ other release, h.releases.get other = some release →
        release.tagName ≠ expected.tag) →
      Triple (fun w => w.state = h) (Remote.exchange "gh api -X POST releases failed"
        (Hub.createDraft expected.tag expected.phase.isSome
          (candidateIdentityBody codec expected))) Q E)
    (hreuse : ∀ selection id release, h.releases.get id = some release →
      Worked codec expected h id h → selectRelease codec expected (release.json id) = .ok selection →
      Triple (fun w => w.state = h) (reuseDraft codec expected selection id) (fun _ => Q id) E) :
    Triple (fun w => w.state = h) (stageDraft codec expected) Q E := by
  have hlisting : Remote.Reads listReleases := Remote.Reads.read _ _
  apply Triple.bind ((hlisting.triple h).conseqError hleft)
  intro releases
  apply Triple.assume fun w hw => hw.1
  intro hreleases
  rw [listReleases, Remote.view_read] at hreleases
  cases hreleases
  apply Triple.bind (R := fun selected w => selectDraft codec expected
    (h.releases.items.map fun item => item.2.json item.1) = .ok selected ∧ w.state = h)
  · exact Triple.ofExcept (fun selected w hok hw => ⟨hok, hw.2⟩) fun e w _ hw => hleft e w hw.2
  intro selected
  apply Triple.assume fun w hw => hw.1
  intro hselected
  cases selected with
  | none =>
      apply Triple.conseq (hcreate fun _ _ => unowned_of_none hselected)
      · exact fun w hw => hw.2
      · exact fun _ _ hw => hw
  | some selection =>
      obtain ⟨id, release, hget, hwork, hselect⟩ := selected_release hselected
      obtain ⟨-, -, -, actual, -, -, -, -, hselection⟩ := selectRelease_eq_ok.mp hselect
      have hid : selection.id? = some id := by
        rw [hselection]
        rfl
      simp only [Option.bind_some, hid, Option.map_some]
      apply Triple.bind
      · apply Triple.conseq (hreuse selection id release hget hwork hselect)
        · exact fun w hw => hw.2
        · exact fun _ _ hw => hw
      · exact fun _ => Triple.pure fun w hw => hw

/-- **The draft of the candidate is made, or there was one that may be written to.** -/
theorem stageDraft_triple : Triple (fun w => w.state = h) (stageDraft codec expected)
    (fun id w => Worked codec expected h id w.state)
    fun _ w => StagedFrom codec expected h w.state := by
  apply stageDraft_rule
  · exact fun e w hw => Or.inl hw
  · intro hnone
    apply Triple.conseqError
    · apply Triple.conseq (Remote.exchange_triple (s := h)) fun w hw => hw
      exact fun id w hok => Worked.createDraft hnone hok
    · rintro e w (hw | ⟨id, hok⟩)
      · exact Or.inl hw
      · exact Or.inr ⟨id, Worked.createDraft hnone hok⟩
  · intro selection id release _ hwork _
    apply Triple.conseqError
    · apply Triple.conseq (keepsWork_reuseDraft selection)
      · intro w hw
        rw [hw]
        exact hwork
      · exact fun _ _ hw => hw
    · exact fun e w hw => Or.inr ⟨id, hw⟩

/-- **Staging touches its own draft at most**, whatever becomes of its calls. -/
theorem stage_leaves (files : List (Text × List UInt8))
    (writeRecord : ℤ → List HubAsset → Except String (List UInt8)) (w : Remote Hub) :
    StagedFrom codec expected w.state
      (Remote.leaves (stage codec expected files writeRecord) w) := by
  refine Remote.leaves_of_triple (P := fun h => h = w.state)
    (Q := StagedFrom codec expected w.state) ?_ rfl
  apply Triple.bind (stageDraft_triple.conseq (fun _ hw => hw) fun _ _ hw => hw)
  intro id
  have hrest : ∀ {x : Publishing Unit}, KeepsWork codec expected w.state id x →
      Triple (fun v => Worked codec expected w.state id v.state) x
        (fun _ v => StagedFrom codec expected w.state v.state)
        fun _ v => StagedFrom codec expected w.state v.state := by
    intro x hx
    exact (hx.conseq (fun _ hv => hv) fun _ _ hv => Or.inr ⟨id, hv⟩).conseqError
      fun _ _ hv => Or.inr ⟨id, hv⟩
  apply hrest
  apply KeepsWork.bind (Remote.forM_kept fun file _ => keepsWork_uploadAsset file)
  intro _
  apply KeepsWork.bind (KeepsWork.of_reads (reads_listReleaseAssets _))
  intro assets
  apply KeepsWork.bind (KeepsWork.of_reads (Remote.Reads.ofExcept _))
  intro _
  apply KeepsWork.bind (KeepsWork.of_reads (Remote.Reads.ofExcept _))
  intro record
  split
  · exact keepsWork_uploadAsset _
  · exact KeepsWork.of_reads (Remote.Reads.pure _)

end Stage

/-! ## What is staged -/

section Filled

/-- What is uploaded for an asset. -/
def HubAsset.file (asset : HubAsset) : Text × List UInt8 := (asset.name, asset.bytes)

/-- The draft of a candidate that is worked on: it has its name, its flag and its identity, and
`C` is said of its assets. -/
structure Holds (codec : JsonCodec) (expected : CandidateIdentity) (h : Hub) (id : ℤ)
    (C : List HubAsset → Prop) (s : Hub) : Prop where
  work : Worked codec expected h id s
  release : ∃ release, s.releases.get id = some release ∧ release.name = expected.tag ∧
    release.prerelease = expected.phase.isSome ∧
      releaseIdentity codec (release.json id) = .ok expected ∧ C release.assets

variable {codec : JsonCodec} {expected : CandidateIdentity} {h s t : Hub} {id : ℤ}
  {C D : List HubAsset → Prop}

theorem Holds.imp (hs : Holds codec expected h id C s) (hCD : ∀ assets, C assets → D assets) :
    Holds codec expected h id D s := by
  obtain ⟨release, hget, hname, hflag, hidentity, hassets⟩ := hs.release
  exact ⟨hs.work, release, hget, hname, hflag, hidentity, hCD _ hassets⟩

/-- Other assets of the draft. -/
theorem Holds.setAssets (hs : Holds codec expected h id C s) {release : HubRelease}
    (hget : s.releases.get id = some release) {assets : List HubAsset}
    (hwork : Worked codec expected h id
      { s with releases := s.releases.set id { release with assets := assets } })
    (hassets : D assets) : Holds codec expected h id D
      { s with releases := s.releases.set id { release with assets := assets } } := by
  obtain ⟨found, hfound, hname, hflag, hidentity, -⟩ := hs.release
  cases hget.symm.trans hfound
  refine ⟨hwork, { release with assets := assets }, (Dict.get_set _ _ _ _).trans (if_pos rfl),
    hname, hflag, ?_, hassets⟩
  rw [← hidentity]
  exact releaseIdentity_congr rfl rfl

theorem Holds.deleteAsset {asset : ℤ} {rest : List ℤ}
    (hs : Holds codec expected h id (fun assets => ∀ a ∈ assets, a.id ∈ asset :: rest) s)
    (hok : s.deleteAsset id asset = .ok t) :
    Holds codec expected h id (fun assets => ∀ a ∈ assets, a.id ∈ rest) t := by
  obtain ⟨release, hget, -, -, -, hassets⟩ := hs.release
  have hwork := hs.work.deleteAsset hok
  rw [Hub.deleteAsset, hget] at hok
  cases hok
  refine hs.setAssets hget hwork fun a ha => ?_
  obtain ⟨hmem, hne⟩ := List.mem_filter.mp ha
  rcases List.mem_cons.mp (hassets a hmem) with heq | hrest
  · exact absurd heq (of_decide_eq_true hne)
  · exact hrest

theorem Holds.upload {listed : List HubAsset} {name : Text} {bytes : List UInt8}
    (hs : Holds codec expected h id (· = listed) s)
    (hok : s.upload expected.tag name bytes = .ok t) :
    Holds codec expected h id (fun assets => ∃ fresh, assets = listed ++ [⟨fresh, name, bytes⟩]) t := by
  obtain ⟨release, hget, -, -, -, hassets⟩ := hs.release
  have hwork := hs.work.upload hok
  unfold Hub.upload at hok
  split at hok
  · cases hok
  · next other found hfind =>
    have hother : s.releases.get other = some found :=
      Dict.get_eq_some.mpr (List.mem_of_find?_eq_some hfind)
    obtain rfl := hs.work.only other found hother (by simpa using List.find?_some hfind)
    cases hget.symm.trans hother
    split at hok
    · cases hok
    · cases hok
      exact hs.setAssets hget hwork ⟨s.freshAsset, by rw [hassets]⟩

theorem Holds.createDraft
    (hnone : ∀ other release, h.releases.get other = some release → release.tagName ≠ expected.tag)
    (hok : h.createDraft expected.tag expected.phase.isSome (candidateIdentityBody codec expected) =
      .ok (id, s)) : Holds codec expected h id (· = []) s := by
  have hwork := Worked.createDraft hnone hok
  obtain ⟨rfl, rfl⟩ := Prod.mk.inj (Except.ok.inj hok)
  exact ⟨hwork, _, (Dict.get_set _ _ _ _).trans (if_pos rfl), rfl, rfl,
    releaseIdentity_of_body rfl, rfl⟩

theorem Holds.replaceDraft (hs : Worked codec expected h id s)
    (hok : s.replaceDraft id expected.tag expected.phase.isSome
      (candidateIdentityBody codec expected) = .ok t) :
    Holds codec expected h id (fun _ => True) t := by
  have hwork := hs.replaceDraft hok
  unfold Hub.replaceDraft at hok
  split at hok
  · cases hok
  · cases hok
    exact ⟨hwork, _, (Dict.get_set _ _ _ _).trans (if_pos rfl), rfl, rfl,
      releaseIdentity_of_body rfl, trivial⟩

theorem takeOver_fills {release : HubRelease} {actual : CandidateIdentity}
    (hget : h.releases.get id = some release) (hwork : Worked codec expected h id h)
    (hname : release.name = expected.tag) (hflag : release.prerelease = expected.phase.isSome)
    (hidentity : releaseIdentity codec (release.json id) = .ok actual) :
    Triple (fun w => w.state = h)
      (takeOver codec expected id (if actual = expected then none else some actual.buildSha))
      (fun _ w => Holds codec expected h id (fun _ => True) w.state) fun _ _ => True := by
  by_cases hsame : actual = expected
  · rw [if_pos hsame]
    refine Triple.pure fun w hw => ?_
    rw [hw]
    exact ⟨hwork, release, hget, hname, hflag, hsame ▸ hidentity, trivial⟩
  · rw [if_neg hsame]
    apply Triple.bind (R := fun _ w => Worked codec expected h id w.state)
    · have hdrop : KeepsWork codec expected h id (dropStaleTag expected.tag actual.buildSha) :=
        keepsWork_dropStaleTag actual.buildSha
      apply Triple.conseqError
      · apply Triple.conseq hdrop
        · intro w hw
          rw [hw]
          exact hwork
        · exact fun _ _ hw => hw
      · exact fun _ _ _ => trivial
    · exact fun _ => Remote.mutate_ok fun _ _ hs hok => Holds.replaceDraft hs hok

theorem deletes_fill (assets : List HubAsset) :
    Triple (fun w => Holds codec expected h id
        (fun found => ∀ a ∈ found, a.id ∈ assets.map HubAsset.id) w.state)
      (assets.forM fun asset =>
        Remote.mutate "gh api -X DELETE releases/assets failed" (Hub.deleteAsset id asset.id))
      (fun _ w => Holds codec expected h id (· = []) w.state) fun _ _ => True := by
  induction assets with
  | nil =>
      refine Triple.pure fun w hw => hw.imp fun found hfound => ?_
      exact List.eq_nil_iff_forall_not_mem.mpr fun a ha => List.not_mem_nil (hfound a ha)
  | cons asset assets ih =>
      exact Triple.bind (Remote.mutate_ok fun _ _ hs hok => Holds.deleteAsset hs hok) fun _ => ih

theorem uploads_fill (files : List (Text × List UInt8)) (contents : List (Text × List UInt8)) :
    Triple (fun w => Holds codec expected h id (fun found => found.map HubAsset.file = contents)
        w.state)
      (files.forM (uploadAsset expected.tag))
      (fun _ w => Holds codec expected h id
        (fun found => found.map HubAsset.file = contents ++ files) w.state) fun _ _ => True := by
  induction files generalizing contents with
  | nil =>
      refine Triple.pure fun w hw => ?_
      rwa [List.append_nil]
  | cons file files ih =>
      apply Triple.bind (R := fun _ w => Holds codec expected h id
        (fun found => found.map HubAsset.file = contents ++ [file]) w.state)
      · refine Remote.mutate_ok fun s t hs hok => ?_
        obtain ⟨release, hget, hname, hflag, hidentity, hassets⟩ := hs.release
        have hlisted : Holds codec expected h id (· = release.assets) s :=
          ⟨hs.work, release, hget, hname, hflag, hidentity, rfl⟩
        refine (hlisted.upload hok).imp fun found hfound => ?_
        obtain ⟨fresh, rfl⟩ := hfound
        rw [List.map_append, hassets]
        rfl
      · intro _
        have hrest := ih (contents ++ [file])
        rwa [List.append_assoc] at hrest

theorem listed_of_view {assets : List HubAsset} (hs : Holds codec expected h id C s)
    (hview : Remote.view (listReleaseAssets id) s = .ok assets) :
    C assets ∧ Holds codec expected h id (· = assets) s := by
  obtain ⟨release, hget, hname, hflag, hidentity, hassets⟩ := hs.release
  rw [listReleaseAssets, Remote.view_read, hget] at hview
  cases expect_eq_ok.mp hview
  exact ⟨hassets, hs.work, release, hget, hname, hflag, hidentity, rfl⟩

theorem reuseDraft_fills {release : HubRelease} {actual : CandidateIdentity}
    {selection : DraftSelection} (hget : h.releases.get id = some release)
    (hwork : Worked codec expected h id h) (hname : release.name = expected.tag)
    (hflag : release.prerelease = expected.phase.isSome)
    (hidentity : releaseIdentity codec (release.json id) = .ok actual)
    (hstale : selection.stale? = if actual = expected then none else some actual.buildSha) :
    Triple (fun w => w.state = h) (reuseDraft codec expected selection id)
      (fun _ w => Holds codec expected h id (· = []) w.state) fun _ _ => True := by
  apply Triple.bind (((reads_getRelease id).triple h).conseqError fun _ _ _ => trivial)
  intro payload
  apply Triple.bind (R := fun _ w => w.state = h)
  · exact Triple.ofExcept (fun _ _ _ hw => hw.2) fun _ _ _ _ => trivial
  intro reselected
  apply Triple.bind (R := fun _ w => w.state = h)
  · exact Triple.ofExcept (fun _ _ _ hw => hw) fun _ _ _ _ => trivial
  intro _
  rw [hstale]
  apply Triple.bind (takeOver_fills hget hwork hname hflag hidentity)
  intro _
  apply Triple.bind ((reads_listReleaseAssets id).kept.conseqError fun _ _ _ => trivial)
  intro assets
  apply Triple.conseq (deletes_fill assets)
  · rintro w ⟨hs, hview⟩
    refine (listed_of_view hs hview).2.imp fun found hfound a ha => ?_
    rw [hfound] at ha
    exact List.mem_map_of_mem ha
  · exact fun _ _ hw => hw

/-- A selected draft is taken over from another build, or it is the candidate's own. -/
theorem stale_of_selection {release : Json} {actual : CandidateIdentity}
    {selection : DraftSelection} (hselection : selection = ⟨release, decide (actual = expected),
      if decide (actual = expected) then none else some actual.buildSha⟩) :
    selection.stale? = if actual = expected then none else some actual.buildSha := by
  have hne : actual.buildSha ≠ [] := by
    intro hnil
    have hlength := actual.valid.build
    rw [hnil] at hlength
    exact absurd hlength (by decide)
  rw [hselection, DraftSelection.stale?]
  by_cases hsame : actual = expected
  · simp [hsame]
  · simp [hsame, hne]

/-- **When a draft was made or taken over, it is the candidate's, and empty.** -/
theorem stageDraft_fills : Triple (fun w => w.state = h) (stageDraft codec expected)
    (fun id w => Holds codec expected h id (· = []) w.state) fun _ _ => True := by
  apply stageDraft_rule
  · exact fun _ _ _ => trivial
  · intro hnone
    apply Triple.conseqError
    · apply Triple.conseq (Remote.exchange_triple (s := h)) fun w hw => hw
      exact fun id w hok => Holds.createDraft hnone hok
    · exact fun _ _ _ => trivial
  · intro selection id release hget hwork hselect
    obtain ⟨hname, -, hflag, actual, hidentity, -, -, -, hselection⟩ :=
      selectRelease_eq_ok.mp hselect
    exact reuseDraft_fills hget hwork (Json.str.inj hname) (Json.bool.inj hflag) hidentity
      (stale_of_selection hselection)

/-- **A candidate that is staged is staged whole**: where the job ends well, its draft has the
tag, the name, the flag and the identity of the candidate, and its assets are the files that were
given, each once and in their order, with nothing left of an earlier candidate; a preview has the
record besides, written of the assets as they were listed. -/
theorem stage_fills (codec : JsonCodec) (expected : CandidateIdentity) (h : Hub)
    (files : List (Text × List UInt8))
    (writeRecord : ℤ → List HubAsset → Except String (List UInt8)) :
    Triple (fun w => w.state = h) (stage codec expected files writeRecord)
      (fun _ w => ∃ id listed record, writeRecord id listed = .ok record ∧
        listed.map HubAsset.file = files ∧ Holds codec expected h id (fun assets => ∃ own,
          assets = listed ++ own ∧ own.map HubAsset.file =
            if expected.phase.isSome then [(previewRecordName, record)] else []) w.state)
      fun _ _ => True := by
  apply Triple.bind stageDraft_fills
  intro id
  apply Triple.bind (R := fun _ w => Holds codec expected h id
    (fun found => found.map HubAsset.file = files) w.state)
  · apply Triple.conseq (uploads_fill files [])
    · exact fun w hw => hw.imp fun found hfound => by rw [hfound]; rfl
    · exact fun _ _ hw => hw
  intro _
  apply Triple.bind ((reads_listReleaseAssets id).kept.conseqError fun _ _ _ => trivial)
  intro listed
  refine Triple.conseq (?_ : Triple (fun w => listed.map HubAsset.file = files ∧
    Holds codec expected h id (· = listed) w.state) _ _ _) (fun w hw => listed_of_view hw.1 hw.2)
    fun _ _ hw => hw
  apply Triple.assume fun w hw => hw.1
  intro hfiles
  apply Triple.bind (R := fun _ w => Holds codec expected h id (· = listed) w.state)
  · exact Triple.ofExcept (fun _ _ _ hw => hw.2) fun _ _ _ _ => trivial
  intro _
  apply Triple.bind (R := fun record w => writeRecord id listed = .ok record ∧
    Holds codec expected h id (· = listed) w.state)
  · exact Triple.ofExcept (fun _ _ hok hw => ⟨hok, hw⟩) fun _ _ _ _ => trivial
  intro record
  apply Triple.assume fun w hw => hw.1
  intro hrecord
  apply Triple.ite
  · intro hphase
    have hupload : Triple (fun w => Holds codec expected h id (· = listed) w.state)
        (uploadAsset expected.tag (previewRecordName, record))
        (fun _ w => Holds codec expected h id (fun assets => ∃ fresh,
          assets = listed ++ [⟨fresh, previewRecordName, record⟩]) w.state) fun _ _ => True :=
      Remote.mutate_ok fun _ _ hs hok => hs.upload hok
    apply Triple.conseq hupload
    · exact fun w hw => hw.2
    · refine fun _ w hw => ⟨id, listed, record, hrecord, hfiles, hw.imp fun assets hassets => ?_⟩
      obtain ⟨fresh, rfl⟩ := hassets
      exact ⟨_, rfl, by rw [if_pos hphase]; rfl⟩
  · intro hphase
    refine Triple.pure fun w hw => ⟨id, listed, record, hrecord, hfiles, hw.2.imp ?_⟩
    rintro assets rfl
    exact ⟨[], by rw [List.append_nil], by rw [if_neg hphase]; rfl⟩

end Filled

end GelCli.Release
