import Mathlib.Data.List.ReduceOption
import GelCli.Foundation.Series
import GelCli.Release.StagingSafety

/-!
# What a resolution has seen

The previews that are published, as numbered series (`Hub.previews`), and what a run of the
`resolve` job knows about them: if it comes to a candidate, its number is ready to be used for
its source, as long as the tags were read before the releases.
-/

namespace GelCli.Release

open GelCli.Foundation

/-! ## Preview tags -/

theorem tagMatch_eq_some {tag : Text} {m : PreviewMatch} :
    tagMatch tag = some m ↔ ∃ version, tag = 'v' :: version ∧ previewMatch version = some m := by
  unfold tagMatch
  split
  · simp
  · next hno =>
    simp only [reduceCtorEq, false_iff, not_exists, not_and]
    rintro version rfl
    exact absurd rfl (hno version)

theorem tagMatch_injective {tag tag' : Text} {m : PreviewMatch} (h : tagMatch tag = some m)
    (h' : tagMatch tag' = some m) : tag = tag' := by
  obtain ⟨version, rfl, hversion⟩ := tagMatch_eq_some.mp h
  obtain ⟨version', rfl, hversion'⟩ := tagMatch_eq_some.mp h'
  rw [(previewMatch_eq_some.mp hversion).1, (previewMatch_eq_some.mp hversion').1]

/-- A plain version is no preview version. -/
theorem previewMatch_plainText (v : Plain) : previewMatch (plainText v) = none := by
  rw [Option.eq_none_iff_forall_not_mem]
  intro m hm
  have hdash : '-' ∈ plainText v := by
    rw [(previewMatch_eq_some.mp hm).1]
    simp [previewText]
  exact notMem_plainText v (by decide) (by decide) hdash

/-- What the version of a candidate says about its phase. -/
theorem CandidateIdentity.phase_of_match {i : CandidateIdentity} {m : PreviewMatch}
    (hm : previewMatch i.version = some m) : i.phase = some m.phase := by
  obtain ⟨major, -, hfits⟩ := i.valid.fits
  unfold IdentityFields.Fits at hfits
  split at hfits
  · obtain ⟨-, -, v, hv, -⟩ := stableVersion_eq_ok.mp hfits.1
    rw [plainMatch_eq_some.mp hv, previewMatch_plainText] at hm
    cases hm
  · next phase hphase =>
    obtain ⟨m', hm', -, hsame, -⟩ := hfits
    cases hm.symm.trans hm'
    rw [hphase, hsame]

theorem highestNumber_eq {base : Text} {phase : Phase} {tags : List Text} :
    highestNumber base phase tags = 0 ∨
      ∃ tag ∈ tags, tagMatch tag = some ⟨base, phase, highestNumber base phase tags⟩ := by
  have hnumber : ∀ tag n, tagNumber base phase tag = some n →
      tagMatch tag = some ⟨base, phase, n⟩ := by
    intro tag n hn
    obtain ⟨m, hm, hsome⟩ := Option.bind_eq_some_iff.mp hn
    split at hsome
    · next hsame =>
      cases hsome
      rw [hm, ← hsame.1, ← hsame.2]
    · cases hsome
  have hfold : ∀ start, (tags.foldl (fun highest tag =>
      max highest ((tagNumber base phase tag).getD 0)) start = start) ∨
        ∃ tag ∈ tags, tagMatch tag = some ⟨base, phase, tags.foldl (fun highest tag =>
          max highest ((tagNumber base phase tag).getD 0)) start⟩ := by
    induction tags with
    | nil => exact fun _ => Or.inl rfl
    | cons tag tags ih =>
        intro start
        rw [List.foldl_cons]
        rcases ih (max start ((tagNumber base phase tag).getD 0)) with heq | ⟨other, hother, hmatch⟩
        · rw [heq]
          cases hn : tagNumber base phase tag with
          | none => exact Or.inl (Nat.max_eq_left (Nat.zero_le start))
          | some n =>
              rcases Nat.le_total n start with hle | hle
              · exact Or.inl (Nat.max_eq_left hle)
              · refine Or.inr ⟨tag, List.mem_cons_self, ?_⟩
                rw [Option.getD_some, Nat.max_eq_right hle]
                exact hnumber tag n hn
        · exact Or.inr ⟨other, List.mem_cons_of_mem tag hother, hmatch⟩
  exact hfold 0

/-! ## Objects -/

theorem lookup_cons_eq {key other : String} {value : Json} {fields : List (String × Json)} :
    List.lookup other ((key, value) :: fields) =
      if other = key then some value else List.lookup other fields := by
  rw [List.lookup_cons]
  split
  · next heq => rw [if_pos (eq_of_beq heq)]
  · next hne => rw [if_neg (ne_of_beq_false hne)]

theorem get_setField_self {key : String} {value release : Json} (hobj : release.isObj) :
    (setField key value release).get key = value := by
  cases release with
  | obj fields =>
      show (List.lookup key ((key, value) :: _)).getD .null = value
      rw [lookup_cons_eq, if_pos rfl, Option.getD_some]
  | _ => cases hobj

theorem get_setField_of_ne {key other : String} {value release : Json} (hne : other ≠ key) :
    (setField key value release).get other = release.get other := by
  cases release with
  | obj fields =>
      have hlookup : List.lookup other (fields.filter fun field => field.1 ≠ key) =
          List.lookup other fields := by
        induction fields with
        | nil => rfl
        | cons field fields ih =>
            obtain ⟨name, found⟩ := field
            rw [List.filter_cons, lookup_cons_eq]
            by_cases hname : name = key
            · rw [if_neg (by simpa using hname), ih, if_neg fun h => hne (h.trans hname)]
            · rw [if_pos (by simpa using hname), lookup_cons_eq, ih]
      show (List.lookup other ((key, value) :: _)).getD .null = (List.lookup other fields).getD .null
      rw [lookup_cons_eq, if_neg hne, hlookup]
  | _ => rfl

theorem isObj_setField {key : String} {value release : Json} :
    (setField key value release).isObj = release.isObj := by
  cases release <;> rfl

/-! ## The previews that are published -/

section Previews

variable {controller : Controller} {h : Hub}

/-- The numbers and the sources of the previews of a version and phase. -/
def Hub.previews (codec : JsonCodec) (h : Hub) (base : Text) (phase : Phase) : Set (ℕ × Text) :=
  { entry | ∃ id release i, h.releases.get id = some release ∧ release.draft = false ∧
    tagMatch release.tagName = some ⟨base, phase, entry.1⟩ ∧
    releaseIdentity codec (release.json id) = .ok i ∧ i.sourceSnapshot = entry.2 }

/-- A release carries the record of a preview, which can be read. -/
structure CarriesRecord (controller : Controller) (release : HubRelease) (phase : Phase)
    (digest : Text) : Prop where
  prerelease : release.prerelease = true
  record : ∃ asset value,
    (release.assets.reverse.find? fun asset => asset.name = previewRecordName) = some asset ∧
      controller.readRecord asset.bytes = .ok value ∧ value.isObj ∧
      value.get "phase" = phaseJson (some phase) ∧ value.get "source_snapshot" = .str digest

theorem reads_attachAsset (release item : Json) :
    Remote.Reads (attachAsset controller release item) := by
  apply Remote.Reads.ite ?_ (Remote.Reads.pure _)
  apply Remote.Reads.bind (Remote.Reads.ofExcept _)
  intro id
  apply Remote.Reads.bind (reads_downloadAsset _)
  intro bytes
  exact Remote.Reads.bind (Remote.Reads.ofExcept _) fun record => Remote.Reads.pure _

theorem reads_attachRecords (release : Json) : Remote.Reads (attachRecords controller release) :=
  Remote.Reads.ite (Remote.Reads.pure _) (Remote.Reads.foldlM reads_attachAsset release)

/-- The last record of a release is the one that is attached. -/
theorem view_attachAssets {assets : List HubAsset} {release attached : Json}
    (hobj : release.isObj)
    (hview : Remote.view ((assets.map HubAsset.json).foldlM (attachAsset controller) release) h =
      .ok attached) :
    attached.isObj ∧ (∀ key, key ≠ "candidate" → attached.get key = release.get key) ∧
      ∀ asset, (assets.reverse.find? fun asset => asset.name = previewRecordName) = some asset →
        ∃ bytes, (h.asset? asset.id).map HubAsset.bytes = some bytes ∧
          controller.readRecord bytes = .ok (attached.get "candidate") := by
  induction assets using List.reverseRecOn generalizing attached with
  | nil =>
      cases hview
      exact ⟨hobj, fun _ _ => rfl, fun asset hasset => by cases hasset⟩
  | append_singleton assets last ih =>
      rw [List.map_append, List.foldlM_append] at hview
      obtain ⟨before, hbefore, hview⟩ :=
        (Remote.view_bind_eq_ok (Remote.Reads.foldlM reads_attachAsset release)).mp hview
      obtain ⟨hobj', hsame, hlast⟩ := ih hbefore
      have hone : Remote.view (attachAsset controller before last.json) h = .ok attached := by
        simpa using hview
      have hname : (last.json.get "name").str? = some last.name := rfl
      rw [List.reverse_append, List.reverse_singleton, List.singleton_append]
      unfold attachAsset at hone
      rw [hname] at hone
      by_cases hrecord : last.name = previewRecordName
      · rw [if_pos (congrArg some hrecord)] at hone
        obtain ⟨id, hid, hone⟩ := Remote.view_ofExcept_bind_eq_ok.mp hone
        obtain ⟨bytes, hbytes, hone⟩ := Remote.view_read_bind_eq_ok.mp hone
        obtain ⟨record, hread, hone⟩ := Remote.view_ofExcept_bind_eq_ok.mp hone
        cases hone
        have hlastId : id = last.id := by
          have hsome : last.json.get "id" = .num last.id := rfl
          rw [hsome] at hid
          exact (Option.some.inj (expect_eq_ok.mp hid)).symm
        refine ⟨isObj_setField.trans hobj', fun key hkey => ?_, fun asset hasset => ?_⟩
        · rw [get_setField_of_ne hkey, hsame key hkey]
        · rw [List.find?_cons_of_pos (by simpa using hrecord)] at hasset
          cases hasset
          rw [hlastId] at hbytes
          refine ⟨bytes, expect_eq_ok.mp hbytes, ?_⟩
          rw [get_setField_self hobj', hread]
      · rw [if_neg fun hsome => hrecord (Option.some.inj hsome)] at hone
        cases hone
        refine ⟨hobj', hsame, fun asset hasset => hlast asset ?_⟩
        rwa [List.find?_cons_of_neg (by simpa using hrecord)] at hasset

theorem view_attachRecords {id : ℤ} {release : HubRelease} {attached : Json}
    (hview : Remote.view (attachRecords controller (release.json id)) h = .ok attached) :
    attached.isObj ∧
      (∀ key, key ≠ "candidate" → attached.get key = (release.json id).get key) ∧
      (release.draft = false → ∀ asset,
        (release.assets.reverse.find? fun asset => asset.name = previewRecordName) = some asset →
          ∃ bytes, (h.asset? asset.id).map HubAsset.bytes = some bytes ∧
            controller.readRecord bytes = .ok (attached.get "candidate")) := by
  have hdraft : ((release.json id).get "draft").bool? = some release.draft := rfl
  have hassets : ((release.json id).get "assets").arr?.getD [] =
      release.assets.map HubAsset.json := rfl
  unfold attachRecords at hview
  rw [hdraft, hassets] at hview
  split at hview
  · next htrue =>
    cases hview
    refine ⟨rfl, fun _ _ => rfl, fun hfalse => ?_⟩
    rw [hfalse] at htrue
    cases htrue
  · obtain ⟨hobj, hsame, hlast⟩ := view_attachAssets rfl hview
    exact ⟨hobj, hsame, fun _ => hlast⟩

/-- The releases that a resolution is given. -/
structure Attached (controller : Controller) (h : Hub) (releases : List Json) : Prop where
  sound : ∀ x ∈ releases, ∃ id release, h.releases.get id = some release ∧
    Remote.view (attachRecords controller (release.json id)) h = .ok x
  complete : ∀ id release, h.releases.get id = some release → ∃ x ∈ releases,
    Remote.view (attachRecords controller (release.json id)) h = .ok x

theorem attached_of_view {releases : List Json}
    (hview : Remote.view ((h.releases.items.map fun item => item.2.json item.1).mapM
      (attachRecords controller)) h = .ok releases) : Attached controller h releases := by
  rw [Remote.view_mapM fun release _ => reads_attachRecords release, mapM_eq_ok,
    List.forall₂_map_left_iff] at hview
  constructor
  · intro x hx
    obtain ⟨item, hitem, hok⟩ := exists_mem_of_forall₂ hview.flip hx
    exact ⟨item.1, item.2, Dict.get_eq_some.mpr hitem, hok⟩
  · intro id release hget
    obtain ⟨x, hx, hok⟩ := exists_mem_of_forall₂ hview (Dict.get_eq_some.mp hget)
    exact ⟨x, hx, hok⟩

theorem Attached.mem_releaseTags {releases : List Json} (hattached : Attached controller h releases)
    {draft : Bool} {tag : Text} :
    tag ∈ releaseTags draft releases ↔ ∃ id release, h.releases.get id = some release ∧
      release.draft = draft ∧ release.tagName = tag := by
  have hshape : ∀ {id : ℤ} {release : HubRelease} {x : Json},
      Remote.view (attachRecords controller (release.json id)) h = .ok x →
        x.isObj ∧ x.get "draft" = .bool release.draft ∧ x.get "tag_name" = .str release.tagName := by
    intro id release x hx
    obtain ⟨hobj, hsame, -⟩ := view_attachRecords hx
    exact ⟨hobj, hsame "draft" (by decide), hsame "tag_name" (by decide)⟩
  have hflag : ∀ found : Bool, decide ((Json.bool found).bool? = some true) = found := by
    intro found
    cases found <;> rfl
  unfold releaseTags
  rw [List.mem_filterMap]
  constructor
  · rintro ⟨x, hx, hsome⟩
    obtain ⟨id, release, hget, hok⟩ := hattached.sound x hx
    obtain ⟨hobj, hdraft, htag⟩ := hshape hok
    rw [hdraft, htag, hflag] at hsome
    split at hsome
    · next hboth => exact ⟨id, release, hget, hboth.2, Option.some.inj hsome⟩
    · cases hsome
  · rintro ⟨id, release, hget, hdraft, htag⟩
    obtain ⟨x, hx, hok⟩ := hattached.complete id release hget
    obtain ⟨hobj, hdraft', htag'⟩ := hshape hok
    refine ⟨x, hx, ?_⟩
    rw [hdraft', htag', hflag, if_pos ⟨hobj, hdraft⟩, ← htag]
    rfl

theorem publishedSnapshot_eq_ok {x : Json} {n : ℕ} {entry : Option (Phase × Text)} {phase : Phase}
    {digest : Text} (hok : publishedSnapshot (x, n) = .ok entry)
    (hdraft : x.get "draft" = .bool false) (hprerelease : x.get "prerelease" = .bool true)
    (hobj : (x.get "candidate").isObj)
    (hphase : (x.get "candidate").get "phase" = phaseJson (some phase))
    (hsnapshot : (x.get "candidate").get "source_snapshot" = .str digest) :
    entry = some (phase, digest) := by
  have hrecord : publishedCandidateRecord x = .ok (some (x.get "candidate")) := by
    unfold publishedCandidateRecord
    cases hcandidate : x.get "candidate" with
    | obj fields => rfl
    | _ =>
        rw [hcandidate] at hobj
        cases hobj
  obtain ⟨-, hok⟩ := require_bind_eq_ok.mp hok
  rw [if_neg (by simp [hdraft, hprerelease, Json.bool?])] at hok
  obtain ⟨found, hfound, hok⟩ := bind_eq_ok.mp hok
  cases hrecord.symm.trans hfound
  obtain ⟨active, hactive, hok⟩ := expect_bind_eq_ok.mp hok
  obtain ⟨source, hsource, hok⟩ := expect_bind_eq_ok.mp hok
  cases hok
  rw [hphase] at hactive
  rw [hsnapshot] at hsource
  have hname : Phase.ofName? phase.name = some active := hactive
  obtain rfl : digest = source := (Option.filter_eq_some_iff.mp hsource).1 |> Option.some.inj
  rw [Phase.ofName?_name] at hname
  rw [Option.some.inj hname]

/-- A published preview whose record can be read is among the published snapshots. -/
theorem Attached.mem_publishedSnapshots {releases : List Json} {published : List (Phase × Text)}
    (hattached : Attached controller h releases) (hapart : h.AssetsApart)
    (hpublished : publishedSnapshots releases = .ok published) {id : ℤ} {release : HubRelease}
    {phase : Phase} {digest : Text} (hget : h.releases.get id = some release)
    (hdraft : release.draft = false) (hrecorded : CarriesRecord controller release phase digest) :
    (phase, digest) ∈ published := by
  obtain ⟨x, hx, hok⟩ := hattached.complete id release hget
  obtain ⟨hobj, hsame, hlast⟩ := view_attachRecords hok
  obtain ⟨asset, value, hfind, hread, hvalue, hphase, hsnapshot⟩ := hrecorded.record
  have hmem : asset ∈ release.assets := List.mem_reverse.mp (List.mem_of_find?_eq_some hfind)
  obtain ⟨bytes, hbytes, hcandidate⟩ := hlast hdraft asset hfind
  rw [Hub.asset?_eq_some hapart hget hmem] at hbytes
  cases hbytes
  have hattach : x.get "candidate" = value := Except.ok.inj (hcandidate.symm.trans hread)
  have hdraft' : x.get "draft" = .bool false := (hsame "draft" (by decide)).trans
    (congrArg Json.bool hdraft)
  have hprerelease : x.get "prerelease" = .bool true := (hsame "prerelease" (by decide)).trans
    (congrArg Json.bool hrecorded.prerelease)
  obtain ⟨n, hn⟩ := List.getElem?_of_mem hx
  unfold publishedSnapshots at hpublished
  cases hentries : releases.zipIdx.mapM publishedSnapshot with
  | error e =>
      rw [hentries] at hpublished
      cases hpublished
  | ok entries =>
      rw [hentries] at hpublished
      cases hpublished
      obtain ⟨entry, hentry, hone⟩ := exists_mem_of_forall₂ (mapM_eq_ok.mp hentries)
        ((List.mem_zipIdx_iff_getElem? (x := (x, n))).mpr hn)
      rw [List.reduceOption_mem_iff, ← publishedSnapshot_eq_ok hone hdraft' hprerelease
        (hattach ▸ hvalue) (hattach ▸ hphase) (hattach ▸ hsnapshot)]
      exact hentry

/-- **A resolution that comes to a preview has chosen a number that is ready.** -/
theorem ready_of_resolvePreview {releases : List Json} {tags : List Text} {live : ReleasePr}
    {digest stable : Text} {phase : Phase} {published : List (Phase × Text)}
    {i : CandidateIdentity} {v : Plain}
    (hattached : Attached controller h releases) (hapart : h.AssetsApart)
    (hsound : Series.Sound (h.previews controller.codec stable phase))
    (hunique : ∀ id id' release release', h.releases.get id = some release →
      h.releases.get id' = some release' → (tagMatch release.tagName).isSome →
        release'.tagName = release.tagName → id = id')
    (hidentified : ∀ id release m, h.releases.get id = some release →
      tagMatch release.tagName = some m → ∃ i, releaseIdentity controller.codec (release.json id) =
        .ok i ∧ (release.draft = false → CarriesRecord controller release m.phase i.sourceSnapshot))
    (htags : ∀ tag ∈ tags, (tagMatch tag).isSome → ∃ id release,
      h.releases.get id = some release ∧ release.tagName = tag)
    (hstable : stable = plainText v)
    (hpublished : publishedSnapshots releases = .ok published)
    (hok : resolvePreview live digest stable phase tags releases published = .ok (some i)) :
    i.sourceSnapshot = digest ∧ ∃ n, previewMatch i.version = some ⟨stable, phase, n⟩ ∧
      Series.Ready (h.previews controller.codec stable phase) n digest := by
  obtain ⟨found, hnext, hok⟩ := bind_eq_ok.mp hok
  cases found with
  | none => cases hok
  | some selected =>
      obtain ⟨identity, hmake, hok⟩ := bind_eq_ok.mp hok
      cases hok
      obtain ⟨hfields, -⟩ := CandidateIdentity.make_args_eq_ok.mp hmake
      obtain ⟨-, hnext⟩ := require_bind_eq_ok.mp hnext
      obtain ⟨-, hnext⟩ := require_bind_eq_ok.mp hnext
      split at hnext
      · cases hnext
      · next hnew =>
        cases hnext
        have hversion : i.version = previewText ⟨stable, phase,
            highestNumber stable phase (publishedTagInventory tags releases) + 1⟩ :=
          congrArg IdentityFields.version hfields
        refine ⟨congrArg IdentityFields.sourceSnapshot hfields,
          highestNumber stable phase (publishedTagInventory tags releases) + 1, ?_,
          hsound.ready ?_ ?_⟩
        · rw [hversion]
          exact previewMatch_previewText hstable (Nat.succ_pos _)
        · -- the greatest number is that of a tag, and the tag is that of a published release
          rcases highestNumber_eq with hzero | ⟨tag, htag, hmatch⟩
          · exact Or.inl hzero
          · obtain ⟨htag, hinventory⟩ := List.mem_filter.mp htag
            rw [decide_eq_true_iff] at hinventory
            obtain ⟨id, release, hget, hname⟩ := htags tag htag (by rw [hmatch]; rfl)
            have hdraft : release.draft = false := by
              by_contra htrue
              rw [Bool.not_eq_false] at htrue
              have hin : tag ∈ releaseTags true releases :=
                hattached.mem_releaseTags.mpr ⟨id, release, hget, htrue, hname⟩
              rcases hinventory with hout | hother
              · exact hout hin
              · obtain ⟨id', release', hget', hfalse, hname'⟩ := hattached.mem_releaseTags.mp hother
                obtain rfl := hunique id id' release release' hget hget'
                  (by rw [hname, hmatch]; rfl) (hname'.trans hname.symm)
                cases hget.symm.trans hget'
                rw [htrue] at hfalse
                cases hfalse
            have hmatch' := hmatch
            rw [← hname] at hmatch'
            obtain ⟨found, hfound, -⟩ := hidentified id release _ hget hmatch'
            exact Or.inr ⟨found.sourceSnapshot, id, release, found, hget, hdraft, hmatch', hfound, rfl⟩
        · rintro n ⟨id, release, found, hget, hdraft, hmatch, hfound, hdigest⟩
          obtain ⟨found', hfound', hrecorded⟩ := hidentified id release _ hget hmatch
          cases hfound.symm.trans hfound'
          have hin := hattached.mem_publishedSnapshots hapart hpublished hget hdraft
            (hrecorded hdraft)
          rw [hdigest] at hin
          exact hnew hin

end Previews

end GelCli.Release
