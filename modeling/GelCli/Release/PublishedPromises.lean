import GelCli.Release.DistributionChecks
import GelCli.Release.PublishRetry

/-!
# The promises of a published manifest

`gel-registry.json` is the contract between a release and the registry, which downloads what it
refers to. Whatever becomes of a publication, the manifest of what it publishes refers to
assets of that release, with the digests of the bytes that these assets have.
-/

namespace GelCli.Release

open GelCli.Foundation

/-! ## What a release serves -/

/-- The bytes that are downloaded for an asset of a release. -/
def Hub.Serves (h : Hub) (release : HubRelease) (name : Text) (bytes : List UInt8) : Prop :=
  ∃ asset ∈ release.assets, asset.name = name ∧
    (h.asset? asset.id).map HubAsset.bytes = some bytes

/-- An install ref is the address of a file that the release serves, with its digests. -/
def RefServed (dist : DistTooling) (h : Hub) (version : Text) (release : HubRelease)
    (ref : Json) : Prop :=
  ∃ name ∈ registryNames, ∃ bytes,
    ref.get "ref" = .str (releaseDownloadUrl dist.repository version name) ∧
      h.Serves release name bytes ∧ PromisedBy dist.hashlib ref bytes

/-- The release of a version serves a manifest, and whatever that promises. -/
structure KeepsPromises (dist : DistTooling) (h : Hub) (version : Text) (release : HubRelease) :
    Prop where
  tag : release.tagName = 'v' :: version
  manifest : ∃ bytes manifest packages, h.Serves release registryManifestName bytes ∧
    dist.loads bytes = .ok manifest ∧ dist.validate manifest = .ok ⟨⟩ ∧
      packagesOf manifest = .ok packages ∧ ∀ package ∈ packages, ∃ installRefs,
        package.get "installrefs" = .arr installRefs ∧
          ∀ ref ∈ installRefs, RefServed dist h version release ref

/-- The tooling, with these checks of a distribution. -/
def Checkout.checking (checkout : Checkout) (dist : DistTooling) : Checkout :=
  { checkout with
    hashlib := dist.hashlib
    distribution := distribution dist }

section Promises

variable {dist : DistTooling} {checkout : Checkout} {record : CandidateRecord} {target : Text}
  {h h' t : Hub}

/-- The files that are downloaded are the assets of the record, each with the bytes that its id
leads to. -/
theorem eq_downloadedAs {files : List Downloaded} (hentries : files.map Prod.fst = record.assets)
    (hbytes : ∀ file ∈ files, (h.asset? file.1.id).map HubAsset.bytes = some file.2) :
    ∃ bytes, files = downloadedAs record bytes ∧ ∀ asset found,
      (h.asset? asset.id).map HubAsset.bytes = some found → bytes asset = found := by
  obtain ⟨bytes, hdownloaded⟩ : ∃ bytes : CandidateAsset → List UInt8, ∀ asset found,
      (h.asset? asset.id).map HubAsset.bytes = some found → bytes asset = found := by
    refine ⟨fun asset => ((h.asset? asset.id).map HubAsset.bytes).getD [], ?_⟩
    intro asset found hfound
    simp only [hfound, Option.getD_some]
  have hsame : ∀ file ∈ files, file = (file.1, bytes file.1) := by
    intro file hfile
    rw [hdownloaded file.1 file.2 (hbytes file hfile)]
  refine ⟨bytes, ?_, hdownloaded⟩
  calc files = files.map fun file => (file.1, bytes file.1) :=
        (List.map_id files).symm.trans (List.map_congr_left hsame)
    _ = (files.map Prod.fst).map fun asset => (asset, bytes asset) := by
        rw [List.map_map]
        rfl
    _ = downloadedAs record bytes := by
        rw [hentries]
        rfl

/-- A draft that is ready keeps its promises. -/
theorem DraftReady.promises (hready : DraftReady (checkout.checking dist).toTooling record target h)
    {release : HubRelease} (hget : h.releases.get record.draftReleaseId = some release) :
    KeepsPromises dist h record.version release := by
  obtain ⟨release', hget', htag, -, -, -, -, -, hremote, -⟩ := hready.release
  cases hget.symm.trans hget'
  obtain ⟨files, hentries, hbytes, hok⟩ := hready.distribution
  obtain ⟨bytes, hfiles, hdownloaded⟩ := eq_downloadedAs hentries hbytes
  have hserved : ∀ name found, Foundation.Plain name →
      (downloadDir dist (downloadedAs record bytes)).file name = some found →
        h.Serves release name found := by
    intro name found hplain hfound
    rw [DistDir.file_of_plain hplain, get_downloadDir (plain_assets hready.names)] at hfound
    obtain ⟨entry, hentry, rfl, rfl⟩ := hfound
    obtain ⟨remote, hfind, hremote⟩ := expect_bind_eq_ok.mp (hremote entry hentry)
    obtain ⟨hid, -⟩ := require_bind_eq_ok.mp hremote
    obtain ⟨asset, hasset, -⟩ := hready.digests entry hentry
    refine ⟨remote, List.mem_reverse.mp (List.mem_of_find?_eq_some hfind),
      by simpa using List.find?_some hfind, ?_⟩
    rw [hid, hdownloaded entry asset.bytes (by rw [hasset]; rfl), hasset]
    rfl
  rw [hfiles] at hok
  obtain ⟨haccepted, -⟩ := distribution_eq_ok.mp hok
  obtain ⟨found, manifest, packages, hfound, hloads, hvalid, hpackages, hkept⟩ := haccepted.manifest
  refine ⟨htag.trans record.tag_eq, found, manifest, packages,
    hserved _ _ (plain_manifestName List.mem_cons_self) hfound, hloads, hvalid, hpackages,
    fun package hpackage => ?_⟩
  obtain ⟨-, installRefs, hinstall, hrefs⟩ := hkept package hpackage
  refine ⟨installRefs, hinstall, fun ref href => ?_⟩
  obtain ⟨name, hname, found, hurl, hfile, hpromised⟩ := hrefs ref href
  exact ⟨name, hname, found, hurl, hserved _ _ (plain_registryName hname) hfile, hpromised⟩

/-- Promises are kept where the assets are the same. -/
theorem KeepsPromises.of_assets {version : Text} {release release' : HubRelease}
    (hkept : KeepsPromises dist h version release) (hassets : h'.asset? = h.asset?)
    (htag : release'.tagName = release.tagName) (hsame : release'.assets = release.assets) :
    KeepsPromises dist h' version release' := by
  have hserves : ∀ name bytes, h.Serves release name bytes → h'.Serves release' name bytes := by
    intro name bytes hserves
    unfold Hub.Serves
    rw [hassets, hsame]
    exact hserves
  obtain ⟨bytes, manifest, packages, hmanifest, hloads, hvalid, hpackages, hrefs⟩ := hkept.manifest
  refine ⟨htag.trans hkept.tag, bytes, manifest, packages, hserves _ _ hmanifest, hloads, hvalid,
    hpackages, fun package hpackage => ?_⟩
  obtain ⟨installRefs, hinstall, hserved⟩ := hrefs package hpackage
  refine ⟨installRefs, hinstall, fun ref href => ?_⟩
  obtain ⟨name, hname, found, hurl, hfile, hpromised⟩ := hserved ref href
  exact ⟨name, hname, found, hurl, hserves _ _ hfile, hpromised⟩

/-- The release of a record is as it was, or it keeps its promises. -/
def PromisedOrSame (dist : DistTooling) (record : CandidateRecord) (h h' : Hub) : Prop :=
  h'.releases.get record.draftReleaseId = h.releases.get record.draftReleaseId ∨
    ∃ release, h'.releases.get record.draftReleaseId = some release ∧ release.draft = false ∧
      KeepsPromises dist h' record.version release

theorem SafePublication.promises {checks : Prop}
    (hsafe : SafePublication checks record target h h')
    (hready : checks → DraftReady (checkout.checking dist).toTooling record target h) :
    PromisedOrSame dist record h h' := by
  rcases hsafe.order with rfl | ⟨hchecks, t, htagged, rfl | ⟨release, latest, hget, -, rfl⟩⟩
  · exact Or.inl rfl
  · rw [PromisedOrSame, htagged.frame.1]
    exact Or.inl rfl
  · have hgeth : h.releases.get record.draftReleaseId = some release := by
      rw [← htagged.frame.1, hget]
    refine Or.inr ⟨{ release with draft := false }, (Dict.get_set _ _ _ _).trans (if_pos rfl), rfl, ?_⟩
    refine ((hready hchecks).promises hgeth).of_assets ?_ rfl rfl
    rw [Hub.asset?_withPublished hget, htagged.asset?]

end Promises

/-- **What is published serves what its manifest promises**: a stable or a preview publication,
whatever payloads it is given, whatever the repository holds and whichever calls fail, leaves the
release of its record as it was, or leaves it published with a manifest each of whose install
refs is the address of an asset of that release, with the size and the digests of its bytes. -/
theorem published_promises_kept (dist : DistTooling) (checkout : Checkout) (record : CandidateRecord)
    (release : Json) (w : Remote Hub) :
    (∀ push, PromisedOrSame dist record w.state
      (Remote.leaves (publishStable (checkout.checking dist) record push release) w)) ∧
    ∀ expected livePr, PromisedOrSame dist record w.state
      (Remote.leaves (publishPreview (checkout.checking dist) expected record livePr release
        (some (fetchLivePreviewPr (checkout.checking dist) expected.prNumber))) w) := by
  refine ⟨fun push => ?_, fun expected livePr => ?_⟩
  · exact (publishStable_safe (checkout.checking dist) record push release w).promises
      fun hchecks => hchecks.draft
  · exact (publishPreview_safe (checkout.checking dist) expected record livePr release w).promises
      fun hchecks => hchecks.draft

end GelCli.Release
