import GelCli.Release.Distribution
import GelCli.Release.PublishSafety

/-!
# What the checks of a distribution accept

The checks of the files of a release, one by one and together: a manifest that passes promises,
for each file that it refers to, the digests of that file in the record.
-/

namespace GelCli.Release

open GelCli.Foundation

/-! ## Names -/

theorem plain_registryName {name : Text} (h : name ∈ registryNames) : Foundation.Plain name := by
  have hall : registryNames.all (fun name => decide (name ≠ []) && decide ('/' ∉ name) &&
      decide (name ≠ ['.']) && decide (name ≠ ['.', '.'])) = true := by decide +kernel
  have hname := List.all_eq_true.mp hall name h
  simp only [Bool.and_eq_true, decide_eq_true_eq] at hname
  exact ⟨hname.1.1.1, hname.1.1.2, hname.1.2, hname.2⟩

theorem plain_manifestName {name : Text} (h : name ∈ manifestNames) : Foundation.Plain name := by
  have hall : manifestNames.all (fun name => decide (name ≠ []) && decide ('/' ∉ name) &&
      decide (name ≠ ['.']) && decide (name ≠ ['.', '.'])) = true := by decide +kernel
  have hname := List.all_eq_true.mp hall name h
  simp only [Bool.and_eq_true, decide_eq_true_eq] at hname
  exact ⟨hname.1.1.1, hname.1.1.2, hname.1.2, hname.2⟩

/-- The files of the registry are neither archives or packages nor digest lists. -/
theorem registryName_isolated {name : Text} (h : name ∈ registryNames) :
    ¬ (∃ suffix ∈ distributionSuffixes, suffix <:+ name) ∧ name ∉ digestManifestNames := by
  have hall : registryNames.all (fun name =>
      distributionSuffixes.all (fun suffix => !decide (suffix <:+ name)) &&
        decide (name ∉ digestManifestNames)) = true := by decide +kernel
  have hname := List.all_eq_true.mp hall name h
  simp only [Bool.and_eq_true, List.all_eq_true, Bool.not_eq_true', decide_eq_false_iff_not,
    decide_eq_true_eq] at hname
  refine ⟨?_, hname.2⟩
  rintro ⟨suffix, hsuffix, hends⟩
  exact hname.1 suffix hsuffix hends

theorem mem_expectedAssets {version name : Text} : name ∈ expectedAssets version ↔
    name ∈ registryNames ∨ (∃ target ∈ targets, name = archiveName version target ∨
      debName? version target = some name ∨ rpmName? version target = some name) ∨
        name ∈ manifestNames := by
  unfold expectedAssets registryNames registryTargets
  simp only [Text.mem_sorted, List.mem_append, List.mem_flatMap, List.mem_cons, Option.mem_toList,
    or_assoc]

/-! ## Names on one line -/

/-- A character of the name of an asset. -/
def assetChar (c : Char) : Bool := !Text.isLineBoundary c && decide (c ≠ '/')

theorem oneLine_of_assetChars {t : Text} (h : t.all assetChar = true) : Text.OneLine t := by
  intro c hc
  have hchar := List.all_eq_true.mp h c hc
  simpa using (Bool.and_eq_true_iff.mp hchar).1

theorem assetChar_of_isDigit {c : Char} (h : c.isDigit = true) : assetChar c = true := by
  have hnone : ['\n', '\r', '\x0b', '\x0c', '\x1c', '\x1d', '\x1e', '\u0085', '\u2028',
      '\u2029'].all (fun b => !b.isDigit) = true := by decide +kernel
  refine Bool.and_eq_true_iff.mpr ⟨?_, decide_eq_true fun hslash => ?_⟩
  · rw [Bool.not_eq_true', Bool.eq_false_iff]
    intro hboundary
    have hdigit := List.all_eq_true.mp hnone c (List.contains_iff_mem.mp hboundary)
    rw [h] at hdigit
    cases hdigit
  · rw [hslash] at h
    exact absurd h (by decide)

theorem assetChars_plainText (v : Plain) : (plainText v).all assetChar = true := by
  refine List.all_eq_true.mpr fun c hc => ?_
  by_cases hdigit : c.isDigit = true
  · exact assetChar_of_isDigit hdigit
  · by_cases hdot : c = '.'
    · rw [hdot]
      decide
    · exact absurd hc (notMem_plainText v hdigit hdot)

theorem assetChars_version {version : Text}
    (h : (plainMatch version).isSome = true ∨ (previewMatch version).isSome = true) :
    version.all assetChar = true := by
  rcases h with h | h
  · obtain ⟨v, hv⟩ := Option.isSome_iff_exists.mp h
    rw [plainMatch_eq_some.mp hv]
    exact assetChars_plainText v
  · obtain ⟨m, hm⟩ := Option.isSome_iff_exists.mp h
    obtain ⟨rfl, ⟨v, hbase⟩, -⟩ := previewMatch_eq_some.mp hm
    have hphase : m.phase.name.all assetChar = true := by
      cases m.phase <;> decide +kernel
    have hnumber : (Decimal.ofNat m.number).all assetChar = true := by
      refine List.all_eq_true.mpr fun c hc => ?_
      by_cases hdigit : c.isDigit = true
      · exact assetChar_of_isDigit hdigit
      · exact absurd hc (Decimal.notMem_of_numeral (Decimal.numeral_ofNat _) hdigit)
    have hdash : assetChar '-' = true := by decide
    have hdot : assetChar '.' = true := by decide
    simp only [previewText, hbase, List.all_append, List.all_cons, assetChars_plainText, hphase,
      hnumber, hdash, hdot, Bool.and_self]

theorem form_of_versionMatch {version : Text} {m : Plain × Option (Phase × ℕ)}
    (h : versionMatch version = some m) :
    (plainMatch version).isSome = true ∨ (previewMatch version).isSome = true := by
  unfold versionMatch at h
  split at h
  · next v hplain => exact Or.inl (by rw [hplain]; rfl)
  · obtain ⟨preview, hpreview, -⟩ := Option.bind_eq_some_iff.mp h
    exact Or.inr (by rw [hpreview]; rfl)

/-- The name of a package begins with a `g`, and has no slash. -/
theorem package_name {version name : Text} {target : Target} (htarget : target ∈ targets)
    (h : version.all assetChar = true) (hname : name = archiveName version target ∨
      debName? version target = some name ∨ rpmName? version target = some name) :
    name.head? = some 'g' ∧ name.all assetChar = true := by
  have htargets : targets.all (fun target => target.triple.all assetChar &&
      target.archiveExt.all assetChar && (target.debArch.getD []).all assetChar &&
        (target.rpmArch.getD []).all assetChar) = true := by decide +kernel
  have hparts := List.all_eq_true.mp htargets target htarget
  simp only [Bool.and_eq_true] at hparts
  obtain ⟨⟨⟨htriple, hext⟩, hdeb⟩, hrpm⟩ := hparts
  have hdash : assetChar '-' = true := by decide
  have hdot : assetChar '.' = true := by decide
  have hline : assetChar '_' = true := by decide
  rcases hname with rfl | hname | hname
  · have harchive : archiveName version target = "gel-v".toList ++ version ++
        '-' :: target.triple ++ '.' :: target.archiveExt := rfl
    have hstart : ("gel-v".toList).all assetChar = true := by decide +kernel
    obtain ⟨rest, hrest⟩ : ∃ rest, "gel-v".toList = 'g' :: rest :=
      List.head?_eq_some_iff.mp (by decide +kernel)
    refine ⟨by rw [harchive, hrest]; rfl, ?_⟩
    simp only [harchive, List.all_append, List.all_cons, hstart, h, hdash, hdot, htriple, hext,
      Bool.and_self]
  · obtain ⟨arch, harch, rfl⟩ := Option.map_eq_some_iff.mp hname
    rw [harch, Option.getD_some] at hdeb
    have hstart : ("gel_".toList).all assetChar = true := by decide +kernel
    have hend : (".deb".toList).all assetChar = true := by decide +kernel
    obtain ⟨rest, hrest⟩ : ∃ rest, "gel_".toList = 'g' :: rest :=
      List.head?_eq_some_iff.mp (by decide +kernel)
    refine ⟨by rw [hrest]; rfl, ?_⟩
    simp only [List.all_append, List.all_cons, hstart, h, hline, hdeb, hend, Bool.and_self]
  · obtain ⟨arch, harch, rfl⟩ := Option.map_eq_some_iff.mp hname
    rw [harch, Option.getD_some] at hrpm
    have hstart : ("gel-".toList).all assetChar = true := by decide +kernel
    have hmiddle : ("-1.".toList).all assetChar = true := by decide +kernel
    have hend : (".rpm".toList).all assetChar = true := by decide +kernel
    obtain ⟨rest, hrest⟩ : ∃ rest, "gel-".toList = 'g' :: rest :=
      List.head?_eq_some_iff.mp (by decide +kernel)
    refine ⟨by rw [hrest]; rfl, ?_⟩
    simp only [List.all_append, hstart, h, hmiddle, hrpm, hend, Bool.and_self]

theorem expectedAsset_name {version name : Text} (h : version.all assetChar = true)
    (hname : name ∈ expectedAssets version) :
    Foundation.Plain name ∧ name.all assetChar = true := by
  have hfixed : (registryNames ++ manifestNames).all (·.all assetChar) = true := by decide +kernel
  rcases mem_expectedAssets.mp hname with hregistry | ⟨target, htarget, hpackage⟩ | hmanifest
  · exact ⟨plain_registryName hregistry,
      List.all_eq_true.mp hfixed name (List.mem_append_left _ hregistry)⟩
  · obtain ⟨hhead, hchars⟩ := package_name htarget h hpackage
    refine ⟨⟨?_, fun hslash => ?_, ?_, ?_⟩, hchars⟩
    · rintro rfl
      cases hhead
    · exact absurd (List.all_eq_true.mp hchars '/' hslash) (by decide)
    · rintro rfl
      exact absurd hhead (by decide)
    · rintro rfl
      exact absurd hhead (by decide)
  · exact ⟨plain_manifestName hmanifest,
      List.all_eq_true.mp hfixed name (List.mem_append_right _ hmanifest)⟩

/-! ## The checks -/

section Checks

variable {tooling : DistTooling} {version : Text} {dir : DistDir}

theorem checkRef_eq_ok {ref : Text} : checkRef tooling version ref = .ok ⟨⟩ ↔
    ∃ name ∈ registryNames, ref = releaseDownloadUrl tooling.repository version name := by
  unfold checkRef
  simp only [expect_bind_eq_ok, require_bind_eq_ok, require_eq_ok,
    List.isPrefixOf?_eq_some_iff_append_eq]
  constructor
  · rintro ⟨name, hname, -, hregistry⟩
    exact ⟨name, hregistry, hname.symm⟩
  · rintro ⟨name, hregistry, rfl⟩
    exact ⟨name, rfl, registryName_isolated hregistry, hregistry⟩

/-- What the promises of an install ref are. -/
def PromisedBy (hashlib : Hashlib) (ref : Json) (bytes : List UInt8) : Prop :=
  (ref.get "verification").get "blake2b" = .str (hashlib.blake2b bytes) ∧
    (ref.get "verification").get "sha256" = .str (hashlib.sha256 bytes) ∧
    (ref.get "verification").get "size" = .num bytes.length

theorem checkRefDigests_eq_ok {ref : Json} : checkRefDigests tooling dir ref = .ok ⟨⟩ ↔
    ∃ url bytes, ref.get "ref" = .str url ∧ dir.file (namePart url) = some bytes ∧
      PromisedBy tooling.hashlib ref bytes := by
  constructor
  · intro h
    obtain ⟨url, hurl, h⟩ := expect_bind_eq_ok.mp h
    obtain ⟨bytes, hbytes, h⟩ := expect_bind_eq_ok.mp h
    obtain ⟨hblake, h⟩ := require_bind_eq_ok.mp h
    obtain ⟨hsha, h⟩ := require_bind_eq_ok.mp h
    have hsize := require_eq_ok.mp h
    rw [Json.str?_eq_some] at hurl hblake hsha
    rw [Json.int?_eq_some] at hsize
    exact ⟨url, bytes, hurl, hbytes, hblake, hsha, hsize⟩
  · rintro ⟨url, bytes, hurl, hbytes, hblake, hsha, hsize⟩
    refine expect_bind_eq_ok.mpr ⟨url, Json.str?_eq_some.mpr hurl, ?_⟩
    refine expect_bind_eq_ok.mpr ⟨bytes, hbytes, ?_⟩
    refine require_bind_eq_ok.mpr ⟨Json.str?_eq_some.mpr hblake, ?_⟩
    refine require_bind_eq_ok.mpr ⟨Json.str?_eq_some.mpr hsha, ?_⟩
    exact require_pos (Json.int?_eq_some.mpr hsize)

theorem packagesOf_eq_ok {manifest : Json} {packages : List Json} :
    packagesOf manifest = .ok packages ↔ ∃ fragments found,
      (manifest.get "indexes").arr? = some fragments ∧
        fragments.mapM (fun fragment => itemsOf fragment "packages") = .ok found ∧
          packages = found.flatten := by
  unfold packagesOf
  rw [bind_eq_ok]
  simp only [itemsOf, expect_eq_ok, bind_eq_ok, ← exists_and_left]
  refine exists_congr fun fragments => exists_congr fun found => ?_
  refine and_congr_right fun _ => and_congr_right fun _ => ?_
  exact ⟨fun h => (Except.ok.inj h).symm, fun h => congrArg Except.ok h.symm⟩

theorem refsOf_eq_ok {package : Json} {refs : List Text} : refsOf package = .ok refs ↔
    ∃ first installRefs rest, package.get "installref" = .str first ∧
      package.get "installrefs" = .arr installRefs ∧
        List.Forall₂ (fun ref url => ref.get "ref" = .str url) installRefs rest ∧
          refs = first :: rest := by
  unfold refsOf textOf itemsOf
  simp only [bind_eq_ok, mapM_eq_ok, expect_eq_ok, Json.str?_eq_some, Json.arr?_eq_some]
  constructor
  · rintro ⟨first, hfirst, installRefs, hrefs, rest, hrest, hok⟩
    exact ⟨first, installRefs, rest, hfirst, hrefs, hrest, (Except.ok.inj hok).symm⟩
  · rintro ⟨first, installRefs, rest, hfirst, hrefs, hrest, rfl⟩
    exact ⟨first, hfirst, installRefs, hrefs, rest, hrest, rfl⟩

theorem namePart_url {name : Text} (h : '/' ∉ name) (repository version : Text) :
    namePart (releaseDownloadUrl repository version name) = name := by
  have hstart : namePart (releaseDownloadPrefix repository version) = [] := by
    unfold namePart releaseDownloadPrefix
    exact List.rtakeWhile_concat_neg _ _ _ (by decide)
  rw [releaseDownloadUrl, namePart_append h, hstart, List.nil_append]

theorem checkManifestUrls_eq_ok {manifest : Json} :
    checkManifestUrls tooling manifest version = .ok ⟨⟩ ↔
      ∃ packages, packagesOf manifest = .ok packages ∧ ∀ package ∈ packages,
        ∃ refs, refsOf package = .ok refs ∧ ∀ ref ∈ refs, ∃ name ∈ registryNames,
          ref = releaseDownloadUrl tooling.repository version name := by
  unfold checkManifestUrls
  rw [bind_eq_ok]
  simp only [mapM_flatten_forM_eq_ok, checkRef_eq_ok]

theorem checkManifestDigests_eq_ok {manifest : Json} :
    checkManifestDigests tooling manifest dir = .ok ⟨⟩ ↔
      ∃ packages, packagesOf manifest = .ok packages ∧ ∀ package ∈ packages,
        ∃ installRefs, package.get "installrefs" = .arr installRefs ∧ ∀ ref ∈ installRefs,
          ∃ url bytes, ref.get "ref" = .str url ∧ dir.file (namePart url) = some bytes ∧
            PromisedBy tooling.hashlib ref bytes := by
  unfold checkManifestDigests
  rw [bind_eq_ok]
  simp only [mapM_flatten_forM_eq_ok, checkRefDigests_eq_ok, itemsOf, expect_eq_ok,
    Json.arr?_eq_some]

/-- The promises of a package: its install refs are of files of the registry, and each tells
the digests of its file. -/
structure PackageKept (tooling : DistTooling) (version : Text) (dir : DistDir) (package : Json) :
    Prop where
  installref : ∃ name ∈ registryNames,
    package.get "installref" = .str (releaseDownloadUrl tooling.repository version name)
  installrefs : ∃ installRefs, package.get "installrefs" = .arr installRefs ∧
    ∀ ref ∈ installRefs, ∃ name ∈ registryNames, ∃ bytes,
      ref.get "ref" = .str (releaseDownloadUrl tooling.repository version name) ∧
        dir.file name = some bytes ∧ PromisedBy tooling.hashlib ref bytes

/-- The refs of a package that keeps its promises are those of files of the registry. -/
theorem PackageKept.refs {package : Json} (hkept : PackageKept tooling version dir package) :
    ∃ refs, refsOf package = .ok refs ∧ ∀ ref ∈ refs, ∃ name ∈ registryNames,
      ref = releaseDownloadUrl tooling.repository version name := by
  obtain ⟨⟨name, hname, hfirst⟩, installRefs, hinstall, hrefsKept⟩ := hkept
  have hexists : ∀ ref ∈ installRefs, ∃ url, textOf ref "ref" = .ok url := by
    intro ref href
    obtain ⟨name, -, -, hget, -⟩ := hrefsKept ref href
    exact ⟨_, expect_eq_ok.mpr (Json.str?_eq_some.mpr hget)⟩
  obtain ⟨rest, hrest⟩ := exists_mapM_ok.mpr hexists
  have hrefs : List.Forall₂ (fun ref url => ref.get "ref" = .str url) installRefs rest :=
    (mapM_eq_ok.mp hrest).imp fun ref url h => Json.str?_eq_some.mp (expect_eq_ok.mp h)
  refine ⟨_, refsOf_eq_ok.mpr ⟨_, installRefs, rest, hfirst, hinstall, hrefs, rfl⟩, ?_⟩
  refine List.forall_mem_cons.mpr ⟨⟨name, hname, rfl⟩, fun url hurl => ?_⟩
  obtain ⟨ref, href, hget⟩ := exists_mem_of_forall₂ hrefs.flip hurl
  obtain ⟨name, hname, bytes, hget', -⟩ := hrefsKept ref href
  rw [hget] at hget'
  cases hget'
  exact ⟨name, hname, rfl⟩

/-- A package whose refs and digests are both right keeps its promises. -/
theorem PackageKept.of_refs {package : Json} {refs : List Text} {installRefs : List Json}
    (hrefs : refsOf package = .ok refs)
    (hknown : ∀ ref ∈ refs, ∃ name ∈ registryNames,
      ref = releaseDownloadUrl tooling.repository version name)
    (hinstall : package.get "installrefs" = .arr installRefs)
    (hkept : ∀ ref ∈ installRefs, ∃ url bytes, ref.get "ref" = .str url ∧
      dir.file (namePart url) = some bytes ∧ PromisedBy tooling.hashlib ref bytes) :
    PackageKept tooling version dir package := by
  obtain ⟨first, installRefs', rest, hfirst, hinstall', hrest, rfl⟩ := refsOf_eq_ok.mp hrefs
  rw [hinstall] at hinstall'
  cases hinstall'
  obtain ⟨name, hname, hurl⟩ := hknown first List.mem_cons_self
  refine ⟨⟨name, hname, hurl ▸ hfirst⟩, installRefs, hinstall, fun ref href => ?_⟩
  obtain ⟨url, hmem, hget⟩ := exists_mem_of_forall₂ hrest href
  obtain ⟨name, hname, rfl⟩ := hknown url (List.mem_cons_of_mem _ hmem)
  obtain ⟨url', bytes, hget', hfile, hpromised⟩ := hkept ref href
  rw [hget] at hget'
  cases hget'
  rw [namePart_url (plain_registryName hname).noSlash] at hfile
  exact ⟨name, hname, bytes, hget, hfile, hpromised⟩

/-- The two checks of a manifest together. -/
theorem checkManifest_eq_ok {manifest : Json} :
    checkManifestUrls tooling manifest version = .ok ⟨⟩ ∧
        checkManifestDigests tooling manifest dir = .ok ⟨⟩ ↔
      ∃ packages, packagesOf manifest = .ok packages ∧
        ∀ package ∈ packages, PackageKept tooling version dir package := by
  rw [checkManifestUrls_eq_ok, checkManifestDigests_eq_ok]
  constructor
  · rintro ⟨⟨packages, hpackages, hall⟩, packages', hpackages', hall'⟩
    rw [hpackages] at hpackages'
    cases hpackages'
    refine ⟨packages, hpackages, fun package hpackage => ?_⟩
    obtain ⟨refs, hrefs, hknown⟩ := hall package hpackage
    obtain ⟨installRefs, hinstall, hkept⟩ := hall' package hpackage
    exact PackageKept.of_refs hrefs hknown hinstall hkept
  · rintro ⟨packages, hpackages, hall⟩
    refine ⟨⟨packages, hpackages, fun package hpackage => (hall package hpackage).refs⟩,
      packages, hpackages, fun package hpackage => ?_⟩
    obtain ⟨installRefs, hinstall, hkept⟩ := (hall package hpackage).installrefs
    refine ⟨installRefs, hinstall, fun ref href => ?_⟩
    obtain ⟨name, hname, bytes, hget, hfile, hpromised⟩ := hkept ref href
    refine ⟨_, bytes, hget, ?_, hpromised⟩
    rwa [namePart_url (plain_registryName hname).noSlash]

theorem checkSums_eq_ok {name : Text} : checkSums tooling dir name = .ok ⟨⟩ ↔
    ∃ sums, dir.file name = some sums ∧
      Right tooling.hashlib dir.toAssetDir (sumsAlgorithm name) sums := by
  unfold checkSums
  simp only [expect_bind_eq_ok, mapError_eq_ok, verifySums_eq_ok]

/-- The checks of the digest lists and of the manifest. -/
structure DirAccepted (tooling : DistTooling) (version : Text) (dir : DistDir) : Prop where
  sums : ∀ name ∈ digestManifestNames, ∃ sums, dir.file name = some sums ∧
    Right tooling.hashlib dir.toAssetDir (sumsAlgorithm name) sums
  manifest : ∃ bytes manifest packages, dir.file registryManifestName = some bytes ∧
    tooling.loads bytes = .ok manifest ∧ tooling.validate manifest = .ok ⟨⟩ ∧
      packagesOf manifest = .ok packages ∧
        ∀ package ∈ packages, PackageKept tooling version dir package

/-- What is left to check of an accepted directory are the attestations. -/
theorem distribution_of_accepted {record : CandidateRecord} {files : List Downloaded}
    (h : DirAccepted tooling record.version (downloadDir tooling files)) :
    distribution tooling record files = tooling.attestations files record.buildSha := by
  obtain ⟨bytes, manifest, packages, hbytes, hloads, hvalid, hpackages, hkept⟩ := h.manifest
  obtain ⟨hurls, hdigests⟩ := checkManifest_eq_ok.mpr ⟨packages, hpackages, hkept⟩
  have hsums : digestManifestNames.forM (checkSums tooling (downloadDir tooling files)) = .ok ⟨⟩ :=
    forM_eq_ok.mpr fun name hname => checkSums_eq_ok.mpr (h.sums name hname)
  have hfile : expect ((downloadDir tooling files).file registryManifestName)
      "FileNotFoundError" = .ok bytes := expect_eq_ok.mpr hbytes
  unfold distribution
  dsimp only
  rw [hsums, ok_bind, hfile, ok_bind, hloads, ok_bind, hvalid, ok_bind, hurls, ok_bind, hdigests,
    ok_bind]

theorem distribution_eq_ok {record : CandidateRecord} {files : List Downloaded} :
    distribution tooling record files = .ok ⟨⟩ ↔
      DirAccepted tooling record.version (downloadDir tooling files) ∧
        tooling.attestations files record.buildSha = .ok ⟨⟩ := by
  constructor
  · intro h
    obtain ⟨⟨⟩, hsums, h⟩ := bind_eq_ok.mp h
    obtain ⟨bytes, hbytes, h⟩ := expect_bind_eq_ok.mp h
    obtain ⟨manifest, hloads, h⟩ := bind_eq_ok.mp h
    obtain ⟨⟨⟩, hvalid, h⟩ := bind_eq_ok.mp h
    obtain ⟨⟨⟩, hurls, h⟩ := bind_eq_ok.mp h
    obtain ⟨⟨⟩, hdigests, h⟩ := bind_eq_ok.mp h
    obtain ⟨packages, hpackages, hkept⟩ := checkManifest_eq_ok.mp ⟨hurls, hdigests⟩
    exact ⟨⟨fun name hname => checkSums_eq_ok.mp (forM_eq_ok.mp hsums name hname),
      bytes, manifest, packages, hbytes, hloads, hvalid, hpackages, hkept⟩, h⟩
  · rintro ⟨haccepted, hattestations⟩
    rw [distribution_of_accepted haccepted, hattestations]

end Checks

/-! ## The files that were downloaded -/

section Downloads

variable {tooling : DistTooling} {record : CandidateRecord}

/-- The files of a record, each with its bytes. -/
def downloadedAs (record : CandidateRecord) (bytes : CandidateAsset → List UInt8) :
    List Downloaded :=
  record.assets.map fun asset => (asset, bytes asset)

theorem files_downloadDir {files : List Downloaded}
    (h : ∀ file ∈ files, Foundation.Plain file.1.name) :
    (downloadDir tooling files).files =
      (files.map fun file => (file.1.name, file.2)).foldl (fun d x => d.set x.1 x.2) Dict.empty := by
  have hfold : ∀ (files : List Downloaded) (dir : DistDir),
      (∀ file ∈ files, Foundation.Plain file.1.name) →
        (files.foldl (fun dir file => dir.write file.1.name file.2) dir).files =
          (files.map fun file => (file.1.name, file.2)).foldl (fun d x => d.set x.1 x.2)
            dir.files := by
    intro files
    induction files with
    | nil => exact fun dir _ => rfl
    | cons file files ih =>
        intro dir hplain
        obtain ⟨hfile, hrest⟩ := List.forall_mem_cons.mp hplain
        rw [List.foldl_cons, ih _ hrest, DistDir.files_write hfile, List.map_cons, List.foldl_cons]
  exact hfold files (.empty tooling.elsewhere) h

/-- What is found under a name is the asset of that name. -/
theorem get_downloadDir {bytes : CandidateAsset → List UInt8}
    (h : ∀ asset ∈ record.assets, Foundation.Plain asset.name) {name : Text}
    {found : List UInt8} :
    (downloadDir tooling (downloadedAs record bytes)).files.get name = some found ↔
      ∃ asset ∈ record.assets, asset.name = name ∧ bytes asset = found := by
  have hplain : ∀ file ∈ downloadedAs record bytes, Foundation.Plain file.1.name :=
    List.forall_mem_map.mpr h
  have hkeys : (((downloadedAs record bytes).map fun file => (file.1.name, file.2)).map
      Prod.fst).Nodup := by
    rw [downloadedAs, List.map_map, List.map_map]
    exact record.asset_names
  rw [Dict.get_eq_some, files_downloadDir hplain, Dict.mem_items_foldl_set hkeys, downloadedAs,
    List.map_map, List.mem_map]
  simp [Dict.empty, Prod.ext_iff]

/-- The digests of a record are those of the bytes. -/
def DigestsKept (hashlib : Hashlib) (asset : CandidateAsset) (bytes : List UInt8) : Prop :=
  (bytes.length : ℤ) = asset.size ∧ hashlib.sha256 bytes = asset.sha256 ∧
    hashlib.blake2b bytes = asset.blake2b512

theorem verifyRecord_downloadedAs {hashlib : Hashlib} {bytes : CandidateAsset → List UInt8} :
    verifyRecord hashlib record (downloadedAs record bytes) = .ok ⟨⟩ ↔
      Text.sorted (record.assets.map CandidateAsset.name) = expectedAssets record.version ∧
        ∀ asset ∈ record.assets, DigestsKept hashlib asset (bytes asset) := by
  unfold verifyRecord
  rw [require_bind_eq_ok, forM_eq_ok, downloadedAs, List.forall_mem_map]
  refine and_congr_right fun _ => forall₂_congr fun asset _ => checkDigests_eq_ok

theorem plain_assets
    (h : Text.sorted (record.assets.map CandidateAsset.name) = expectedAssets record.version) :
    ∀ asset ∈ record.assets, Foundation.Plain asset.name := by
  intro asset hasset
  have hmem : asset.name ∈ expectedAssets record.version :=
    h ▸ Text.mem_sorted.mpr (List.mem_map_of_mem hasset)
  exact (expectedAsset_name (assetChars_version record.version_form) hmem).1

/-- The promise of an install ref is what the record says of one of its assets. -/
def RecordedRef (tooling : DistTooling) (record : CandidateRecord) (ref : Json) : Prop :=
  ∃ asset ∈ record.assets, asset.name ∈ registryNames ∧
    ref.get "ref" = .str (releaseDownloadUrl tooling.repository record.version asset.name) ∧
      (ref.get "verification").get "blake2b" = .str asset.blake2b512 ∧
        (ref.get "verification").get "sha256" = .str asset.sha256 ∧
          (ref.get "verification").get "size" = .num asset.size

/-- The promises of a package are what the record says of its assets. -/
structure RecordedPackage (tooling : DistTooling) (record : CandidateRecord) (package : Json) :
    Prop where
  installref : ∃ asset ∈ record.assets, asset.name ∈ registryNames ∧
    package.get "installref" =
      .str (releaseDownloadUrl tooling.repository record.version asset.name)
  installrefs : ∃ installRefs, package.get "installrefs" = .arr installRefs ∧
    ∀ ref ∈ installRefs, RecordedRef tooling record ref

theorem packageKept_iff {bytes : CandidateAsset → List UInt8}
    (hnames : Text.sorted (record.assets.map CandidateAsset.name) = expectedAssets record.version)
    (hdigests : ∀ asset ∈ record.assets, DigestsKept tooling.hashlib asset (bytes asset))
    {package : Json} :
    PackageKept tooling record.version (downloadDir tooling (downloadedAs record bytes)) package ↔
      RecordedPackage tooling record package := by
  have hasset : ∀ name ∈ registryNames, ∃ asset ∈ record.assets, asset.name = name := by
    intro name hname
    have hmem : name ∈ record.assets.map CandidateAsset.name := by
      rw [← Text.mem_sorted, hnames]
      exact mem_expectedAssets.mpr (Or.inl hname)
    obtain ⟨asset, hasset, hname⟩ := List.mem_map.mp hmem
    exact ⟨asset, hasset, hname⟩
  have hfile : ∀ {name}, name ∈ registryNames → ∀ {found},
      (downloadDir tooling (downloadedAs record bytes)).file name = some found ↔
        ∃ asset ∈ record.assets, asset.name = name ∧ bytes asset = found := by
    intro name hname found
    rw [DistDir.file_of_plain (plain_registryName hname), get_downloadDir (plain_assets hnames)]
  constructor
  · rintro ⟨⟨name, hname, hfirst⟩, installRefs, hinstall, hkept⟩
    obtain ⟨asset, hmem, rfl⟩ := hasset name hname
    refine ⟨⟨asset, hmem, hname, hfirst⟩, installRefs, hinstall, fun ref href => ?_⟩
    obtain ⟨name, hname, found, hget, hfound, hblake, hsha, hsize⟩ := hkept ref href
    obtain ⟨asset, hmem, rfl, rfl⟩ := (hfile hname).mp hfound
    obtain ⟨hlength, hsha256, hblake2b⟩ := hdigests asset hmem
    rw [hblake2b] at hblake
    rw [hsha256] at hsha
    rw [hlength] at hsize
    exact ⟨asset, hmem, hname, hget, hblake, hsha, hsize⟩
  · rintro ⟨⟨asset, -, hname, hfirst⟩, installRefs, hinstall, hrecorded⟩
    refine ⟨⟨asset.name, hname, hfirst⟩, installRefs, hinstall, fun ref href => ?_⟩
    obtain ⟨asset, hmem, hname, hget, hblake, hsha, hsize⟩ := hrecorded ref href
    obtain ⟨hlength, hsha256, hblake2b⟩ := hdigests asset hmem
    refine ⟨asset.name, hname, bytes asset, hget, (hfile hname).mpr ⟨asset, hmem, rfl, rfl⟩, ?_⟩
    exact ⟨by rw [hblake2b, hblake], by rw [hsha256, hsha], by rw [hlength, hsize]⟩

/-- **What the checks of a release's files accept**: the files are the expected ones and have
the recorded digests, the lines of the two digest lists are right, and every install ref of the
manifest is the public address of a recorded file of the registry, with the recorded digests of
that file; and the attestations hold. -/
theorem distribution_accepted_iff (tooling : DistTooling) (record : CandidateRecord)
    (bytes : CandidateAsset → List UInt8) :
    verifyRecord tooling.hashlib record (downloadedAs record bytes) = .ok ⟨⟩ ∧
        distribution tooling record (downloadedAs record bytes) = .ok ⟨⟩ ↔
      (Text.sorted (record.assets.map CandidateAsset.name) = expectedAssets record.version ∧
        ∀ asset ∈ record.assets, DigestsKept tooling.hashlib asset (bytes asset)) ∧
      (∀ asset ∈ record.assets, asset.name ∈ digestManifestNames →
        Right tooling.hashlib (downloadDir tooling (downloadedAs record bytes)).toAssetDir
          (sumsAlgorithm asset.name) (bytes asset)) ∧
      (∃ asset ∈ record.assets, asset.name = registryManifestName ∧ ∃ manifest packages,
        tooling.loads (bytes asset) = .ok manifest ∧ tooling.validate manifest = .ok ⟨⟩ ∧
          packagesOf manifest = .ok packages ∧
            ∀ package ∈ packages, RecordedPackage tooling record package) ∧
      tooling.attestations (downloadedAs record bytes) record.buildSha = .ok ⟨⟩ := by
  rw [verifyRecord_downloadedAs, distribution_eq_ok]
  refine and_congr_right fun ⟨hnames, hdigests⟩ => ?_
  have hfile : ∀ {name}, name ∈ manifestNames → ∀ {found},
      (downloadDir tooling (downloadedAs record bytes)).file name = some found ↔
        ∃ asset ∈ record.assets, asset.name = name ∧ bytes asset = found := by
    intro name hname found
    rw [DistDir.file_of_plain (plain_manifestName hname), get_downloadDir (plain_assets hnames)]
  have hsumsName : ∀ name ∈ digestManifestNames, name ∈ manifestNames :=
    fun name hname => List.mem_cons_of_mem _ hname
  have hasset : ∀ name ∈ manifestNames, ∃ asset ∈ record.assets, asset.name = name := by
    intro name hname
    have hmem : name ∈ record.assets.map CandidateAsset.name := by
      rw [← Text.mem_sorted, hnames]
      exact mem_expectedAssets.mpr (Or.inr (Or.inr hname))
    obtain ⟨asset, hasset, hname⟩ := List.mem_map.mp hmem
    exact ⟨asset, hasset, hname⟩
  rw [← and_assoc]
  refine and_congr_left fun _ => ⟨fun h => ⟨?_, ?_⟩, fun ⟨hsums, hmanifest⟩ => ⟨?_, ?_⟩⟩
  · intro asset hmem hname
    obtain ⟨sums, hsums, hright⟩ := h.sums asset.name hname
    obtain ⟨other, hother, hsame, rfl⟩ := (hfile (hsumsName _ hname)).mp hsums
    rwa [List.inj_on_of_nodup_map record.asset_names hother hmem hsame] at hright
  · obtain ⟨found, manifest, packages, hfound, hloads, hvalid, hpackages, hkept⟩ := h.manifest
    obtain ⟨asset, hmem, hname, rfl⟩ := (hfile List.mem_cons_self).mp hfound
    exact ⟨asset, hmem, hname, manifest, packages, hloads, hvalid, hpackages,
      fun package hpackage => (packageKept_iff hnames hdigests).mp (hkept package hpackage)⟩
  · intro name hname
    obtain ⟨asset, hmem, rfl⟩ := hasset name (hsumsName name hname)
    exact ⟨bytes asset, (hfile (hsumsName _ hname)).mpr ⟨asset, hmem, rfl, rfl⟩,
      hsums asset hmem hname⟩
  · obtain ⟨asset, hmem, hname, manifest, packages, hloads, hvalid, hpackages, hrecorded⟩ :=
      hmanifest
    exact ⟨bytes asset, manifest, packages, (hfile List.mem_cons_self).mpr ⟨asset, hmem, hname, rfl⟩,
      hloads, hvalid, hpackages,
      fun package hpackage => (packageKept_iff hnames hdigests).mpr (hrecorded package hpackage)⟩

end Downloads

end GelCli.Release
