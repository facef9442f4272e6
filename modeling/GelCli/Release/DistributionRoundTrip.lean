import GelCli.Release.DistributionChecks

/-!
# The way of the files through a release

What `assemble_stage` leaves and `candidate write` records, and that the files pass the checks of
`verify` when they come back as they were.
-/

namespace GelCli.Release

open GelCli.Foundation

/-! ## What is assembled -/

section Assembled

variable {tooling : DistTooling} {version buildDate : Text} {before dist dir : DistDir}

theorem DistDir.get_write {name : Text} (h : Foundation.Plain name) (bytes : List UInt8)
    (other : Text) : (dist.write name bytes).files.get other =
      if other = name then some bytes else dist.files.get other := by
  rw [DistDir.files_write h, Dict.get_set]

theorem get_foldlM_addDigest {names : List Text} {first entries : Dict Text FileDigest}
    {name : Text} {digest : FileDigest}
    (h : names.foldlM (addDigest tooling dist) first = .ok entries)
    (hget : entries.get name = some digest) : first.get name = some digest ∨ name ∈ names ∧
      ∃ bytes, dist.file name = some bytes ∧ digest = digestFile tooling.hashlib bytes := by
  induction names generalizing first with
  | nil =>
      cases h
      exact Or.inl hget
  | cons head names ih =>
      rw [List.foldlM_cons] at h
      obtain ⟨next, hnext, h⟩ := bind_eq_ok.mp h
      obtain ⟨bytes, hbytes, hnext⟩ := expect_bind_eq_ok.mp hnext
      cases hnext
      rcases ih h with hfirst | ⟨hname, hfound⟩
      · rw [Dict.get_set] at hfirst
        by_cases heq : name = head
        · rw [if_pos heq] at hfirst
          cases hfirst
          rw [heq]
          exact Or.inr ⟨List.mem_cons_self, bytes, hbytes, rfl⟩
        · rw [if_neg heq] at hfirst
          exact Or.inl hfirst
      · exact Or.inr ⟨List.mem_cons_of_mem _ hname, hfound⟩

theorem get_digestRegistry {entries : Dict Text FileDigest}
    (h : digestRegistry tooling dist = .ok entries) {name : Text} {digest : FileDigest}
    (hget : entries.get name = some digest) : name ∈ registryNames ∧
      ∃ bytes, dist.file name = some bytes ∧ digest = digestFile tooling.hashlib bytes := by
  rcases get_foldlM_addDigest h hget with hempty | hfound
  · cases hempty
  · exact hfound

theorem manifestIndex_eq_ok {repository channel : Text} {entries : Dict Text FileDigest}
    {details index : Json} {target : Target} :
    manifestIndex repository version buildDate entries details channel target = .ok index ↔
      ∃ identity zstd, entries.get (registryIdentityName target) = some identity ∧
        entries.get (registryZstdName target) = some zstd ∧
          index = indexJson channel target
            (packageJson repository version buildDate details target identity zstd) := by
  unfold manifestIndex manifestPackage
  simp only [bind_eq_ok, expect_eq_ok]
  constructor
  · rintro ⟨package, ⟨identity, hidentity, zstd, hzstd, hpackage⟩, hindex⟩
    cases hpackage
    cases hindex
    exact ⟨identity, zstd, hidentity, hzstd, rfl⟩
  · rintro ⟨identity, zstd, hidentity, hzstd, rfl⟩
    exact ⟨_, ⟨identity, hidentity, zstd, hzstd, rfl⟩, rfl⟩

theorem versionDetails_eq_ok {details : Json} {channel : Text}
    (h : versionDetails version = .ok (details, channel)) :
    version.all assetChar = true ∧ details.Apart := by
  obtain ⟨⟨v, pre⟩, hmatch, h⟩ := expect_bind_eq_ok.mp h
  cases h
  refine ⟨assetChars_version (form_of_versionMatch hmatch), ?_⟩
  cases pre <;> simp [Json.Apart, Json.ApartFields, Json.ApartItems, prereleaseDetail]

theorem apart_indexJson {repository channel : Text} {details : Json} (hapart : details.Apart)
    (target : Target) (identity zstd : FileDigest) : (indexJson channel target
      (packageJson repository version buildDate details target identity zstd)).Apart := by
  simp [indexJson, packageJson, installRef, Json.Apart, Json.ApartFields, Json.ApartItems, hapart]

/-- The package of a target promises the two files of the target. -/
theorem kept_packageJson {target : Target} (htarget : target ∈ registryTargets) (details : Json)
    {identity zstd : List UInt8} (hidentity : dir.file (registryIdentityName target) = some identity)
    (hzstd : dir.file (registryZstdName target) = some zstd) :
    PackageKept tooling version dir (packageJson tooling.repository version buildDate details target
      (digestFile tooling.hashlib identity) (digestFile tooling.hashlib zstd)) := by
  have hidentityName : registryIdentityName target ∈ registryNames :=
    List.mem_flatMap.mpr ⟨target, htarget, List.mem_cons_self⟩
  have hzstdName : registryZstdName target ∈ registryNames :=
    List.mem_flatMap.mpr ⟨target, htarget, List.mem_cons_of_mem _ List.mem_cons_self⟩
  refine ⟨⟨_, hzstdName, rfl⟩, _, rfl, List.forall_mem_cons.mpr ⟨?_, ?_⟩⟩
  · exact ⟨_, hidentityName, identity, rfl, hidentity, rfl, rfl, rfl⟩
  · refine List.forall_mem_singleton.mpr ?_
    exact ⟨_, hzstdName, zstd, rfl, hzstd, rfl, rfl, rfl⟩

/-- **A manifest that is built keeps its promises.** -/
theorem buildManifest_kept {entries : Dict Text FileDigest} {manifest : Json}
    (h : buildManifest tooling.repository version buildDate entries = .ok manifest)
    (hentries : ∀ name digest, entries.get name = some digest →
      ∃ bytes, dir.file name = some bytes ∧ digest = digestFile tooling.hashlib bytes) :
    version.all assetChar = true ∧ manifest.Apart ∧ ∃ packages,
      packagesOf manifest = .ok packages ∧
        ∀ package ∈ packages, PackageKept tooling version dir package := by
  obtain ⟨⟨details, channel⟩, hdetails, h⟩ := bind_eq_ok.mp h
  obtain ⟨hchars, hapart⟩ := versionDetails_eq_ok hdetails
  obtain ⟨-, h⟩ := require_bind_eq_ok.mp h
  obtain ⟨indexes, hindexes, h⟩ := bind_eq_ok.mp h
  cases h
  have hindex : ∀ index ∈ indexes, ∃ target ∈ registryTargets, ∃ identity zstd,
      entries.get (registryIdentityName target) = some identity ∧
        entries.get (registryZstdName target) = some zstd ∧ index = indexJson channel target
          (packageJson tooling.repository version buildDate details target identity zstd) := by
    intro index hmem
    obtain ⟨target, htarget, hok⟩ := exists_of_mapM_ok hindexes hmem
    exact ⟨target, htarget, manifestIndex_eq_ok.mp hok⟩
  have hpackages : ∀ index ∈ indexes, ∃ packages, itemsOf index "packages" = .ok packages := by
    intro index hmem
    obtain ⟨target, -, identity, zstd, -, -, rfl⟩ := hindex index hmem
    exact ⟨_, rfl⟩
  obtain ⟨found, hfound⟩ := exists_mapM_ok.mpr hpackages
  refine ⟨hchars, ?_, found.flatten, packagesOf_eq_ok.mpr ⟨indexes, found, rfl, hfound, rfl⟩, ?_⟩
  · have hall : ∀ index ∈ indexes, index.Apart := by
      intro index hmem
      obtain ⟨target, -, identity, zstd, -, -, rfl⟩ := hindex index hmem
      exact apart_indexJson hapart target identity zstd
    have hkeys : ["schema_version", "indexes"].Nodup := by decide
    refine Json.apart_obj.mpr ⟨hkeys, List.forall_mem_cons.mpr ⟨trivial, ?_⟩⟩
    exact List.forall_mem_singleton.mpr (Json.apart_arr.mpr hall)
  · intro package hpackage
    obtain ⟨packages, hlist, hmem⟩ := List.mem_flatten.mp hpackage
    obtain ⟨index, hin, hok⟩ := exists_of_mapM_ok hfound hlist
    obtain ⟨target, htarget, identity, zstd, hidentity, hzstd, rfl⟩ := hindex index hin
    cases hok
    rw [List.mem_singleton.mp hmem]
    obtain ⟨identityBytes, hidentityFile, rfl⟩ := hentries _ _ hidentity
    obtain ⟨zstdBytes, hzstdFile, rfl⟩ := hentries _ _ hzstd
    exact kept_packageJson htarget details hidentityFile hzstdFile

/-- The lines of a digest list that is written are those of files that stay. -/
theorem lines_writeSums (hashlib : Hashlib) (algorithm : Algorithm)
    (hlines : ∀ file bytes, before.files.get file = some bytes → file ∉ digestManifestNames →
      Text.OneLine file)
    (hsame : ∀ file, file ∉ digestManifestNames →
      before.files.get file = dir.files.get file) :
    ∃ text, Release.writeSums hashlib before.toAssetDir algorithm digestManifestNames =
        Text.utf8 text ∧ ∀ line ∈ Text.splitlines text, ∃ file, Foundation.Plain file ∧
          digestLine hashlib dir.toAssetDir algorithm file = some line := by
  have hcovered : ∀ file ∈ before.toAssetDir.covered digestManifestNames,
      file ∈ before.files.keys ∧ file ∉ digestManifestNames := by
    intro file hfile
    obtain ⟨hsorted, hskip⟩ := List.mem_filter.mp hfile
    exact ⟨(List.mem_filter.mp (Text.mem_sorted.mp hsorted)).1, by simpa using hskip⟩
  refine ⟨_, rfl, fun line hline => ?_⟩
  rw [Text.splitlines_unlines (oneLine_of_mem_sumsLines fun file hfile => ?_)] at hline
  · obtain ⟨file, hfile, hdigest⟩ := List.mem_filterMap.mp hline
    obtain ⟨hkey, hskip⟩ := hcovered file hfile
    have hplain := before.plain file hkey
    refine ⟨file, hplain, ?_⟩
    rw [← hdigest]
    show (dir.file file).map _ = (before.file file).map _
    rw [DistDir.file_of_plain hplain, DistDir.file_of_plain hplain, hsame file hskip]
  · obtain ⟨hkey, hskip⟩ := hcovered file hfile
    obtain ⟨bytes, hbytes⟩ := Dict.mem_keys_iff.mp hkey
    exact hlines file bytes hbytes hskip

theorem DistDir.get_writeSums {name : Text} (hname : name ∈ digestManifestNames)
    (hashlib : Hashlib) (other : Text) : (dist.writeSums hashlib name).files.get other =
      if other = name then some (Release.writeSums hashlib dist.toAssetDir (sumsAlgorithm name)
        digestManifestNames) else dist.files.get other :=
  DistDir.get_write (plain_manifestName (List.mem_cons_of_mem _ hname)) _ other

theorem DistDir.get_writeSums_of_notMem {name other : Text} (hname : name ∈ digestManifestNames)
    (hskip : other ∉ digestManifestNames) (hashlib : Hashlib) :
    (dist.writeSums hashlib name).files.get other = dist.files.get other := by
  have hne : other ≠ name := fun heq => hskip (heq ▸ hname)
  rw [DistDir.get_writeSums hname, if_neg hne]

/-- A digest list stays right as long as it, and the files that it covers, are not written. -/
theorem sums_of_writeSums {name : Text} (hname : name ∈ digestManifestNames) {hashlib : Hashlib}
    (hlines : ∀ file bytes, dir.files.get file = some bytes → Text.OneLine file)
    (hsame : ∀ file, file ∉ digestManifestNames → before.files.get file = dir.files.get file)
    (hkept : dir.files.get name = (before.writeSums hashlib name).files.get name) :
    ∃ text, dir.files.get name = some (Text.utf8 text) ∧
      ∀ line ∈ Text.splitlines text, ∃ file, Foundation.Plain file ∧
        digestLine hashlib dir.toAssetDir (sumsAlgorithm name) file = some line := by
  have hbefore : ∀ file bytes, before.files.get file = some bytes → file ∉ digestManifestNames →
      Text.OneLine file :=
    fun file bytes hbytes hskip => hlines file bytes ((hsame file hskip).symm.trans hbytes)
  obtain ⟨text, htext, hright⟩ := lines_writeSums hashlib (sumsAlgorithm name) hbefore hsame
  refine ⟨text, ?_, hright⟩
  rw [hkept, DistDir.get_writeSums hname, if_pos rfl, htext]

/-- What `assemble_stage` leaves. -/
structure Assembled (tooling : DistTooling) (version : Text) (dist : DistDir) : Prop where
  sums : ∀ name ∈ digestManifestNames, ∃ text, dist.files.get name = some (Text.utf8 text) ∧
    ∀ line ∈ Text.splitlines text, ∃ file, Foundation.Plain file ∧
      digestLine tooling.hashlib dist.toAssetDir (sumsAlgorithm name) file = some line
  manifest : ∃ manifest packages, dist.files.get registryManifestName = some (dumpManifest manifest) ∧
    manifest.Apart ∧ tooling.validate manifest = .ok ⟨⟩ ∧ packagesOf manifest = .ok packages ∧
      ∀ package ∈ packages, PackageKept tooling version dist package

theorem assembled_of_ok (h : assembleStage tooling version buildDate before = .ok dist) :
    Assembled tooling version dist := by
  obtain ⟨entries, hentries, h⟩ := bind_eq_ok.mp h
  obtain ⟨manifest, hmanifest, h⟩ := bind_eq_ok.mp h
  obtain ⟨⟨⟩, hvalid, h⟩ := bind_eq_ok.mp h
  obtain ⟨hinventory, h⟩ := require_bind_eq_ok.mp h
  cases h
  have hnames : registryManifestName ∉ digestManifestNames ∧ registryManifestName ∉ registryNames ∧
      sha256SumsName ≠ blake2bSumsName := by decide +kernel
  obtain ⟨hnotSums, hnotRegistry, hne⟩ := hnames
  have hsha : sha256SumsName ∈ digestManifestNames := List.mem_cons_self
  have hblake : blake2bSumsName ∈ digestManifestNames := List.mem_cons_of_mem _ List.mem_cons_self
  have hplainManifest : Foundation.Plain registryManifestName :=
    plain_manifestName List.mem_cons_self
  -- the directory after each of the three files
  have hfirst : ∀ other,
      (before.write registryManifestName (dumpManifest manifest)).files.get other = _ :=
    DistDir.get_write hplainManifest _
  generalize before.write registryManifestName (dumpManifest manifest) = first at *
  have hsecond : ∀ file, file ∉ digestManifestNames →
      first.files.get file = (first.writeSums tooling.hashlib sha256SumsName).files.get file :=
    fun file hskip => (DistDir.get_writeSums_of_notMem hsha hskip _).symm
  have hlast : ∀ file, file ∉ digestManifestNames →
      (first.writeSums tooling.hashlib sha256SumsName).files.get file =
        ((first.writeSums tooling.hashlib sha256SumsName).writeSums tooling.hashlib
          blake2bSumsName).files.get file :=
    fun file hskip => (DistDir.get_writeSums_of_notMem hblake hskip _).symm
  have hsums : ((first.writeSums tooling.hashlib sha256SumsName).writeSums tooling.hashlib
      blake2bSumsName).files.get sha256SumsName =
        (first.writeSums tooling.hashlib sha256SumsName).files.get sha256SumsName := by
    rw [DistDir.get_writeSums hblake, if_neg hne]
  generalize hsecondDir : first.writeSums tooling.hashlib sha256SumsName = second at *
  generalize hlastDir : second.writeSums tooling.hashlib blake2bSumsName = last at *
  have hkept : ∀ file, file ∉ digestManifestNames →
      first.files.get file = last.files.get file :=
    fun file hskip => (hsecond file hskip).trans (hlast file hskip)
  have hregistry : ∀ name ∈ registryNames, last.file name = before.file name := by
    intro name hname
    have hother : name ≠ registryManifestName := fun heq => hnotRegistry (heq ▸ hname)
    have hplain := plain_registryName hname
    rw [DistDir.file_of_plain hplain, DistDir.file_of_plain hplain,
      ← hkept name (registryName_isolated hname).2, hfirst, if_neg hother]
  have hfiles : ∀ name digest, entries.get name = some digest →
      ∃ bytes, last.file name = some bytes ∧ digest = digestFile tooling.hashlib bytes := by
    intro name digest hget
    obtain ⟨hname, bytes, hbytes, hdigest⟩ := get_digestRegistry hentries hget
    exact ⟨bytes, (hregistry name hname).trans hbytes, hdigest⟩
  obtain ⟨hchars, hapart, packages, hpackages, hpromises⟩ := buildManifest_kept hmanifest hfiles
  have hlines : ∀ file bytes, last.files.get file = some bytes → Text.OneLine file := by
    intro file bytes hbytes
    have hmem : file ∈ expectedAssets version :=
      hinventory ▸ Text.mem_sorted.mpr (Dict.mem_keys_iff.mpr ⟨bytes, hbytes⟩)
    exact oneLine_of_assetChars (expectedAsset_name hchars hmem).2
  refine ⟨fun name hname => ?_, manifest, packages, ?_, hapart, hvalid, hpackages, hpromises⟩
  · rcases List.mem_cons.mp hname with rfl | hname
    · exact sums_of_writeSums hsha hlines hkept (by rw [hsecondDir, hsums])
    · rw [List.mem_singleton.mp hname]
      exact sums_of_writeSums hblake hlines hlast (by rw [hlastDir])
  · rw [← hkept _ hnotSums, hfirst, if_pos rfl]

/-- The files are the expected ones. -/
theorem inventory_of_ok (h : assembleStage tooling version buildDate before = .ok dist) {name : Text}
    (hplain : Foundation.Plain name) (hsome : (dist.file name).isSome) :
    name ∈ expectedAssets version := by
  obtain ⟨entries, -, h⟩ := bind_eq_ok.mp h
  obtain ⟨manifest, -, h⟩ := bind_eq_ok.mp h
  obtain ⟨⟨⟩, -, h⟩ := bind_eq_ok.mp h
  obtain ⟨hinventory, h⟩ := require_bind_eq_ok.mp h
  cases h
  rw [DistDir.file_of_plain hplain] at hsome
  obtain ⟨bytes, hbytes⟩ := Option.isSome_iff_exists.mp hsome
  exact hinventory ▸ Text.mem_sorted.mpr (Dict.mem_keys_iff.mpr ⟨bytes, hbytes⟩)

theorem PackageKept.of_same {package : Json} (h : PackageKept tooling version dist package)
    (hsame : ∀ name, Foundation.Plain name → dir.file name = dist.file name) :
    PackageKept tooling version dir package := by
  obtain ⟨hfirst, installRefs, hinstall, hkept⟩ := h
  refine ⟨hfirst, installRefs, hinstall, fun ref href => ?_⟩
  obtain ⟨name, hname, bytes, hget, hfile, hpromised⟩ := hkept ref href
  exact ⟨name, hname, bytes, hget, (hsame name (plain_registryName hname)).trans hfile, hpromised⟩

/-- A directory of the same files is accepted. -/
theorem Assembled.accepted (h : Assembled tooling version dist)
    (hsame : ∀ name, Foundation.Plain name → dir.file name = dist.file name) :
    DirAccepted tooling version dir := by
  obtain ⟨manifest, packages, hbytes, hapart, hvalid, hpackages, hkept⟩ := h.manifest
  refine ⟨fun name hname => ?_, dumpManifest manifest, manifest, packages, ?_,
    tooling.loads_dump manifest hapart, hvalid, hpackages,
    fun package hpackage => (hkept package hpackage).of_same hsame⟩
  · obtain ⟨text, htext, hlines⟩ := h.sums name hname
    have hplain : Foundation.Plain name := plain_manifestName (List.mem_cons_of_mem _ hname)
    refine ⟨Text.utf8 text, ?_, text, Text.ofUtf8_utf8 text, fun line hline => ?_⟩
    · rw [hsame name hplain, DistDir.file_of_plain hplain, htext]
    · obtain ⟨file, hfile, hdigest⟩ := hlines line hline
      refine ⟨file, ?_⟩
      rw [← hdigest]
      exact congrArg (Option.map _) (hsame file hfile)
  · have hplain : Foundation.Plain registryManifestName := plain_manifestName List.mem_cons_self
    rw [hsame _ hplain, DistDir.file_of_plain hplain, hbytes]

end Assembled

/-! ## What is recorded -/

section Recorded

variable {hashlib : Hashlib} {args : RecordArgs} {dist : DistDir} {record : CandidateRecord}

theorem recordEntry_eq_ok {ids : Dict Text ℤ} {name : Text} {entry : Json} :
    recordEntry hashlib dist ids name = .ok entry ↔ ∃ bytes id, dist.file name = some bytes ∧
      ids.get name = some id ∧ entry = assetJson id name (digestFile hashlib bytes) := by
  unfold recordEntry
  simp only [expect_bind_eq_ok]
  constructor
  · rintro ⟨bytes, hbytes, id, hid, hentry⟩
    cases hentry
    exact ⟨bytes, id, hbytes, hid, rfl⟩
  · rintro ⟨bytes, id, hbytes, hid, rfl⟩
    exact ⟨bytes, hbytes, id, hid, rfl⟩

theorem apart_assetJson (id : ℤ) (name : Text) (digest : FileDigest) :
    (assetJson id name digest).Apart := by
  simp [assetJson, Json.apart_obj, Json.Apart]

/-- The assets of a record that is read from entries. -/
theorem assets_of_entries {ids : Dict Text ℤ} {names : List Text} {entries : List Json}
    (hentries : List.Forall₂ (fun name entry => recordEntry hashlib dist ids name = .ok entry)
      names entries) {assets : List CandidateAsset}
    (hassets : List.Forall₂ Json.Equal entries (assets.map CandidateAsset.json)) :
    assets.map CandidateAsset.name = names ∧ ∀ asset ∈ assets,
      ∃ bytes, dist.file asset.name = some bytes ∧ DigestsKept hashlib asset bytes := by
  induction hentries generalizing assets with
  | nil =>
      rw [List.forall₂_nil_left_iff, List.map_eq_nil_iff] at hassets
      rw [hassets]
      exact ⟨rfl, fun asset hasset => absurd hasset List.not_mem_nil⟩
  | @cons name entry names entries hentry _ ih =>
      rcases assets with _ | ⟨asset, assets⟩
      · cases hassets
      obtain ⟨hequal, hrest⟩ := List.forall₂_cons.mp hassets
      obtain ⟨hnames, hfiles⟩ := ih hrest
      obtain ⟨bytes, id, hbytes, -, rfl⟩ := recordEntry_eq_ok.mp hentry
      have hget := hequal.get (apart_assetJson id name (digestFile hashlib bytes))
      have hname : Json.Equal (.str name) (.str asset.name) := hget "name"
      have hsize : Json.Equal (.num bytes.length) (.num asset.size) := hget "size"
      have hsha : Json.Equal (.str (hashlib.sha256 bytes)) (.str asset.sha256) := hget "sha256"
      have hblake : Json.Equal (.str (hashlib.blake2b bytes)) (.str asset.blake2b512) :=
        hget "blake2b512"
      rw [Json.Equal.str_iff] at hname hsha hblake
      rw [Json.Equal.num_iff] at hsize
      cases hname
      refine ⟨by rw [List.map_cons, hnames], List.forall_mem_cons.mpr ⟨?_, hfiles⟩⟩
      exact ⟨bytes, hbytes, Json.num.inj hsize, Json.str.inj hsha, Json.str.inj hblake⟩

theorem apart_recordJson {entries : List Json} (hentries : ∀ entry ∈ entries, entry.Apart) :
    (recordJson args entries).Apart := by
  have hschema : recordSchema.Nodup := by decide
  have hphase : ((args.phase.map Json.str).getD .null).Apart := by
    cases args.phase <;> trivial
  refine Json.apart_obj.mpr ⟨hschema, ?_⟩
  simp only [List.forall_mem_cons, List.not_mem_nil, IsEmpty.forall_iff, implies_true, and_true]
  refine ⟨trivial, trivial, trivial, hphase, trivial, trivial, trivial, trivial, trivial, trivial,
    trivial, trivial, ?_, ?_, Json.apart_arr.mpr hentries⟩
  · simp [Json.Apart, Json.ApartItems, Json.ApartFields]
  · simp [Json.Apart, Json.ApartFields]

/-- **What is recorded are the files of the directory.** -/
theorem recorded_of_ok {assetIds : Json}
    (h : writeRecord hashlib args dist assetIds = .ok record) :
    record.version = args.version ∧
      record.assets.map CandidateAsset.name = expectedAssets args.version ∧
      ∀ asset ∈ record.assets,
        ∃ bytes, dist.file asset.name = some bytes ∧ DigestsKept hashlib asset bytes := by
  obtain ⟨items, -, h⟩ := expect_bind_eq_ok.mp h
  obtain ⟨ids, -, h⟩ := bind_eq_ok.mp h
  obtain ⟨-, h⟩ := require_bind_eq_ok.mp h
  obtain ⟨entries, hentries, h⟩ := bind_eq_ok.mp h
  have hread := mapError_eq_ok.mp h
  have hapart : (recordJson args entries).Apart := by
    refine apart_recordJson fun entry hentry => ?_
    obtain ⟨name, -, hok⟩ := exists_of_mapM_ok hentries hentry
    obtain ⟨bytes, id, -, -, rfl⟩ := recordEntry_eq_ok.mp hok
    exact apart_assetJson _ _ _
  have hget := ((CandidateRecord.read_eq_ok hapart).mp hread).get hapart
  have hversion : Json.Equal (.str args.version) (.str record.version) := hget "version"
  have hassets : Json.Equal (.arr entries) (.arr (record.assets.map CandidateAsset.json)) :=
    hget "assets"
  rw [Json.Equal.str_iff] at hversion
  obtain ⟨found, hfound, hall⟩ := Json.Equal.arr_iff.mp hassets
  cases hfound
  exact ⟨(Json.str.inj hversion).symm, assets_of_entries (mapM_eq_ok.mp hentries) hall⟩

end Recorded

/-! ## The way through the release -/

/-- The files of a record as they are in a directory. -/
def collect (dist : DistDir) (record : CandidateRecord) : Except String (List Downloaded) :=
  record.assets.mapM fun asset => do
    let bytes ← expect (dist.file asset.name) s!"missing staged asset {String.ofList asset.name}"
    return (asset, bytes)

theorem collect_eq_ok {dist : DistDir} {record : CandidateRecord} {files : List Downloaded}
    (h : collect dist record = .ok files) : ∃ bytes, files = downloadedAs record bytes ∧
      ∀ asset ∈ record.assets, dist.file asset.name = some (bytes asset) := by
  have hsome : ∀ asset ∈ record.assets, (dist.file asset.name).isSome := by
    intro asset hasset
    obtain ⟨file, -, hok⟩ := exists_mem_of_forall₂ (mapM_eq_ok.mp h) hasset
    obtain ⟨bytes, hbytes, -⟩ := expect_bind_eq_ok.mp hok
    rw [hbytes]
    rfl
  have hbytes : ∀ asset ∈ record.assets,
      dist.file asset.name = some ((dist.file asset.name).getD []) := by
    intro asset hasset
    obtain ⟨bytes, hfound⟩ := Option.isSome_iff_exists.mp (hsome asset hasset)
    rw [hfound, Option.getD_some]
  refine ⟨fun asset => (dist.file asset.name).getD [], ?_, hbytes⟩
  have hmap : collect dist record = .ok (record.assets.map fun asset =>
      (asset, (dist.file asset.name).getD [])) := by
    refine mapM_ok fun asset hasset => ?_
    rw [hbytes asset hasset]
    rfl
  rw [h] at hmap
  exact Except.ok.inj hmap

section RoundTrip

variable {tooling : DistTooling} {args : RecordArgs} {dist : DistDir} {record : CandidateRecord}

/-- What was assembled and recorded is accepted when it is downloaded again. -/
theorem accepted_of_assembled (h : Assembled tooling args.version dist) {assetIds : Json}
    (hrecord : writeRecord tooling.hashlib args dist assetIds = .ok record)
    (hinventory : ∀ name, Foundation.Plain name → (dist.file name).isSome →
      name ∈ expectedAssets args.version)
    {files : List Downloaded} (hfiles : collect dist record = .ok files) :
    verifyRecord tooling.hashlib record files = .ok ⟨⟩ ∧
      DirAccepted tooling record.version (downloadDir tooling files) := by
  obtain ⟨hversion, hnames, hdigests⟩ := recorded_of_ok hrecord
  obtain ⟨bytes, rfl, hbytes⟩ := collect_eq_ok hfiles
  have hsorted : Text.sorted (record.assets.map CandidateAsset.name) =
      expectedAssets record.version := by
    rw [hnames, hversion, expectedAssets, Text.sorted_sorted]
  have hkept : ∀ asset ∈ record.assets, DigestsKept tooling.hashlib asset (bytes asset) := by
    intro asset hasset
    obtain ⟨found, hfound, hkept⟩ := hdigests asset hasset
    rw [hbytes asset hasset] at hfound
    cases hfound
    exact hkept
  refine ⟨verifyRecord_downloadedAs.mpr ⟨hsorted, hkept⟩, ?_⟩
  rw [hversion]
  refine h.accepted fun name hplain => ?_
  rw [DistDir.file_of_plain hplain]
  ext found
  rw [get_downloadDir (plain_assets hsorted)]
  constructor
  · rintro ⟨asset, hasset, rfl, rfl⟩
    exact hbytes asset hasset
  · intro hfound
    have hmem : name ∈ record.assets.map CandidateAsset.name := by
      rw [hnames]
      exact hinventory name hplain (by rw [hfound]; rfl)
    obtain ⟨asset, hasset, rfl⟩ := List.mem_map.mp hmem
    refine ⟨asset, hasset, rfl, ?_⟩
    rw [hbytes asset hasset] at hfound
    exact Option.some.inj hfound

end RoundTrip

/-- **What is staged passes its own checks**: when the files that were assembled and recorded
come back as they were, the checks of the record, of the digest lists and of the manifest all
pass, and a run with them is a run without them; only the attestations are still looked at. -/
theorem staged_files_accepted (tooling : DistTooling) (args : RecordArgs) (buildDate : Text)
    (before : DistDir) (assetIds : Json) :
    (do
      let dist ← assembleStage tooling args.version buildDate before
      let record ← writeRecord tooling.hashlib args dist assetIds
      let files ← collect dist record
      verifyRecord tooling.hashlib record files
      distribution tooling record files) =
    (do
      let dist ← assembleStage tooling args.version buildDate before
      let record ← writeRecord tooling.hashlib args dist assetIds
      let files ← collect dist record
      tooling.attestations files record.buildSha) := by
  cases hdist : assembleStage tooling args.version buildDate before with
  | error _ => rfl
  | ok dist =>
      rw [ok_bind, ok_bind]
      cases hrecord : writeRecord tooling.hashlib args dist assetIds with
      | error _ => rfl
      | ok record =>
          rw [ok_bind, ok_bind]
          cases hfiles : collect dist record with
          | error _ => rfl
          | ok files =>
              obtain ⟨hverify, haccepted⟩ := accepted_of_assembled (assembled_of_ok hdist) hrecord
                (fun name hplain hsome => inventory_of_ok hdist hplain hsome) hfiles
              rw [ok_bind, ok_bind, hverify, ok_bind, distribution_of_accepted haccepted]

end GelCli.Release
